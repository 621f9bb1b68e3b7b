/-!
# Segments

A text cut at every occurrence of a character: names at their dots, paths at their slashes.
-/

namespace ThriftRpc.Text

/-- The pieces between the occurrences of `sep`, empty ones included. -/
def split (sep : Char) : List Char → List (List Char)
  | [] => [[]]
  | c :: s =>
    if c = sep then [] :: split sep s
    else match split sep s with
      | [] => [[c]]
      | w :: ws => (c :: w) :: ws

/-- The pieces between dots that are not empty. -/
def nameSegments (name : String) : List String :=
  ((split '.' name.toList).filter (· ≠ [])).map String.ofList

/-- What follows the last dot of a name, or the whole name. -/
def lastSegment (name : String) : String :=
  String.ofList (name.toList.reverse.takeWhile (· ≠ '.')).reverse

example : nameSegments "a..b." = ["a", "b"] := by decide +kernel
example : lastSegment "a.b" = "b" ∧ lastSegment "b" = "b" := by decide +kernel

end ThriftRpc.Text
