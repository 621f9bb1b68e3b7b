import ThriftRpc.Idl.Lexeme
import ThriftRpc.Idl.Syntax

/-!
# The grammar of interface definitions

Which texts stand for a list of nodes, said without the parser. A node is spelled as a list of
tokens, with a choice wherever the grammar has one; the tokens are laid out with blanks and comments
between them. `Written nodes text` puts the two together. Comments between definitions are nodes of
their own and are left out here, and so are constants with a fraction or an exponent.
-/

namespace ThriftRpc.Idl.Grammar

open Text (isBlank digitsValue)

inductive Keyword where
  | inclusion
  | scope
  | constant
  | typedef
  | enum
  | senum
  | struct
  | union
  | everything
  | exception
  | service
  | parent
  | oneway
  | async
  | void
  | throws
  | required
  | optional
  | map
  | set
  | list
  | foreign
  deriving DecidableEq

namespace Keyword

def text : Keyword → String
  | inclusion => "include"
  | scope => "namespace"
  | constant => "const"
  | typedef => "typedef"
  | enum => "enum"
  | senum => "senum"
  | struct => "struct"
  | union => "union"
  | everything => "xsd_all"
  | exception => "exception"
  | service => "service"
  | parent => "extends"
  | oneway => "oneway"
  | async => "async"
  | void => "void"
  | throws => "throws"
  | required => "required"
  | optional => "optional"
  | map => "map"
  | set => "set"
  | list => "list"
  | foreign => "cpp_type"

/-- The keyword stands at the start of a header or a definition, and nowhere else. -/
def opens : Keyword → Bool
  | inclusion | scope | constant | typedef | enum | senum | struct | union | exception
  | service => true
  | _ => false

end Keyword

/-- The words that are no names. -/
def reserved : List String :=
  ["include", "namespace", "const", "typedef", "enum", "senum", "struct", "union", "xsd_all",
    "exception", "service", "extends", "oneway", "async", "void", "throws", "required", "optional",
    "map", "set", "list", "cpp_type", "true", "false"]

/-- A letter or an underscore, followed by letters, digits, underscores and points. -/
def HasNameForm : List Char → Prop
  | c :: cs => (c.isAlpha = true ∨ c = '_') ∧ ∀ x ∈ cs, Lexeme.isNameChar x = true
  | [] => False

/-- The characters are tried one by one, not every character there is. -/
instance : (s : List Char) → Decidable (HasNameForm s)
  | c :: cs => @instDecidableAnd (c.isAlpha = true ∨ c = '_') _ inferInstance
    (List.decidableBAll (fun x => Lexeme.isNameChar x = true) cs)
  | [] => inferInstanceAs (Decidable False)

structure Name where
  text : String
  form : HasNameForm text.toList
  free : text ∉ reserved

inductive Symbol where
  | openBrace
  | closeBrace
  | openParen
  | closeParen
  | openBracket
  | closeBracket
  | less
  | greater
  | comma
  | semicolon
  | colon
  | equals
  | star
  deriving DecidableEq

def Symbol.text : Symbol → String
  | openBrace => "\x7b"
  | closeBrace => "\x7d"
  | openParen => "("
  | closeParen => ")"
  | openBracket => "["
  | closeBracket => "]"
  | less => "<"
  | greater => ">"
  | comma => ","
  | semicolon => ";"
  | colon => ":"
  | equals => "="
  | star => "*"

inductive Sign where
  | absent
  | plus
  | minus
  deriving DecidableEq

def Sign.text : Sign → List Char
  | absent => []
  | plus => ['+']
  | minus => ['-']

def Sign.apply : Sign → Nat → Int
  | minus, n => -n
  | _, n => n

/-- A decimal integer of 64 bits. -/
structure Numeral where
  sign : Sign
  digits : List Char
  nonempty : digits ≠ []
  decimal : ∀ c ∈ digits, c.isDigit = true
  fits : -0x8000000000000000 ≤ sign.apply (digitsValue digits) ∧
    sign.apply (digitsValue digits) ≤ 0x7FFFFFFFFFFFFFFF

def Numeral.value (n : Numeral) : Int64 := .ofInt (n.sign.apply (digitsValue n.digits))

/-- The letter of an escape and what the escape stands for. -/
def escapes : List (Char × Char) :=
  [('r', '\r'), ('n', '\n'), ('t', '\t'), ('"', '"'), ('\'', '\''), ('\\', '\\')]

/-- What may stand between two quotes for a text. A backslash may stand for itself in front of a
character that is no letter of an escape. -/
inductive Spelled (quote : Char) : List Char → List Char → Prop
  | nil : Spelled quote [] []
  | plain {c : Char} {body text : List Char} :
    c ≠ quote → c ≠ '\\' → Spelled quote body text → Spelled quote (c :: body) (c :: text)
  | escape {letter c : Char} {body text : List Char} :
    (letter, c) ∈ escapes → Spelled quote body text →
      Spelled quote ('\\' :: letter :: body) (c :: text)
  | backslash {c : Char} {body text : List Char} :
    c ∉ escapes.map Prod.fst → Spelled quote (c :: body) text →
      Spelled quote ('\\' :: c :: body) ('\\' :: text)

structure Literal where
  quote : Char
  body : List Char
  value : List Char
  isQuote : quote = '"' ∨ quote = '\''
  spelled : Spelled quote body value

inductive Token where
  | keyword (k : Keyword)
  | name (n : Name)
  | symbol (x : Symbol)
  | numeral (n : Numeral)
  | literal (l : Literal)

namespace Token

def text : Token → List Char
  | keyword k => k.text.toList
  | name n => n.text.toList
  | symbol x => x.text.toList
  | numeral n => n.sign.text ++ n.digits
  | literal l => l.quote :: l.body ++ [l.quote]

def opens : Token → Bool
  | keyword k => k.opens
  | _ => false

end Token

/-! ## Layout -/

/-- A run of blanks and comments. A comment up to the end of its line ends with the newline. -/
inductive Trivia : List Char → Prop
  | nil : Trivia []
  | blank {c : Char} {s : List Char} : isBlank c = true → Trivia s → Trivia (c :: s)
  | block {inner s : List Char} : ¬ ['*', '/'] <:+: inner → Trivia s →
    Trivia (['/', '*'] ++ inner ++ ['*', '/'] ++ s)
  | line {start inner s : List Char} : start = ['#'] ∨ start = ['/', '/'] → '\n' ∉ inner →
    Trivia s → Trivia (start ++ inner ++ '\n' :: s)

/-- What may stand in front of a token: between definitions, blanks alone. -/
def Gap (t : Token) (s : List Char) : Prop :=
  if t.opens then ∀ c ∈ s, isBlank c = true else Trivia s

/-- A text of tokens, each behind a gap. -/
inductive Laid : List Token → List Char → Prop
  | nil {s : List Char} : (∀ c ∈ s, isBlank c = true) → Laid [] s
  | cons {t : Token} {ts : List Token} {gap s : List Char} : gap ≠ [] → Gap t gap → Laid ts s →
    Laid (t :: ts) (gap ++ t.text ++ s)

section Forms

variable {α : Type}

/-- One after another, as many as there are. -/
inductive Each (form : α → List Token → Prop) : List α → List Token → Prop
  | nil : Each form [] []
  | cons {a : α} {as : List α} {us ts : List Token} :
    form a us → Each form as ts → Each form (a :: as) (us ++ ts)

inductive Maybe (form : α → List Token → Prop) : Option α → List Token → Prop
  | none : Maybe form none []
  | some {a : α} {ts : List Token} : form a ts → Maybe form (some a) ts

end Forms

inductive SeparatorForm : List Token → Prop
  | absent : SeparatorForm []
  | comma : SeparatorForm [.symbol .comma]
  | semicolon : SeparatorForm [.symbol .semicolon]

/-- An annotation leaves no trace in a node. -/
inductive AnnotationForm : Unit → List Token → Prop
  | intro (key : Name) (value : Literal) {sep : List Token} : SeparatorForm sep →
    AnnotationForm () (.name key :: .symbol .equals :: .literal value :: sep)

inductive AnnotationsForm : List Token → Prop
  | absent : AnnotationsForm []
  | present {units : List Unit} {ts : List Token} : Each AnnotationForm units ts →
    AnnotationsForm (.symbol .openParen :: (ts ++ [.symbol .closeParen]))

/-! ## Types, constants and definitions -/

/-- The name of a type of another language, which leaves no trace either. -/
inductive ForeignForm : List Token → Prop
  | absent : ForeignForm []
  | present (l : Literal) : ForeignForm [.keyword .foreign, .literal l]

inductive TypeForm : Ty → List Token → Prop
  | prim {p : Primitive} {n : Name} {ann : List Token} : Primitive.ofKeyword? n.text = some p →
    AnnotationsForm ann → TypeForm (.prim p) (.name n :: ann)
  | named {n : Name} {ann : List Token} : Primitive.ofKeyword? n.text = none →
    AnnotationsForm ann → TypeForm (.named n.text) (.name n :: ann)
  | list {elem : Ty} {es foreign ann : List Token} : TypeForm elem es → ForeignForm foreign →
    AnnotationsForm ann → TypeForm (.list elem)
      (.keyword .list :: .symbol .less :: (es ++ .symbol .greater :: (foreign ++ ann)))
  | set {elem : Ty} {es foreign ann : List Token} : ForeignForm foreign → TypeForm elem es →
    AnnotationsForm ann → TypeForm (.set elem)
      (.keyword .set :: (foreign ++ .symbol .less :: (es ++ .symbol .greater :: ann)))
  | map {key value : Ty} {ks vs foreign ann : List Token} : ForeignForm foreign →
    TypeForm key ks → TypeForm value vs → AnnotationsForm ann → TypeForm (.map key value)
      (.keyword .map :: (foreign ++ .symbol .less ::
        (ks ++ .symbol .comma :: (vs ++ .symbol .greater :: ann))))

mutual

inductive ConstForm : Const → List Token → Prop
  | int (n : Numeral) : ConstForm (.int n.value) [.numeral n]
  | string (l : Literal) : ConstForm (.string (String.ofList l.value)) [.literal l]
  | identifier (n : Name) : ConstForm (.identifier n.text) [.name n]
  | list {items : List Const} {ts : List Token} : ItemsForm items ts →
    ConstForm (.list items) (.symbol .openBracket :: (ts ++ [.symbol .closeBracket]))
  | map {entries : List (Const × Const)} {ts : List Token} : EntriesForm entries ts →
    ConstForm (.map entries) (.symbol .openBrace :: (ts ++ [.symbol .closeBrace]))

inductive ItemsForm : List Const → List Token → Prop
  | nil : ItemsForm [] []
  | cons {v : Const} {vs : List Const} {us sep ts : List Token} : ConstForm v us →
    SeparatorForm sep → ItemsForm vs ts → ItemsForm (v :: vs) (us ++ sep ++ ts)

inductive EntriesForm : List (Const × Const) → List Token → Prop
  | nil : EntriesForm [] []
  | cons {k v : Const} {es : List (Const × Const)} {ks us sep ts : List Token} :
    ConstForm k ks → ConstForm v us → SeparatorForm sep → EntriesForm es ts →
    EntriesForm ((k, v) :: es) (ks ++ .symbol .colon :: (us ++ sep) ++ ts)

end

inductive IndexForm : Int64 → List Token → Prop
  | intro (n : Numeral) : IndexForm n.value [.numeral n, .symbol .colon]

inductive RequirednessForm : Requiredness → List Token → Prop
  | required : RequirednessForm .required [.keyword .required]
  | optional : RequirednessForm .optional [.keyword .optional]

inductive DefaultForm : Const → List Token → Prop
  | intro {v : Const} {ts : List Token} : ConstForm v ts → DefaultForm v (.symbol .equals :: ts)

inductive FieldForm : Field → List Token → Prop
  | intro {index : Option Int64} {requiredness : Option Requiredness} {type : Ty} {n : Name}
    {default : Option Const} {is rs ts ds ann sep : List Token} : Maybe IndexForm index is →
    Maybe RequirednessForm requiredness rs → TypeForm type ts → Maybe DefaultForm default ds →
    AnnotationsForm ann → SeparatorForm sep →
    FieldForm ⟨index, requiredness, type, n.text, default⟩
      (is ++ (rs ++ (ts ++ .name n :: (ds ++ (ann ++ sep)))))

inductive OnewayForm : Bool → List Token → Prop
  | twoway : OnewayForm false []
  | oneway : OnewayForm true [.keyword .oneway]
  | async : OnewayForm true [.keyword .async]

inductive ReturnForm : Option Ty → List Token → Prop
  | void : ReturnForm none [.keyword .void]
  | type {t : Ty} {ts : List Token} : TypeForm t ts → ReturnForm (some t) ts

inductive ThrowsForm : List Field → List Token → Prop
  | absent : ThrowsForm [] []
  | present {fields : List Field} {ts : List Token} : Each FieldForm fields ts →
    ThrowsForm fields
      (.keyword .throws :: .symbol .openParen :: (ts ++ [.symbol .closeParen]))

inductive FunctionForm : Function → List Token → Prop
  | intro {oneway : Bool} {returns : Option Ty} {n : Name} {arguments throws : List Field}
    {os rs args ths ann sep : List Token} : OnewayForm oneway os → ReturnForm returns rs →
    Each FieldForm arguments args → ThrowsForm throws ths → AnnotationsForm ann →
    SeparatorForm sep →
    FunctionForm ⟨n.text, returns, arguments, throws, oneway⟩
      (os ++ (rs ++ .name n :: .symbol .openParen :: (args ++ .symbol .closeParen ::
        (ths ++ (ann ++ sep)))))

inductive CodeForm : Int64 → List Token → Prop
  | intro (n : Numeral) : CodeForm n.value [.symbol .equals, .numeral n]

inductive MemberForm : EnumMember → List Token → Prop
  | intro {n : Name} {value : Option Int64} {vs ann sep : List Token} : Maybe CodeForm value vs →
    AnnotationsForm ann → SeparatorForm sep →
    MemberForm ⟨n.text, value⟩ (.name n :: (vs ++ (ann ++ sep)))

inductive TextForm : String → List Token → Prop
  | intro (l : Literal) {sep : List Token} : SeparatorForm sep →
    TextForm (String.ofList l.value) (.literal l :: sep)

inductive LanguageForm : Option String → List Token → Prop
  | all : LanguageForm none [.symbol .star]
  | one (n : Name) : LanguageForm (some n.text) [.name n]

inductive ParentForm : String → List Token → Prop
  | intro (n : Name) : ParentForm n.text [.keyword .parent, .name n]

/-- The word before the name of a struct, and what may stand behind it. -/
inductive KindForm : StructKind → Keyword → Prop
  | struct : KindForm .struct .struct
  | union : KindForm .union .union

inductive EverythingForm : List Token → Prop
  | absent : EverythingForm []
  | present : EverythingForm [.keyword .everything]

inductive NodeForm : Node → List Token → Prop
  | inclusion (l : Literal) :
    NodeForm (.inclusion (String.ofList l.value)) [.keyword .inclusion, .literal l]
  | scope {lang : Option String} {ls : List Token} (n : Name) : LanguageForm lang ls →
    NodeForm (.scope lang n.text) (.keyword .scope :: (ls ++ [.name n]))
  | constant {type : Ty} {value : Const} {ts vs sep : List Token} (n : Name) : TypeForm type ts →
    ConstForm value vs → SeparatorForm sep →
    NodeForm (.constant n.text type value)
      (.keyword .constant :: (ts ++ .name n :: .symbol .equals :: (vs ++ sep)))
  | typedef {target : Ty} {ts ann sep : List Token} (n : Name) : TypeForm target ts →
    AnnotationsForm ann → SeparatorForm sep →
    NodeForm (.typedef n.text target) (.keyword .typedef :: (ts ++ .name n :: (ann ++ sep)))
  | enum {members : List EnumMember} {ms ann : List Token} (n : Name) :
    Each MemberForm members ms → AnnotationsForm ann →
    NodeForm (.enum n.text members) (.keyword .enum :: .name n :: .symbol .openBrace ::
      (ms ++ .symbol .closeBrace :: ann))
  | senum {values : List String} {vs : List Token} (n : Name) : Each TextForm values vs →
    NodeForm (.senum n.text values) (.keyword .senum :: .name n :: .symbol .openBrace ::
      (vs ++ [.symbol .closeBrace]))
  | struct {kind : StructKind} {k : Keyword} {fields : List Field} {es fs ann : List Token}
    (n : Name) : KindForm kind k → EverythingForm es → Each FieldForm fields fs →
    AnnotationsForm ann →
    NodeForm (.struct kind n.text fields) (.keyword k :: .name n :: (es ++ .symbol .openBrace ::
      (fs ++ .symbol .closeBrace :: ann)))
  | exception {fields : List Field} {fs ann : List Token} (n : Name) : Each FieldForm fields fs →
    AnnotationsForm ann →
    NodeForm (.exception n.text fields) (.keyword .exception :: .name n :: .symbol .openBrace ::
      (fs ++ .symbol .closeBrace :: ann))
  | service {parent : Option String} {functions : List Function} {ps fs ann : List Token}
    (n : Name) : Maybe ParentForm parent ps → Each FunctionForm functions fs →
    AnnotationsForm ann →
    NodeForm (.service n.text parent functions) (.keyword .service :: .name n ::
      (ps ++ .symbol .openBrace :: (fs ++ .symbol .closeBrace :: ann)))

/-- The text is a way to write the nodes. It need not start with a gap. -/
def Written (nodes : List Node) (text : List Char) : Prop :=
  ∃ ts, Each NodeForm nodes ts ∧ Laid ts (' ' :: text)

end ThriftRpc.Idl.Grammar
