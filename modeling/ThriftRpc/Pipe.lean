import ThriftRpc.Wire.Fault

/-!
# Pipes

Two ends joined in both directions. Written bytes stay pending until they are flushed, and reach
the other end as one chunk. A read takes at most the rest of one chunk; it ends the stream only
when the other end was dropped and everything flushed has been read.
-/

namespace ThriftRpc

namespace Pipe

inductive End where
  | left
  | right
  deriving DecidableEq, Repr

def End.other : End → End
  | left => right
  | right => left

/-- What one end holds. -/
structure Side where
  /-- Written at this end and not flushed. -/
  pending : List UInt8 := []
  /-- The rest of the chunk that is being read at this end. -/
  current : List UInt8 := []
  /-- Chunks on their way to this end, the oldest first. -/
  arriving : List (List UInt8) := []
  dropped : Bool := false

end Pipe

structure Pipe where
  left : Pipe.Side := {}
  right : Pipe.Side := {}

namespace Pipe

def side (p : Pipe) : End → Side
  | .left => p.left
  | .right => p.right

def setSide (p : Pipe) (e : End) (s : Side) : Pipe :=
  match e with
  | .left => { p with left := s }
  | .right => { p with right := s }

def write (p : Pipe) (e : End) (bytes : List UInt8) : Pipe :=
  let s := p.side e
  p.setSide e { s with pending := s.pending ++ bytes }

/-- Hands what is pending to the other end; it is lost if that end was dropped. -/
def flush (p : Pipe) (e : End) : Except Wire.StreamFault Unit × Pipe :=
  let s := p.side e
  if s.pending = [] then (.ok (), p)
  else
    let emptied := p.setSide e { s with pending := [] }
    let peer := p.side e.other
    if peer.dropped then (.error .peerGone, emptied)
    else (.ok (), emptied.setSide e.other { peer with arriving := peer.arriving ++ [s.pending] })

inductive ReadResult where
  | bytes (taken : List UInt8)
  /-- Nothing has arrived, and the other end may still send. -/
  | blocked

/-- Reads at most `n` bytes. No bytes, when some were asked for, mean the end of the stream. -/
def read (p : Pipe) (e : End) (n : Nat) : ReadResult × Pipe :=
  let s := p.side e
  if n = 0 then (.bytes [], p)
  else if s.current ≠ [] then
    (.bytes (s.current.take n), p.setSide e { s with current := s.current.drop n })
  else
    match s.arriving with
    | chunk :: chunks =>
      (.bytes (chunk.take n), p.setSide e { s with current := chunk.drop n, arriving := chunks })
    | [] => if (p.side e.other).dropped then (.bytes [], p) else (.blocked, p)

def drop (p : Pipe) (e : End) : Pipe := p.setSide e { p.side e with dropped := true }

end Pipe

end ThriftRpc
