import SparsePattern.Image.LittleEndian

/-!
# Sources of bytes

A source hands out a sequence of bytes in pieces, and may fail on the way.  An empty piece ends it;
as long as there is none, what `Source.collect` gathers does not depend on the sizes of the pieces.
-/

namespace SparsePattern

/-- A stream to read from. -/
structure Source where
  /-- The bytes not yet handed out. -/
  pending : Bytes
  /-- How many bytes were handed out. -/
  given : Nat := 0
  /-- The most bytes of the next piece, by how many were handed out. -/
  grain : Nat → Nat
  /-- How many bytes are handed out before reading fails. -/
  breaksAfter : Option Nat := none
  /-- What is said when it fails. -/
  reason : String := ""

namespace Source

/-- The source after `n` more bytes. -/
def advance (s : Source) (n : Nat) : Source :=
  { s with pending := s.pending.drop n, given := s.given + n }

/-- How many of `wanted` bytes the source would put into one piece. -/
def window (s : Source) (wanted : Nat) : Nat := min wanted (s.grain s.given)

/-- The length of the next piece when up to `wanted` bytes are asked for. -/
def pieceSize (s : Source) (wanted : Nat) : Nat :=
  let piece := min (s.window wanted) s.pending.length
  match s.breaksAfter with
  | none => piece
  | some limit => min piece (limit - s.given)

/-- Whether the next read of at least one byte fails. -/
def isBroken (s : Source) : Bool :=
  match s.breaksAfter with
  | none => false
  | some limit => limit ≤ s.given

/-- What was gathered from a source. -/
structure Haul where
  bytes : Bytes
  source : Source
  /-- What the source said when it failed. -/
  failure : Option String := none

theorem pieceSize_le (s : Source) (wanted : Nat) : s.pieceSize wanted ≤ wanted := by
  simp only [pieceSize, window]
  split <;> omega

/-- Reads up to `wanted` bytes, fewer only where the source ends or fails.  A read of no bytes never
fails. -/
def collect (s : Source) (wanted : Nat) : Haul :=
  if s.window wanted = 0 then { bytes := [], source := s }
  else if s.isBroken then { bytes := [], source := s, failure := some s.reason }
  else
    let n := s.pieceSize wanted
    if n = 0 then { bytes := [], source := s }
    else
      let rest := collect (s.advance n) (wanted - n)
      { rest with bytes := s.pending.take n ++ rest.bytes }
termination_by wanted
decreasing_by
  have := s.pieceSize_le wanted
  omega

end Source

end SparsePattern
