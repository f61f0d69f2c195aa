import SparsePattern.Image.LittleEndian

/-!
# Sinks of bytes

A sink takes bytes in pieces, and may fail when it is full.  `Sink.put` offers it a whole stretch.
-/

namespace SparsePattern

/-- A stream to write to. -/
structure Sink where
  /-- The bytes taken so far. -/
  taken : Bytes := []
  /-- The most bytes of the next piece, by how many were taken; never less than one. -/
  grain : Nat → Nat := fun _ => 0
  /-- How many bytes it takes in all. -/
  capacity : Option Nat := none
  /-- What is said when it is full. -/
  reason : String := ""

namespace Sink

/-- How many bytes it still takes out of `offered`. -/
def room (s : Sink) (offered : Nat) : Nat :=
  match s.capacity with
  | none => offered
  | some capacity => min offered (capacity - s.taken.length)

/-- The length of the piece that is taken when `offered` bytes are offered. -/
def pieceSize (s : Sink) (offered : Nat) : Nat :=
  min (s.room offered) (max 1 (s.grain s.taken.length))

/-- Writes all bytes, or as many as fit and what the sink said when it was full. -/
def put (s : Sink) : Bytes → Sink × Option String
  | [] => (s, none)
  | b :: bytes =>
    let n := s.pieceSize (bytes.length + 1)
    if n = 0 then (s, some s.reason)
    else put { s with taken := s.taken ++ (b :: bytes).take n } ((b :: bytes).drop n)
termination_by bytes => bytes.length
decreasing_by
  simp only [List.length_drop, List.length_cons]
  omega

end Sink

end SparsePattern
