/-!
# Distinct values of a sorted row

`Distinct.compact` moves the distinct values of an ascending vector to its front, in place: it reads
at one position and writes at another, which never overtakes it.
-/

namespace SparsePattern.Distinct

/-- Continues the compaction at position `k`, with `kept` values in front so far; returns the vector
and how many values it keeps in front. -/
def compactFrom {n : Nat} (v : Vector UInt32 n) (k kept : Nat) (pos : 0 < kept) (le : kept ≤ k) :
    Vector UInt32 n × Nat :=
  if h : k < n then
    if v[k] ≠ v[kept - 1] then
      compactFrom (v.set kept v[k]) (k + 1) (kept + 1) (by omega) (by omega)
    else compactFrom v (k + 1) kept pos (by omega)
  else (v, kept)
termination_by n - k

/-- Moves the distinct values of an ascending vector to its front; returns the vector and their
number. -/
def compact {n : Nat} (v : Vector UInt32 n) : Vector UInt32 n × Nat :=
  if n = 0 then (v, 0) else compactFrom v 1 1 (by omega) (by omega)

/-- The distinct values of a list in ascending order. -/
def sorted (values : List UInt32) : List UInt32 :=
  let ascending := (values.mergeSort).toArray
  let (v, kept) := compact ascending.toVector
  v.toList.take kept

end SparsePattern.Distinct
