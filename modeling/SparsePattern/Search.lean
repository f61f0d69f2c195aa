/-!
# Bisection

Search for a value in an ascending array by halving.  `Search.find?` is exact on strictly increasing
arrays, and what it finds is always there (`getElem?_of_find?`).
-/

namespace SparsePattern.Search

/-- Narrows the `size` positions from `base` down to one: the last that holds at most `x`, or
`base`. -/
def narrow (a : Array UInt32) (x : UInt32) (base size : Nat) : Nat :=
  if 1 < size then
    let mid := base + size / 2
    narrow a x (if x < a.getD mid 0 then base else mid) (size - size / 2)
  else base
termination_by size

/-- The position of `x` in the ascending array `a`. -/
def find? (a : Array UInt32) (x : UInt32) : Option Nat :=
  let k := narrow a x 0 a.size
  if a[k]? = some x then some k else none

/-- What is found is there, in any array. -/
theorem getElem?_of_find? {a : Array UInt32} {x : UInt32} {k : Nat} (h : find? a x = some k) :
    a[k]? = some x := by
  simp only [find?] at h
  split at h
  · rename_i hk
    rwa [← Option.some.inj h]
  · simp at h

end SparsePattern.Search
