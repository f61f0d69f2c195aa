import SparsePattern.Search

/-!
# Bisection in ascending arrays

On a strictly increasing array `Search.find?` is exact: it finds a value at its one position
(`find?_eq_some_iff`) and misses only what is not there (`find?_eq_none_iff`).  Whatever the array,
what it finds is there, so that a search in an array not yet known to ascend never reports a value
that is missing.
-/

namespace SparsePattern.Search

/-- In a strictly increasing array the values tell the order of the positions. -/
private theorem position_lt {a : Array UInt32} (ha : a.toList.Pairwise (· < ·)) {i j : Nat}
    {x y : UInt32} (hi : a[i]? = some x) (hj : a[j]? = some y) (hxy : x < y) : i < j := by
  obtain ⟨hi', rfl⟩ := Array.getElem?_eq_some_iff.1 hi
  obtain ⟨hj', rfl⟩ := Array.getElem?_eq_some_iff.1 hj
  rw [UInt32.lt_iff_toNat_lt] at hxy
  rcases Nat.lt_trichotomy i j with h | rfl | h
  · exact h
  · omega
  · have hyx := List.pairwise_iff_getElem.1 ha j i (by simpa using hj') (by simpa using hi') h
    rw [Array.getElem_toList, Array.getElem_toList, UInt32.lt_iff_toNat_lt] at hyx
    omega

/-- Narrowing never loses the position of the value. -/
private theorem narrow_eq {a : Array UInt32} (ha : a.toList.Pairwise (· < ·)) {x : UInt32}
    {i base size : Nat} (hi : a[i]? = some x) (hbase : base ≤ i) (hstop : i < base + size)
    (hsize : base + size ≤ a.size) : narrow a x base size = i := by
  fun_induction narrow a x base size with
  | case1 base size hlt mid ih =>
    have hmid : a[mid]? = some (a.getD mid 0) := by
      have : mid < a.size := by omega
      simp [Array.getD_eq_getD_getElem?, this]
    by_cases hx : x < a.getD mid 0
    · have := position_lt ha hi hmid hx
      simp only [hx, ↓reduceIte, ↓reduceDIte] at ih ⊢
      exact ih hbase (by omega) (by omega)
    · -- nothing before the middle is as large as its value, and so as `x`
      have : mid ≤ i := by
        refine Nat.le_of_not_lt fun him => hx ?_
        obtain ⟨hi', rfl⟩ := Array.getElem?_eq_some_iff.1 hi
        obtain ⟨hm', hv⟩ := Array.getElem?_eq_some_iff.1 hmid
        have := List.pairwise_iff_getElem.1 ha i mid (by simpa using hi') (by simpa using hm') him
        simpa [← hv] using this
      simp only [hx, ↓reduceIte, ↓reduceDIte] at ih ⊢
      exact ih this (by omega) (by omega)
  | case2 base size hle => omega

/-- On an ascending array the bisection finds the place of a column. -/
theorem find?_eq_some_iff {a : Array UInt32} (ha : a.toList.Pairwise (· < ·)) {x : UInt32}
    {k : Nat} : find? a x = some k ↔ a[k]? = some x := by
  refine ⟨getElem?_of_find?, fun hk => ?_⟩
  obtain ⟨hlt, -⟩ := Array.getElem?_eq_some_iff.1 hk
  have hn : narrow a x 0 a.size = k := narrow_eq ha hk (by omega) (by omega) (by omega)
  simp only [find?, hn, hk, ↓reduceIte]

/-- A missing value is missed in any array. -/
theorem find?_eq_none_of_not_mem {a : Array UInt32} {x : UInt32} (h : x ∉ a) :
    find? a x = none := by
  cases hf : find? a x with
  | none => rfl
  | some k => exact absurd (Array.mem_of_getElem? (getElem?_of_find? hf)) h

/-- On an ascending array the bisection misses no column. -/
theorem find?_eq_none_iff {a : Array UInt32} (ha : a.toList.Pairwise (· < ·)) {x : UInt32} :
    find? a x = none ↔ x ∉ a := by
  refine ⟨fun h hx => ?_, find?_eq_none_of_not_mem⟩
  obtain ⟨k, hk⟩ := Array.mem_iff_getElem?.1 hx
  rw [(find?_eq_some_iff ha).2 hk] at h
  simp at h

end SparsePattern.Search
