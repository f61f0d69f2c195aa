import Mathlib.Data.Finset.Card
import Mathlib.Data.List.Destutter
import SparsePattern.Distinct

/-!
# What the compaction keeps

Compaction in place keeps what dropping repeated neighbours from the list keeps (`take_compact`): of
an ascending vector the distinct values, in order (`compact_distinct`), and looking up every
position on the way finds none outside the vector (`compact?_eq`).  `Distinct.sorted` strictly
ascends (`pairwise_sorted`) and holds the given values (`mem_sorted`).  No other list does
(`eq_of_pairwise_lt`).
-/

namespace SparsePattern.Distinct

/-! ### The loop -/

private theorem take_pred_append {α : Type} {values : List α} {kept : Nat} (pos : 0 < kept)
    (h : kept - 1 < values.length) :
    values.take kept = values.take (kept - 1) ++ [values[kept - 1]] := by
  have hsucc := List.take_succ_eq_append_getElem h
  rwa [Nat.sub_add_cancel pos] at hsucc

/-- The loop leaves the values it keeps in front and goes on with what lies ahead of both
positions. -/
private theorem compactFrom_eq {n : Nat} (v : Vector UInt32 n) (k kept : Nat) (pos : 0 < kept)
    (le : kept ≤ k) (hk : k ≤ n) (hlast : kept - 1 < n) :
    (compactFrom v k kept pos le).1.toList.take (compactFrom v k kept pos le).2 =
      v.toList.take (kept - 1) ++ (v.toList.drop k).destutter' (· ≠ ·) v[kept - 1] := by
  fun_induction compactFrom v k kept pos le with
  | case1 v k kept pos le hlt hne ih =>
    have hdrop : v.toList.drop k = v[k] :: v.toList.drop (k + 1) := by
      rw [List.drop_eq_getElem_cons (by simpa using hlt), Vector.getElem_toList]
    have htake : v.toList.take kept = v.toList.take (kept - 1) ++ [v[kept - 1]] := by
      rw [take_pred_append pos (by simp; omega), Vector.getElem_toList]
    -- the write lands behind all that is kept and before all that is still to be read
    have hkept : (v.set kept v[k]).toList.take kept = v.toList.take kept := by
      rw [Vector.toList_set, List.take_set_of_le (Nat.le_refl kept)]
    have hahead : (v.set kept v[k]).toList.drop (k + 1) = v.toList.drop (k + 1) := by
      rw [Vector.toList_set, List.drop_set_of_lt (by omega)]
    have hwritten : (v.set kept v[k])[kept] = v[k] := Vector.getElem_set_self ..
    rw [ih (by omega) (by omega), hdrop, List.destutter'_cons_pos _ (Ne.symm hne)]
    simp only [Nat.add_sub_cancel, hkept, hahead, hwritten, htake, List.append_assoc,
      List.cons_append, List.nil_append]
  | case2 v k kept pos le hlt heq ih =>
    have hdrop : v.toList.drop k = v[k] :: v.toList.drop (k + 1) := by
      rw [List.drop_eq_getElem_cons (by simpa using hlt), Vector.getElem_toList]
    rw [ih (by omega) hlast, hdrop, List.destutter'_cons_neg _ fun hne => heq hne.symm]
  | case3 v k kept pos le hge =>
    rw [List.drop_of_length_le (by simp; omega), List.destutter'_nil,
      take_pred_append pos (by simp; omega), Vector.getElem_toList]

/-- What is kept in front is the list without repeated neighbours. -/
theorem take_compact {n : Nat} (v : Vector UInt32 n) :
    (compact v).1.toList.take (compact v).2 = v.toList.destutter (· ≠ ·) := by
  rw [compact]
  by_cases hn : n = 0
  · subst hn
    have hnil : v.toList = [] := List.eq_nil_of_length_eq_zero v.length_toList
    simp [hnil]
  · have hcons : v.toList = v[0] :: v.toList.drop 1 := by
      rw [← Vector.getElem_toList (by simp; omega), ← List.drop_eq_getElem_cons, List.drop_zero]
    rw [if_neg hn, compactFrom_eq v 1 1 (by omega) (by omega) (by omega) (by omega)]
    conv_rhs => rw [hcons, List.destutter_cons']
    simp

/-! ### Sorted values -/

private theorem mem_destutter'_ne {α : Type} [DecidableEq α] {a c : α} {values : List α} :
    c ∈ values.destutter' (· ≠ ·) a ↔ c ∈ a :: values := by
  induction values generalizing a with
  | nil => rfl
  | cons b values ih =>
    by_cases hab : a = b
    · subst hab
      rw [List.destutter'_cons_neg _ (by simp), ih]
      simp
    · rw [List.destutter'_cons_pos _ hab, List.mem_cons, List.mem_cons (b := a)]
      exact or_congr_right ih

private theorem sorted_eq_destutter (values : List UInt32) :
    sorted values = values.mergeSort.destutter (· ≠ ·) := by
  rw [sorted]
  exact take_compact _

/-- Sorting and compaction lose no value and add none. -/
theorem mem_sorted {values : List UInt32} {c : UInt32} : c ∈ sorted values ↔ c ∈ values := by
  have hmem : c ∈ values.mergeSort ↔ c ∈ values := List.mem_mergeSort
  rw [sorted_eq_destutter, ← hmem]
  cases values.mergeSort with
  | nil => exact Iff.rfl
  | cons a rest => exact mem_destutter'_ne

theorem pairwise_mergeSort (values : List UInt32) : values.mergeSort.Pairwise (· ≤ ·) := by
  have htrans : ∀ a b c : UInt32, decide (a ≤ b) = true → decide (b ≤ c) = true →
      decide (a ≤ c) = true := by
    intro a b c hab hbc
    exact decide_eq_true (UInt32.le_trans (of_decide_eq_true hab) (of_decide_eq_true hbc))
  have htotal : ∀ a b : UInt32, (decide (a ≤ b) || decide (b ≤ a)) = true := by
    intro a b
    rcases UInt32.le_total a b with h | h <;> simp [h]
  exact (List.pairwise_mergeSort htrans htotal values).imp of_decide_eq_true

private theorem pairwise_lt_of_isChain_ne {values : List UInt32} (hle : values.Pairwise (· ≤ ·))
    (hne : values.IsChain (· ≠ ·)) : values.Pairwise (· < ·) := by
  induction values with
  | nil => exact .nil
  | cons a rest ih =>
    cases rest with
    | nil => exact List.pairwise_singleton ..
    | cons b rest =>
      obtain ⟨hab, hne⟩ := List.isChain_cons_cons.1 hne
      obtain ⟨ha, hle⟩ := List.pairwise_cons.1 hle
      have hlt : a < b := UInt32.lt_of_le_of_ne (ha b List.mem_cons_self) hab
      have hrest := ih hle hne
      refine List.pairwise_cons.2 ⟨fun c hc => ?_, hrest⟩
      rcases List.mem_cons.1 hc with rfl | hc
      · exact hlt
      · exact UInt32.lt_trans hlt ((List.pairwise_cons.1 hrest).1 c hc)

/-- What is sorted and compacted ascends strictly. -/
theorem pairwise_sorted (values : List UInt32) : (sorted values).Pairwise (· < ·) := by
  rw [sorted_eq_destutter]
  exact pairwise_lt_of_isChain_ne ((pairwise_mergeSort values).sublist (List.destutter_sublist _ _))
    (List.isChain_destutter _ _)

/-- A strictly ascending list is determined by its members. -/
theorem eq_of_pairwise_lt {values values' : List UInt32} (h : values.Pairwise (· < ·))
    (h' : values'.Pairwise (· < ·)) (hmem : ∀ c, c ∈ values ↔ c ∈ values') : values = values' := by
  have hperm : values.Perm values' :=
    (List.perm_ext_iff_of_nodup (h.imp UInt32.ne_of_lt) (h'.imp UInt32.ne_of_lt)).2 hmem
  refine hperm.eq_of_pairwise ?_ h h'
  intro a b _ _ hab hba
  exact absurd (UInt32.lt_trans hab hba) (UInt32.lt_irrefl a)

/-! ### Positions -/

/-- One step of the loop on an array of any size, where each position is looked up: nothing if one
lies outside. -/
def step? (state : Array UInt32 × Nat) (k : Nat) : Option (Array UInt32 × Nat) := do
  let (a, kept) := state
  let value ← a[k]?
  let last ← if 0 < kept then a[kept - 1]? else none
  if value = last then return (a, kept)
  else if h : kept < a.size then return (a.set kept value, kept + 1)
  else none

/-- The compaction with each position looked up. -/
def compact? (a : Array UInt32) : Option (Array UInt32 × Nat) :=
  if a.size = 0 then some (a, 0) else (List.range' 1 (a.size - 1)).foldlM step? (a, 1)

variable {n : Nat}

private theorem step?_of_eq (v : Vector UInt32 n) {k kept : Nat} (pos : 0 < kept) (hk : k < n)
    (hlast : kept - 1 < n) (heq : v[k] = v[kept - 1]) :
    step? (v.toArray, kept) k = some (v.toArray, kept) := by
  simp only [step?, Vector.getElem?_toArray, Vector.getElem?_eq_getElem hk,
    Vector.getElem?_eq_getElem hlast, if_pos pos, heq, Option.bind_eq_bind, Option.bind_some,
    if_true]
  rfl

private theorem step?_of_ne (v : Vector UInt32 n) {k kept : Nat} (pos : 0 < kept) (hk : k < n)
    (hlast : kept - 1 < n) (hkept : kept < n) (hne : v[k] ≠ v[kept - 1]) :
    step? (v.toArray, kept) k = some ((v.set kept v[k]).toArray, kept + 1) := by
  have hwrite : kept < v.toArray.size := by rwa [Vector.size_toArray]
  simp only [step?, Vector.getElem?_toArray, Vector.getElem?_eq_getElem hk,
    Vector.getElem?_eq_getElem hlast, if_pos pos, if_neg hne, dif_pos hwrite, Option.bind_eq_bind,
    Option.bind_some]
  rfl

/-- The position that is written stays behind the one that is read, so that neither leaves the
vector. -/
private theorem foldlM_step?_eq (v : Vector UInt32 n) (k kept : Nat) (pos : 0 < kept)
    (le : kept ≤ k) :
    (List.range' k (n - k)).foldlM step? (v.toArray, kept) =
      some ((compactFrom v k kept pos le).1.toArray, (compactFrom v k kept pos le).2) := by
  fun_induction compactFrom v k kept pos le with
  | case1 v k kept pos le hlt hne ih =>
    have hcount : n - k = n - (k + 1) + 1 := by omega
    rw [hcount, List.range'_succ, List.foldlM_cons, step?_of_ne v pos hlt (by omega) (by omega) hne]
    exact ih
  | case2 v k kept pos le hlt heq ih =>
    have hcount : n - k = n - (k + 1) + 1 := by omega
    rw [hcount, List.range'_succ, List.foldlM_cons,
      step?_of_eq v pos hlt (by omega) (Decidable.of_not_not heq)]
    exact ih
  | case3 v k kept pos le hge =>
    rw [Nat.sub_eq_zero_of_le (Nat.le_of_not_lt hge)]
    rfl

/-- Looking every position up changes nothing: none lies outside the vector. -/
theorem compact?_eq (v : Vector UInt32 n) :
    compact? v.toArray = some ((compact v).1.toArray, (compact v).2) := by
  rw [compact?, compact, Vector.size_toArray]
  by_cases hn : n = 0
  · rw [if_pos hn, if_pos hn]
  · rw [if_neg hn, if_neg hn]
    exact foldlM_step?_eq v 1 1 (by omega) (by omega)

/-! ### Ascending vectors -/

private theorem compactFrom_le (v : Vector UInt32 n) (k kept : Nat) (pos : 0 < kept) (le : kept ≤ k)
    (hk : k ≤ n) : (compactFrom v k kept pos le).2 ≤ n := by
  fun_induction compactFrom v k kept pos le with
  | case1 v k kept pos le hlt hne ih => exact ih hlt
  | case2 v k kept pos le hlt heq ih => exact ih hlt
  | case3 v k kept pos le hge => exact Nat.le_trans le hk

private theorem compact_le (v : Vector UInt32 n) : (compact v).2 ≤ n := by
  rw [compact]
  split
  · exact Nat.zero_le n
  · exact compactFrom_le v 1 1 (by omega) (by omega) (by omega)

private theorem take_compact_of_ascending (v : Vector UInt32 n) (h : v.toList.Pairwise (· ≤ ·)) :
    (compact v).1.toList.take (compact v).2 = v.toList.dedup := by
  rw [take_compact, h.destutter_eq_dedup]

/-- Compaction counts the distinct values of an ascending vector and leaves each of them once in
front, in ascending order; the vector stays as long as it was, and every position that is looked up
on the way is one of its own. -/
theorem compact_distinct (v : Vector UInt32 n) (h : v.toList.Pairwise (· ≤ ·)) :
    ∃ (w : Vector UInt32 n) (kept : Nat),
      compact v = (w, kept) ∧ compact? v.toArray = some (w.toArray, kept) ∧
      w.toArray.size = v.toArray.size ∧ kept ≤ w.toArray.size ∧ kept = v.toList.toFinset.card ∧
      (w.toList.take kept).Pairwise (· < ·) ∧ ∀ c, c ∈ w.toList.take kept ↔ c ∈ v.toList := by
  have hkept := take_compact_of_ascending v h
  have hlength : (compact v).2 = v.toList.dedup.length := by
    rw [← hkept, List.length_take, Vector.length_toList, Nat.min_eq_left (compact_le v)]
  refine ⟨(compact v).1, (compact v).2, rfl, compact?_eq v, ?size, ?bound, ?count, ?ascending,
    ?values⟩
  case size => rw [Vector.size_toArray, Vector.size_toArray]
  case bound =>
    rw [Vector.size_toArray]
    exact compact_le v
  case count => rw [List.card_toFinset, hlength]
  case ascending =>
    rw [take_compact]
    exact pairwise_lt_of_isChain_ne (h.sublist (List.destutter_sublist _ _))
      (List.isChain_destutter _ _)
  case values =>
    intro c
    rw [hkept, List.mem_dedup]

/-- Runs at both ends and a value on its own between them. -/
def runs : Vector UInt32 6 := #v[3, 3, 5, 9, 9, 9]

theorem compact_distinct_runs :
    runs.toList.Pairwise (· ≤ ·) ∧
      ∃ w : Vector UInt32 6, compact runs = (w, 3) ∧ compact? runs.toArray = some (w.toArray, 3) ∧
        w.toList.take 3 = [3, 5, 9] := by
  have hascending : runs.toList.Pairwise (· ≤ ·) := by decide
  obtain ⟨w, kept, hcompact, hchecked, -, -, hcount, hlt, hvalues⟩ :=
    compact_distinct runs hascending
  obtain rfl : kept = 3 := hcount
  have hsame : ∀ c, c ∈ w.toList.take 3 ↔ c ∈ [3, 5, 9] := by
    intro c
    rw [hvalues, ← List.mem_dedup]
    rfl
  exact ⟨hascending, w, hcompact, hchecked, eq_of_pairwise_lt hlt (by decide) hsame⟩

end SparsePattern.Distinct
