import Mathlib.Data.Finset.Card
import SparsePattern.Proofs.Draft.Growth

/-!
# The entries of a draft

What insertions do to the set of recorded entries: they reach the entries that they are meant to
reach, or stop at a row that has no slot for one of them (`Progress.Outcome`).  Which of the two
happens depends only on the number of entries in each row and the slots reserved for it
(`Progress.Outcome.failure_eq_none_iff`).
-/

namespace SparsePattern.Draft

variable {d e : Draft} {row col : Nat}

/-! ### Recorded entries -/

/-- A draft contains what its rows record. -/
theorem contains_iff :
    d.contains row col = true ↔ row < d.nRows ∧ ∃ c ∈ d.recorded row, c.toNat = col := by
  simp [contains]

/-- A row records the columns at which the draft contains an entry. -/
theorem mem_recorded_iff (hrow : row < d.nRows) {c : UInt32} :
    c ∈ d.recorded row ↔ d.contains row c.toNat = true := by
  rw [contains_iff, and_iff_right hrow]
  constructor
  · intro hc
    exact ⟨c, hc, rfl⟩
  · rintro ⟨b, hb, heq⟩
    rwa [UInt32.toNat_inj.1 heq] at hb

theorem contains_iff_mem (h : d.WellFormed) (hrow : row < d.nRows) (hcol : col < d.nCols) :
    d.contains row col = true ↔ col.toUInt32 ∈ d.recorded row := by
  have hnat : col.toUInt32.toNat = col := toNat_toUInt32 (Nat.lt_trans hcol h.nCols_lt)
  rw [mem_recorded_iff hrow, hnat]

/-- Entries are within the shape. -/
theorem lt_of_contains (h : d.WellFormed) (hc : d.contains row col = true) :
    row < d.nRows ∧ col < d.nCols := by
  obtain ⟨hrow, c, hmem, rfl⟩ := contains_iff.1 hc
  exact ⟨hrow, (h.windows row hrow).column_lt c hmem⟩

/-- Drafts of as many rows contain the same everywhere if they do in these rows. -/
theorem contains_congr (hrows : e.nRows = d.nRows)
    (hsame : ∀ r < d.nRows, ∀ c, e.contains r c = true ↔ d.contains r c = true) (r c : Nat) :
    e.contains r c = d.contains r c := by
  rw [Bool.eq_iff_iff]
  by_cases hr : r < d.nRows
  · exact hsame r hr c
  · -- neither draft has such a row
    rw [contains_iff, contains_iff, hrows]
    simp only [hr, false_and]

/-- The columns of the entries in `row`. -/
def entrySet (d : Draft) (row : Nat) : Finset Nat := ((d.recorded row).map UInt32.toNat).toFinset

theorem mem_entrySet (hrow : row < d.nRows) : col ∈ d.entrySet row ↔ d.contains row col = true := by
  rw [entrySet, List.mem_toFinset, List.mem_map, contains_iff, and_iff_right hrow]

/-- A row records no column twice. -/
theorem card_entrySet (h : d.WellFormed) (hrow : row < d.nRows) :
    (d.entrySet row).card = (d.recorded row).length := by
  have hnodup : ((d.recorded row).map UInt32.toNat).Nodup :=
    (h.windows row hrow).nodup.map fun _ _ => UInt32.toNat_inj.1
  rw [entrySet, List.toFinset_card_of_nodup hnodup, List.length_map]

/-- A row has no more entries than slots. -/
theorem card_le_capacity (h : d.WellFormed) (hrow : row < d.nRows) {S : Finset Nat}
    (hS : ∀ c ∈ S, d.contains row c = true) : S.card ≤ d.capacity row := by
  have hsub : S ⊆ d.entrySet row := by
    intro c hc
    exact (mem_entrySet hrow).2 (hS c hc)
  calc
    S.card ≤ (d.entrySet row).card := Finset.card_le_card hsub
    _ = (d.recorded row).length := card_entrySet h hrow
    _ ≤ d.capacity row := length_recorded_le h hrow

/-- An entry stays when the draft grows. -/
theorem Grows.contains (hg : d.Grows e) (h : d.WellFormed) (hc : d.contains row col = true) :
    e.contains row col = true := by
  obtain ⟨hrow, c, hmem, rfl⟩ := contains_iff.1 hc
  have hrow' : row < e.nRows := by
    rw [hg.sameShape.nRows_eq]
    exact hrow
  exact contains_iff.2 ⟨hrow', c, (hg.recorded_prefix h hrow).subset hmem, rfl⟩

/-! ### Full rows -/

/-- The entry at `row` and `col` is missing, and every slot of `row` is taken. -/
structure Refused (d : Draft) (row col : Nat) : Prop where
  row_lt : row < d.nRows
  not_contains : ¬ d.contains row col = true
  length_eq : (d.recorded row).length = d.capacity row

/-- A row that refuses an entry would have to hold one more than it can. -/
theorem Refused.capacity_lt (h : d.WellFormed) (hr : d.Refused row col) {S : Finset Nat}
    (hS : ∀ c, d.contains row c = true → c ∈ S) (hcol : col ∈ S) : d.capacity row < S.card := by
  have hmissing : col ∉ d.entrySet row := by
    rw [mem_entrySet hr.row_lt]
    exact hr.not_contains
  have hsub : (d.entrySet row).cons col hmissing ⊆ S := by
    intro c hc
    rcases Finset.mem_cons.1 hc with rfl | hc
    · exact hcol
    · exact hS c ((mem_entrySet hr.row_lt).1 hc)
  have hcard := Finset.card_le_card hsub
  rw [Finset.card_cons, card_entrySet h hr.row_lt, hr.length_eq] at hcard
  exact hcard

/-! ### How insertions end -/

/-- How insertions that aim at the entries `W` end: with these entries, or at a full row for which
`W` has one more. -/
inductive Progress.Outcome (p : Progress) (W : Nat → Nat → Prop) : Prop where
  | complete (failure_eq : p.failure = none)
      (contains_iff : ∀ r c, p.draft.contains r c = true ↔ W r c)
  | refused (row col : Nat) (wanted : W row col) (refused : p.draft.Refused row col)
      (failure_eq : p.failure = some (.rowFull row (p.draft.capacity row)))
      (within : ∀ r c, p.draft.contains r c = true → W r c)

namespace Progress.Outcome

variable {p : Progress} {W W' : Nat → Nat → Prop}

/-- An outcome depends on what is aimed at only as a set. -/
theorem congr (hp : p.Outcome W) (h : ∀ r c, W r c ↔ W' r c) : p.Outcome W' := by
  have heq : W = W' := by
    funext r c
    exact propext (h r c)
  rwa [← heq]

/-- Nothing is recorded beyond what is aimed at. -/
theorem within (hp : p.Outcome W) {r c : Nat} (hc : p.draft.contains r c = true) : W r c := by
  cases hp with
  | complete _ hcontains => exact (hcontains r c).1 hc
  | refused _ _ _ _ _ hwithin => exact hwithin r c hc

/-- If nothing fails, exactly what is aimed at is recorded. -/
theorem contains_iff_of_failure_eq_none (hp : p.Outcome W) (hnone : p.failure = none) {r c : Nat} :
    p.draft.contains r c = true ↔ W r c := by
  cases hp with
  | complete _ hcontains => exact hcontains r c
  | refused _ _ _ _ hfailure =>
    rw [hnone] at hfailure
    cases hfailure

/-- Insertions one after another, where the first aim at some of the entries and the others at
all. -/
theorem andThen {next : Draft → Progress} (hp : p.Outcome W) (hsub : ∀ r c, W r c → W' r c)
    (hnext : (∀ r c, p.draft.contains r c = true ↔ W r c) → (next p.draft).Outcome W') :
    (p.andThen next).Outcome W' := by
  cases hp with
  | complete hfailure hcontains =>
    rw [Progress.andThen, hfailure]
    exact hnext hcontains
  | refused row col hwanted hrefused hfailure hwithin =>
    have hstop : p.andThen next = p := by rw [Progress.andThen, hfailure]
    rw [hstop]
    exact .refused row col (hsub _ _ hwanted) hrefused hfailure fun r c hc =>
      hsub r c (hwithin r c hc)

variable {S : Nat → Finset Nat}

/-- A refusal names a row for which there is no room. -/
theorem exists_rowFull (hp : p.Outcome W) (h : d.WellFormed) (hg : d.Grows p.draft)
    (hS : ∀ r < d.nRows, ∀ c, c ∈ S r ↔ W r c) {fault : Fault} (hfault : p.failure = some fault) :
    ∃ r < d.nRows, fault = .rowFull r (d.capacity r) ∧ d.capacity r < (S r).card := by
  have hshape := hg.sameShape
  cases hp with
  | complete hfailure =>
    rw [hfault] at hfailure
    cases hfailure
  | refused row col hwanted hrefused hfailure hwithin =>
    have hrow := hrefused.row_lt
    rw [hshape.nRows_eq] at hrow
    have hsub : ∀ c, p.draft.contains row c = true → c ∈ S row := by
      intro c hc
      exact (hS row hrow c).2 (hwithin row c hc)
    have hlt := hrefused.capacity_lt (hg.wellFormed h) hsub ((hS row hrow col).2 hwanted)
    rw [hfault, hshape.capacity_eq] at hfailure
    rw [hshape.capacity_eq] at hlt
    exact ⟨row, hrow, Option.some.inj hfailure, hlt⟩

/-- Insertions run to their end exactly if every row has room for what they aim at. -/
theorem failure_eq_none_iff (hp : p.Outcome W) (h : d.WellFormed) (hg : d.Grows p.draft)
    (hS : ∀ r < d.nRows, ∀ c, c ∈ S r ↔ W r c) :
    p.failure = none ↔ ∀ r < d.nRows, (S r).card ≤ d.capacity r := by
  have hshape := hg.sameShape
  constructor
  · intro hnone r hr
    have hr' : r < p.draft.nRows := hshape.nRows_eq.symm ▸ hr
    rw [← hshape.capacity_eq]
    refine card_le_capacity (hg.wellFormed h) hr' ?_
    intro c hc
    exact (hp.contains_iff_of_failure_eq_none hnone).2 ((hS r hr c).1 hc)
  · intro hroom
    cases hfailure : p.failure with
    | none => rfl
    | some fault =>
      obtain ⟨r, hr, -, hlt⟩ := hp.exists_rowFull h hg hS hfailure
      exact absurd (hroom r hr) (Nat.not_le_of_lt hlt)

end Progress.Outcome

/-! ### Insertions -/

private theorem contains_place (h : d.WellFormed) {c : UInt32} (hroom : d.Room row c) {r b : Nat} :
    (d.place row c).contains r b = true ↔ d.contains r b = true ∨ (r = row ∧ b = c.toNat) := by
  rw [contains_iff, contains_iff]
  show r < d.nRows ∧ _ ↔ _
  by_cases hr : r = row
  · subst hr
    rw [recorded_place_self h hroom]
    have hlt := hroom.row_lt
    simp only [List.mem_append, List.mem_singleton, or_and_right, exists_or, exists_eq_left, hlt,
      true_and, eq_comm (a := b)]
  · simp only [hr, false_and, or_false]
    refine and_congr_right fun hlt => ?_
    rw [recorded_place_of_ne h hroom hlt hr]

/-- An entry that is there already is inserted without effect, also into a full row. -/
theorem insert_of_contains (h : d.WellFormed) (hc : d.contains row col = true) :
    d.insert row col = { draft := d } := by
  obtain ⟨hrow, hcol⟩ := lt_of_contains h hc
  rw [insert_eq h hrow hcol, if_pos ((contains_iff_mem h hrow hcol).1 hc)]

private theorem insert_outcome (h : d.WellFormed) (hrow : row < d.nRows) (hcol : col < d.nCols) :
    (d.insert row col).Outcome fun r c => d.contains r c = true ∨ (r = row ∧ c = col) := by
  have hnat : col.toUInt32.toNat = col := toNat_toUInt32 (Nat.lt_trans hcol h.nCols_lt)
  have hmem := contains_iff_mem h hrow hcol
  rw [insert_eq h hrow hcol]
  by_cases hpresent : col.toUInt32 ∈ d.recorded row
  · rw [if_pos hpresent]
    refine .complete rfl fun r c => ?_
    constructor
    · exact Or.inl
    · rintro (hc | ⟨rfl, rfl⟩)
      · exact hc
      · exact hmem.2 hpresent
  by_cases hroom : (d.recorded row).length < d.capacity row
  · rw [if_neg hpresent, if_pos hroom]
    refine .complete rfl fun r c => ?_
    show (d.place row col.toUInt32).contains r c = true ↔ _
    rw [contains_place h ⟨hrow, hnat.symm ▸ hcol, hpresent, hroom⟩, hnat]
  · rw [if_neg hpresent, if_neg hroom]
    have hfull : (d.recorded row).length = d.capacity row :=
      Nat.le_antisymm (length_recorded_le h hrow) (Nat.le_of_not_lt hroom)
    exact .refused row col (.inr ⟨rfl, rfl⟩) ⟨hrow, fun hc => hpresent (hmem.1 hc), hfull⟩ rfl
      fun r c => Or.inl

/-- An insertion leaves the other rows as they are. -/
theorem recorded_insert_of_ne (h : d.WellFormed) {r : Nat} (hr : r < d.nRows) (hne : r ≠ row) :
    (d.insert row col).draft.recorded r = d.recorded r := by
  by_cases hrow : d.nRows ≤ row
  · rw [insert, if_pos hrow]
  by_cases hcol : d.nCols ≤ col
  · rw [insert, if_neg hrow, if_pos hcol]
  rw [Nat.not_le] at hrow hcol
  have hnat : col.toUInt32.toNat = col := toNat_toUInt32 (Nat.lt_trans hcol h.nCols_lt)
  rw [insert_eq h hrow hcol]
  split
  · rfl
  · split
    · exact recorded_place_of_ne h ⟨hrow, hnat.symm ▸ hcol, ‹_›, ‹_›⟩ hr hne
    · rfl

/-- Entries that are there already are inserted without effect. -/
theorem insertPairs_of_contains (h : d.WellFormed) {pairs : List (Nat × Nat)}
    (hpairs : ∀ r c, (r, c) ∈ pairs → d.contains r c = true) :
    d.insertPairs pairs = { draft := d } := by
  induction pairs with
  | nil => rfl
  | cons pair pairs ih =>
    obtain ⟨row, col⟩ := pair
    have hrest := ih fun r c hmem => hpairs r c (List.mem_cons_of_mem _ hmem)
    rw [insertPairs, insert_of_contains h (hpairs row col List.mem_cons_self)]
    exact hrest

/-- Insertions within the shape aim at what is there already and what they ask for. -/
theorem insertPairs_outcome (h : d.WellFormed) {pairs : List (Nat × Nat)}
    (hpairs : ∀ r c, (r, c) ∈ pairs → r < d.nRows ∧ c < d.nCols) :
    (d.insertPairs pairs).Outcome fun r c => d.contains r c = true ∨ (r, c) ∈ pairs := by
  induction pairs generalizing d with
  | nil =>
    refine .complete rfl fun r c => ?_
    simp [insertPairs]
  | cons pair pairs ih =>
    obtain ⟨row, col⟩ := pair
    obtain ⟨hrow, hcol⟩ := hpairs row col List.mem_cons_self
    have hgrows := grows_insert h row col
    have hshape := hgrows.sameShape
    refine (insert_outcome h hrow hcol).andThen ?_ ?_
    · rintro r c (hc | ⟨rfl, rfl⟩)
      · exact .inl hc
      · exact .inr List.mem_cons_self
    · intro hcontains
      have hrest := @ih (d.insert row col).draft (hgrows.wellFormed h) fun r c hmem => by
        rw [hshape.nRows_eq, hshape.nCols_eq]
        exact hpairs r c (List.mem_cons_of_mem _ hmem)
      refine hrest.congr fun r c => ?_
      rw [hcontains, List.mem_cons, Prod.mk.injEq, or_assoc]

end SparsePattern.Draft
