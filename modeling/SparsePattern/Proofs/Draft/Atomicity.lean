import SparsePattern.Proofs.Draft.History
import SparsePattern.Proofs.Draft.Sequences

/-!
# Insertions change one row at its end or nothing

One insertion is refused for its row, for its column or for a full row, in this order, and then
nothing has changed; otherwise its column stands behind the recorded ones of its row, if it was not
among them already, and nothing else has changed (`Draft.Inserts`).  Several insertions in a row
leave what the accepted ones leave, up to the first that is refused (`Session.run_insert_atomic`).
-/

namespace SparsePattern

namespace Draft

variable {d : Draft} {row col : Nat}

/-- Why the entry at `row` and `col` is refused, if it is. -/
def refusal (d : Draft) (row col : Nat) : Option Fault :=
  if d.nRows ≤ row then some (.rowOutOfRange row d.nRows)
  else if d.nCols ≤ col then some (.columnOutOfRange col d.nCols)
  else if d.contains row col = true ∨ (d.recorded row).length < d.capacity row then none
  else some (.rowFull row (d.capacity row))

/-- What inserting the entry at `row` and `col` comes to. -/
structure Inserts (d : Draft) (row col : Nat) (p : Progress) : Prop where
  failure_eq : p.failure = d.refusal row col
  unchanged : p.failure ≠ none ∨ d.contains row col = true → p.draft = d
  appended : p.failure = none → ¬ d.contains row col = true →
    (p.draft.recorded row).map UInt32.toNat = (d.recorded row).map UInt32.toNat ++ [col]
  other_rows : ∀ r < d.nRows, r ≠ row → p.draft.window r = d.window r
  earlier_slots : ∀ k < (d.recorded row).length,
    p.draft.slots[d.start row + k]? = d.slots[d.start row + k]?
  sameShape : d.SameShape p.draft

/-- An insertion that leaves the draft as it is. -/
private theorem Inserts.of_unchanged {failure : Option Fault}
    (hfailure : failure = d.refusal row col)
    (hpresent : failure = none → d.contains row col = true) :
    d.Inserts row col { draft := d, failure } where
  failure_eq := hfailure
  unchanged _ := rfl
  appended hnone hmissing := absurd (hpresent hnone) hmissing
  other_rows _ _ _ := rfl
  earlier_slots _ _ := rfl
  sameShape := .refl d

private theorem inserts_place (h : d.WellFormed) (hcol : col < d.nCols)
    (hroom : d.Room row col.toUInt32) :
    d.Inserts row col { draft := d.place row col.toUInt32 } := by
  have hrow := hroom.row_lt
  have hnat : col.toUInt32.toNat = col := toNat_toUInt32 (Nat.lt_trans hcol h.nCols_lt)
  have hgrows : d.Grows (d.place row col.toUInt32) := .single ⟨row, _, hroom, rfl⟩
  have hmissing : ¬ d.contains row col = true := by
    rw [contains_iff_mem h hrow hcol]
    exact hroom.not_mem
  constructor
  case failure_eq =>
    rw [refusal, if_neg (Nat.not_le_of_lt hrow), if_neg (Nat.not_le_of_lt hcol),
      if_pos (.inr hroom.length_lt)]
  case unchanged =>
    rintro (hfailure | hpresent)
    · exact absurd rfl hfailure
    · exact absurd hpresent hmissing
  case appended =>
    intro _ _
    rw [recorded_place_self h hroom, List.map_append, List.map_singleton, hnat]
  case other_rows => exact fun r hr hne => window_place_of_ne h hroom hr hne
  case earlier_slots =>
    intro k hk
    -- the slots that hold columns keep them
    have hheld := getElem?_slots h hrow (Nat.lt_trans hk hroom.length_lt)
    rw [List.getD_eq_getElem _ _ hk] at hheld
    rw [hheld]
    exact hgrows.getElem?_slots h hheld (ne_free_of_mem_recorded h hrow (List.getElem_mem hk))
  case sameShape => exact hgrows.sameShape

private theorem inserts_insert (h : d.WellFormed) (row col : Nat) :
    d.Inserts row col (d.insert row col) := by
  by_cases hrow : d.nRows ≤ row
  · rw [insert, if_pos hrow]
    refine .of_unchanged (by rw [refusal, if_pos hrow]) fun hnone => ?_
    cases hnone
  by_cases hcol : d.nCols ≤ col
  · rw [insert, if_neg hrow, if_pos hcol]
    refine .of_unchanged (by rw [refusal, if_neg hrow, if_pos hcol]) fun hnone => ?_
    cases hnone
  -- the place is within the dimensions, and what its row holds decides
  have hrefusal : d.refusal row col =
      if d.contains row col = true ∨ (d.recorded row).length < d.capacity row then none
      else some (.rowFull row (d.capacity row)) := by rw [refusal, if_neg hrow, if_neg hcol]
  rw [Nat.not_le] at hrow hcol
  have hmem := contains_iff_mem h hrow hcol
  have hnat : col.toUInt32.toNat = col := toNat_toUInt32 (Nat.lt_trans hcol h.nCols_lt)
  rw [insert_eq h hrow hcol]
  by_cases hpresent : col.toUInt32 ∈ d.recorded row
  · have hcontains := hmem.2 hpresent
    rw [if_pos hpresent]
    exact .of_unchanged (by rw [hrefusal, if_pos (.inl hcontains)]) fun _ => hcontains
  by_cases hroom : (d.recorded row).length < d.capacity row
  · rw [if_neg hpresent, if_pos hroom]
    exact inserts_place h hcol ⟨hrow, hnat.symm ▸ hcol, hpresent, hroom⟩
  · have hneither : ¬ (d.contains row col = true ∨ (d.recorded row).length < d.capacity row) := by
      rw [hmem]
      exact not_or.2 ⟨hpresent, hroom⟩
    rw [if_neg hpresent, if_neg hroom]
    refine .of_unchanged (by rw [hrefusal, if_neg hneither]) fun hnone => ?_
    cases hnone

/-- The columns of a row that is stopped split where it is stopped. -/
private theorem exists_refused_of_failure_insertRow {cols : List Nat} {fault : Fault}
    (h : (d.insertRow row cols).failure = some fault) :
    ∃ front col rest, cols = front ++ col :: rest ∧ d.Admits (front.map (row, ·)) ∧
      ((d.insertAll (front.map (row, ·))).insert row col).failure = some fault ∧
      (d.insertRow row cols).draft = d.insertAll (front.map (row, ·)) := by
  obtain ⟨front, r, col, rest, hsplit, hfront, hrefused, hdraft⟩ := exists_refused_of_failure h
  obtain ⟨front, others, rfl, rfl, hothers⟩ := List.map_eq_append_iff.1 hsplit
  obtain ⟨col', rest, rfl, hpair, -⟩ := List.map_eq_cons_iff.1 hothers
  obtain ⟨rfl, rfl⟩ := Prod.mk.inj hpair
  exact ⟨front, col', rest, rfl, hfront, hrefused, hdraft⟩

end Draft

namespace Session

/-- An insertion into any draft is refused for the reason that its place gives and then changes
nothing, or it adds its column at the end of its row, unless that is recorded already, and leaves
all else as it is.  Several columns of a row are accepted exactly if each is when its turn comes;
otherwise the first that is refused says why, and what is left is the draft after those before
it. -/
theorem run_insert_atomic (calls : List Call) {d : Draft} (hd : d ∈ (run calls).drafts) :
    (∀ row col, d.Inserts row col (d.insert row col)) ∧
    ∀ row cols,
      ((d.insertRow row cols).failure = none ↔ d.Admits (cols.map (row, ·))) ∧
      ((d.insertRow row cols).failure = none →
        (d.insertRow row cols).draft = d.insertAll (cols.map (row, ·))) ∧
      ∀ fault, (d.insertRow row cols).failure = some fault →
        ∃ front col rest, cols = front ++ col :: rest ∧ d.Admits (front.map (row, ·)) ∧
          ((d.insertAll (front.map (row, ·))).insert row col).failure = some fault ∧
          (d.insertRow row cols).draft = d.insertAll (front.map (row, ·)) := by
  have h := wellFormed_of_mem_run hd
  refine ⟨Draft.inserts_insert h, fun row cols => ⟨Draft.failure_insertPairs_eq_none_iff, ?_, ?_⟩⟩
  · intro hnone
    rw [Draft.insertRow,
      Draft.insertPairs_of_admits (Draft.failure_insertPairs_eq_none_iff.1 hnone)]
  · exact fun fault => Draft.exists_refused_of_failure_insertRow

/-- One row is filled, the other one begun. -/
def begun : List Call := [.uniform 2 3 2 {}, .insertRow 0 0 [2, 0], .insert 0 1 1]

/-- A full row, and a row with a slot to spare. -/
def halfFull : Draft := ⟨2, 3, #[0, 2, 4], #[2, 0, 1, Draft.free], false⟩

theorem run_insert_atomic_halfFull :
    (run begun).drafts = [halfFull] ∧
      ((halfFull.insert 0 1).failure = some (.rowFull 0 2) ∧
        (halfFull.insert 0 1).draft = halfFull) ∧
      ((halfFull.insert 0 2).failure = none ∧ (halfFull.insert 0 2).draft = halfFull) ∧
      ((halfFull.insert 1 0).failure = none ∧
        (halfFull.insert 1 0).draft.window 0 = halfFull.window 0) ∧
      (halfFull.insertRow 1 [1, 0, 2, 0]).failure = some (.rowFull 1 2) ∧
      ∃ front : List Nat, halfFull.Admits (front.map (1, ·)) ∧
        (halfFull.insertRow 1 [1, 0, 2, 0]).draft = halfFull.insertAll (front.map (1, ·)) := by
  have hrun : (run begun).drafts = [halfFull] := by cbv
  obtain ⟨hone, hseveral⟩ := run_insert_atomic begun (hrun ▸ List.mem_cons_self)
  have hfull : (halfFull.insert 0 1).failure = some (.rowFull 0 2) :=
    (hone 0 1).failure_eq.trans (by decide)
  have hpresent : (halfFull.insert 0 2).failure = none := (hone 0 2).failure_eq.trans (by decide)
  have hroom : (halfFull.insert 1 0).failure = none := (hone 1 0).failure_eq.trans (by decide)
  have hstopped : (halfFull.insertRow 1 [1, 0, 2, 0]).failure = some (.rowFull 1 2) := by decide
  obtain ⟨front, -, -, -, hfront, -, hdraft⟩ := (hseveral 1 [1, 0, 2, 0]).2.2 _ hstopped
  refine ⟨hrun, ⟨hfull, (hone 0 1).unchanged (.inl ?_)⟩,
    ⟨hpresent, (hone 0 2).unchanged (.inr (by decide))⟩,
    ⟨hroom, (hone 1 0).other_rows 0 (by decide) (by decide)⟩, hstopped, front, hfront, hdraft⟩
  rw [hfull]
  exact Option.some_ne_none _

end Session

end SparsePattern
