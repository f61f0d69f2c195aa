import Mathlib.Data.List.GetD
import SparsePattern.Proofs.Draft.Growth
import SparsePattern.Proofs.Session

/-!
# Drafts over whole sessions

A call leaves every draft of a session in its place and makes it grow at most
(`Session.grows_step`), and so does any sequence of calls (`Session.grows_run`).  Hence the slots of
all drafts stay in order whatever is called, refused calls included (`Session.run_drafts_intact`).
-/

namespace SparsePattern

namespace Draft

variable {d : Draft}

/-! ### Slots in order -/

/-- The slots of `row` from `start` up to `stop`: distinct columns in front, with the diagonal first
where it leads, and free slots behind. -/
structure RowIntact (d : Draft) (row start stop : Nat) : Prop where
  start_le : start ≤ stop
  width_le : stop - start ≤ d.nCols
  free_behind : ∀ i j, start ≤ i → i < j → j < stop → d.slots[i]? = some free →
    d.slots[j]? = some free
  distinct : ∀ i j, start ≤ i → i < j → j < stop → d.slots[i]? = d.slots[j]? →
    d.slots[i]? = some free
  column_lt : ∀ i c, start ≤ i → i < stop → d.slots[i]? = some c → c ≠ free → c.toNat < d.nCols
  leads : d.diagonalFirst = true → start < stop ∧ ∃ c, d.slots[start]? = some c ∧ c.toNat = row

/-- The arrays of a draft are in order. -/
structure Intact (d : Draft) : Prop where
  nCols_lt : d.nCols < columnLimit
  square : d.diagonalFirst = true → d.nRows = d.nCols
  size_rowStart : d.rowStart.size = d.nRows + 1
  first_offset : d.rowStart[0]? = some 0
  last_offset : d.rowStart[d.nRows]? = some d.slots.size
  rows : ∀ row < d.nRows, ∃ start stop,
    d.rowStart[row]? = some start ∧ d.rowStart[row + 1]? = some stop ∧ d.RowIntact row start stop

/-- A slot of a row is free exactly behind the recorded columns. -/
theorem getD_recorded_eq_free_iff (h : d.WellFormed) {row k : Nat} (hrow : row < d.nRows) :
    (d.recorded row).getD k free = free ↔ (d.recorded row).length ≤ k := by
  rw [List.getD_eq_getElem?_getD]
  constructor
  · intro hfree
    by_contra hlt
    have hk : k < (d.recorded row).length := Nat.lt_of_not_le hlt
    rw [List.getElem?_eq_getElem hk, Option.getD_some] at hfree
    exact ne_free_of_mem_recorded h hrow (List.getElem_mem hk) hfree
  · intro hle
    rw [List.getElem?_eq_none hle, Option.getD_none]

private theorem lt_length_of_getD_ne_free (h : d.WellFormed) {row k : Nat} (hrow : row < d.nRows)
    (hne : (d.recorded row).getD k free ≠ free) : k < (d.recorded row).length :=
  Nat.lt_of_not_le fun hle => hne ((getD_recorded_eq_free_iff h hrow).2 hle)

private theorem capacity_le (h : d.WellFormed) {row : Nat} (hrow : row < d.nRows) :
    d.capacity row ≤ d.nCols := by
  rw [← h.length_window hrow]
  exact (h.windows row hrow).length_le

private theorem rowIntact (h : d.WellFormed) {row : Nat} (hrow : row < d.nRows) :
    d.RowIntact row (d.start row) (d.start (row + 1)) := by
  have hw := h.windows row hrow
  have hle : d.start row ≤ d.start (row + 1) := h.tiled.offset_le row hrow
  have hcapacity : d.capacity row = d.start (row + 1) - d.start row := rfl
  -- what the slot `i` of the row holds
  have hslot : ∀ i, d.start row ≤ i → i < d.start (row + 1) →
      d.slots[i]? = some ((d.recorded row).getD (i - d.start row) free) := by
    intro i hi hi'
    have hread := getElem?_slots h (k := i - d.start row) hrow (by omega)
    rwa [Nat.add_sub_cancel' hi] at hread
  constructor
  case start_le => exact hle
  case width_le => exact capacity_le h hrow
  case free_behind =>
    intro i j hi hij hj hfree
    rw [hslot i hi (by omega), Option.some_inj, getD_recorded_eq_free_iff h hrow] at hfree
    rw [hslot j (by omega) hj, Option.some_inj, getD_recorded_eq_free_iff h hrow]
    omega
  case distinct =>
    intro i j hi hij hj heq
    rw [hslot i hi (by omega), hslot j (by omega) hj, Option.some_inj] at heq
    rw [hslot i hi (by omega), Option.some_inj]
    by_contra hne
    -- both slots hold recorded columns, which differ
    have hi' : i - d.start row < (d.recorded row).length := lt_length_of_getD_ne_free h hrow hne
    have hj' : j - d.start row < (d.recorded row).length := by
      rw [heq] at hne
      exact lt_length_of_getD_ne_free h hrow hne
    rw [List.getD_eq_getElem _ _ hi', List.getD_eq_getElem _ _ hj'] at heq
    have hsame : i - d.start row = j - d.start row := (List.Nodup.getElem_inj_iff hw.nodup).1 heq
    omega
  case column_lt =>
    intro i c hi hi' hc hne
    rw [hslot i hi hi', Option.some_inj] at hc
    rw [← hc] at hne
    have hk : i - d.start row < (d.recorded row).length := lt_length_of_getD_ne_free h hrow hne
    rw [List.getD_eq_getElem _ _ hk] at hc
    rw [← hc]
    exact hw.column_lt _ (List.getElem_mem hk)
  case leads =>
    intro hd
    have hcol : row < columnLimit := Nat.lt_trans (h.square hd ▸ hrow) h.nCols_lt
    obtain ⟨rest, hrest⟩ : ∃ rest, d.recorded row = row.toUInt32 :: rest :=
      List.head?_eq_some_iff.1 (hw.leads hd)
    have hlen := length_recorded_le h hrow
    rw [hrest, List.length_cons] at hlen
    have hlt : d.start row < d.start (row + 1) := by omega
    refine ⟨hlt, row.toUInt32, ?_, toNat_toUInt32 hcol⟩
    rw [hslot _ (Nat.le_refl _) hlt, Nat.sub_self, hrest]
    rfl

private theorem WellFormed.intact (h : d.WellFormed) : d.Intact := by
  refine ⟨h.nCols_lt, h.square, h.tiled.size_rowStart, h.tiled.first_offset, h.tiled.last_offset,
    ?_⟩
  intro row hrow
  have hsize : d.rowStart.size = d.nRows + 1 := h.tiled.size_rowStart
  have hread : ∀ r ≤ d.nRows, d.rowStart[r]? = some (d.start r) := by
    intro r hr
    exact Layout.getElem?_rowStart (l := d.layout) (show r < d.rowStart.size by omega)
  exact ⟨d.start row, d.start (row + 1), hread row (by omega), hread (row + 1) hrow,
    rowIntact h hrow⟩

end Draft

/-! ### Calls and the drafts there are -/

namespace Session

variable {s : Session} {ε : Type} {i : Nat} {d : Draft}

private theorem getElem?_keepDraft (x : Except ε Draft) (hd : s.drafts[i]? = some d) :
    (s.keepDraft x).drafts[i]? = some d := by
  cases x with
  | error _ => exact hd
  | ok new =>
    obtain ⟨hi, -⟩ := List.getElem?_eq_some_iff.1 hd
    show (s.drafts ++ [new])[i]? = some d
    rw [List.getElem?_append_left hi]
    exact hd

private theorem drafts_keepPattern (x : Except ε Pattern) :
    (s.keepPattern x).drafts = s.drafts := by
  cases x <;> rfl

/-- Insertions into one draft leave the others as they are. -/
private theorem exists_grows_change (h : s.WellFormed) (j : Nat)
    {insertions : Draft → Draft.Progress}
    (hgrows : ∀ d : Draft, d.WellFormed → d.Grows (insertions d).draft)
    (hd : s.drafts[i]? = some d) :
    ∃ e, (s.change j insertions).drafts[i]? = some e ∧ d.Grows e := by
  rw [change, List.getElem?_modify, hd]
  by_cases hj : j = i
  · refine ⟨(insertions d).draft, ?_, hgrows d (h.drafts d (List.mem_of_getElem? hd))⟩
    simp [hj]
  · refine ⟨d, ?_, .refl⟩
    simp [hj]

/-- A call leaves a draft as it is or makes it grow. -/
theorem grows_step (h : s.WellFormed) (call : Call) (hd : s.drafts[i]? = some d) :
    ∃ e, (s.step call).drafts[i]? = some e ∧ d.Grows e := by
  -- a session with one more draft or pattern holds the drafts it held
  have hkeep : ∀ {ε : Type} (x : Except ε Draft), ∃ e,
      (s.keepDraft x).drafts[i]? = some e ∧ d.Grows e :=
    fun x => ⟨d, getElem?_keepDraft x hd, .refl⟩
  have hpattern : ∀ {ε : Type} (x : Except ε Pattern), ∃ e,
      (s.keepPattern x).drafts[i]? = some e ∧ d.Grows e := by
    intro ε x
    rw [drafts_keepPattern]
    exact ⟨d, hd, .refl⟩
  cases call with
  | emptyDraft | uniform | ofReservations | draftOfRows => exact hkeep _
  | widen pattern =>
    rw [step]
    split
    · exact hkeep _
    · exact ⟨d, hd, .refl⟩
  | insert draft row col =>
    exact exists_grows_change h draft (fun d hwf => Draft.grows_insert hwf row col) hd
  | insertRow draft row cols =>
    exact exists_grows_change h draft (fun d hwf => Draft.grows_insertRow hwf row cols) hd
  | symmetrize draft =>
    exact exists_grows_change h draft (fun d hwf => Draft.grows_symmetrize hwf) hd
  | compress draft =>
    rw [step]
    split
    · exact hpattern _
    · exact ⟨d, hd, .refl⟩
  | emptyPattern | patternOfRows | ofLayout | ofBytes | ofJson | read | view | exactView =>
    exact hpattern _
  | file store path =>
    rw [step]
    split
    · exact hpattern _
    · exact ⟨d, hd, .refl⟩

/-- Whatever calls follow, a draft is still there and has only grown. -/
theorem grows_run (calls later : List Call) (hd : (run calls).drafts[i]? = some d) :
    ∃ e, (run (calls ++ later)).drafts[i]? = some e ∧ d.Grows e := by
  induction later using List.reverseRecOn with
  | nil =>
    rw [List.append_nil]
    exact ⟨d, hd, .refl⟩
  | append_singleton later call ih =>
    obtain ⟨e, he, hgrows⟩ := ih
    obtain ⟨f, hf, hstep⟩ := grows_step (wellFormed_run (calls ++ later)) call he
    rw [← List.append_assoc, run, List.foldl_concat]
    exact ⟨f, hf, hgrows.trans hstep⟩

/-- All drafts that calls lead to are well-formed. -/
theorem wellFormed_of_mem_run {calls : List Call} (hd : d ∈ (run calls).drafts) : d.WellFormed :=
  (wellFormed_run calls).drafts d hd

/-- A draft stays in the session with its shape, and its arrays are in order, whatever is called
after it was made. -/
theorem run_drafts_intact (calls later : List Call) (hd : (run calls).drafts[i]? = some d) :
    ∃ e, (run (calls ++ later)).drafts[i]? = some e ∧ d.SameShape e ∧ e.Intact := by
  obtain ⟨e, he, hgrows⟩ := grows_run calls later hd
  have hwf := wellFormed_of_mem_run (List.mem_of_getElem? he)
  exact ⟨e, he, hgrows.sameShape, hwf.intact⟩

/-- Two drafts, the second of them widened from the first. -/
def created : List Call := [.uniform 2 2 2 {}, .compress 0, .widen 0 2 0]

/-- Entries for both drafts of `created`, of which the last two are refused. -/
def recording : List Call := [.insert 1 0 1, .symmetrize 1, .insert 1 0 7, .insertRow 0 1 [0, 2]]

theorem run_drafts_intact_widened :
    ∃ d e, (run created).drafts[1]? = some d ∧ (run (created ++ recording)).drafts[1]? = some e ∧
      d.slots = #[0, Draft.free, 1, Draft.free] ∧ e.slots = #[0, 1, 1, 0] ∧ d.SameShape e ∧
      e.Intact := by
  have hbefore : (run created).drafts[1]? =
      some ⟨2, 2, #[0, 2, 4], #[0, Draft.free, 1, Draft.free], true⟩ := by cbv
  have hafter : (run (created ++ recording)).drafts[1]? =
      some ⟨2, 2, #[0, 2, 4], #[0, 1, 1, 0], true⟩ := by cbv
  obtain ⟨e, he, hshape, hintact⟩ := run_drafts_intact created recording hbefore
  obtain rfl := Option.some.inj (he.symm.trans hafter)
  exact ⟨_, _, hbefore, hafter, rfl, rfl, hshape, hintact⟩

end Session

end SparsePattern
