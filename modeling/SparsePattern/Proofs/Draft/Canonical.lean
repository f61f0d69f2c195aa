import SparsePattern.Proofs.Compressed.Numbering
import SparsePattern.Proofs.Draft.Compression
import SparsePattern.Proofs.Draft.Entries
import SparsePattern.Proofs.Draft.History

/-!
# Compression depends on the entries only

The order within a row leaves no choice once the columns are known
(`Layout.RowOrdered.eq_of_mem_iff`), so that a well-formed pattern is given by its shape, its policy
and the columns of its rows (`Pattern.WellFormed.eq_of_mem_iff`).  Drafts of one shape and policy
that record the same entries therefore compress to the same pattern (`Draft.compressed_congr`),
whatever they reserve and in whatever order the entries came.
-/

namespace SparsePattern

/-- The order of a row follows from its columns. -/
theorem Layout.RowOrdered.eq_of_mem_iff {diagonalFirst : Bool} {row : Nat}
    {columns columns' : List UInt32} (h : RowOrdered diagonalFirst row columns)
    (h' : RowOrdered diagonalFirst row columns') (hmem : ∀ c, c ∈ columns ↔ c ∈ columns') :
    columns = columns' := by
  unfold RowOrdered at h h'
  by_cases hd : diagonalFirst = true
  · rw [if_pos hd] at h h'
    obtain ⟨lead, rest, rfl, hlead, hrest, hnot⟩ := h
    obtain ⟨lead', rest', rfl, hlead', hrest', hnot'⟩ := h'
    obtain rfl : lead = lead' := UInt32.toNat_inj.1 (hlead.trans hlead'.symm)
    have hmem' : ∀ c, c ∈ rest ↔ c ∈ rest' := by
      intro c
      by_cases hc : c = lead
      · subst hc
        simp only [hnot, hnot']
      · have := hmem c
        simpa only [List.mem_cons, hc, false_or] using this
    rw [Distinct.eq_of_pairwise_lt hrest hrest' hmem']
  · rw [if_neg hd] at h h'
    exact Distinct.eq_of_pairwise_lt h h' hmem

namespace Pattern

variable {p q : Pattern}

private theorem WellFormed.eq_of_layout_eq (hp : p.WellFormed) (hq : q.WellFormed)
    (h : q.toLayout = p.toLayout) : q = p := by
  have hlongest : q.longestRow = p.longestRow := by rw [hq.longestRow_eq, hp.longestRow_eq, h]
  cases p
  cases q
  rw [Pattern.mk.injEq]
  exact ⟨h, hlongest⟩

/-- Two patterns of one shape and policy are the same if their rows have the same columns. -/
theorem WellFormed.eq_of_mem_iff (hp : p.WellFormed) (hq : q.WellFormed) (hrows : q.nRows = p.nRows)
    (hcols : q.nCols = p.nCols) (hflag : q.diagonalFirst = p.diagonalFirst)
    (hmem : ∀ r < p.nRows, ∀ c, c ∈ q.rowList r ↔ c ∈ p.rowList r) : q = p := by
  have hpacks := hq.layout.packs
  have hsame : (List.range q.nRows).map q.rowList = (List.range p.nRows).map p.rowList := by
    rw [hrows]
    refine List.map_congr_left fun r hr => ?_
    have hr : r < p.nRows := List.mem_range.1 hr
    have hordered := hq.layout.row_ordered r (hrows.symm ▸ hr)
    rw [hflag] at hordered
    exact hordered.eq_of_mem_iff (hp.layout.row_ordered r hr) (hmem r hr)
  rw [hsame] at hpacks
  exact hp.eq_of_layout_eq hq (hp.layout.packs.layout_eq hpacks hcols hflag)

end Pattern

namespace Draft

variable {d e : Draft}

/-- What a draft compresses to follows from its shape, its policy and its entries. -/
theorem compressed_congr (hd : d.WellFormed) (he : e.WellFormed) (hrows : e.nRows = d.nRows)
    (hcols : e.nCols = d.nCols) (hflag : e.diagonalFirst = d.diagonalFirst)
    (hcontains : ∀ r c, e.contains r c = d.contains r c) : e.compressed = d.compressed := by
  refine (wellFormed_compressed hd).eq_of_mem_iff (wellFormed_compressed he) hrows hcols hflag ?_
  intro r (hr : r < d.nRows) c
  have hr' : r < e.nRows := hrows.symm ▸ hr
  rw [rowList_compressed hr, rowList_compressed hr', mem_storedRow, mem_storedRow,
    mem_recorded_iff hr, mem_recorded_iff hr', hcontains]

/-- The compressed pattern has a number for exactly the recorded entries. -/
theorem exists_indexOf?_compressed_iff (h : d.WellFormed) {r c : Nat} :
    (∃ index, Compressed.indexOf? d.compressed r c = .ok (some index)) ↔ d.contains r c = true := by
  have hl : d.compressed.toLayout.WellFormed := (wellFormed_compressed h).layout
  have hindex : ∀ index, Compressed.indexOf? d.compressed r c = .ok (some index) ↔
      d.compressed.toLayout.EntryAt index r c :=
    fun index => Compressed.indexOf?_eq_some_iff (s := d.compressed) hl
  simp only [hindex]
  by_cases hr : r < d.nRows
  · rw [Layout.exists_entryAt_iff_mem hl hr, rowList_compressed hr, contains_iff, and_iff_right hr]
    simp only [mem_storedRow]
  · constructor
    · rintro ⟨index, he⟩
      exact absurd he.row_lt hr
    · intro hc
      exact absurd (contains_iff.1 hc).1 hr

end Draft

namespace Session

/-- A draft compresses to a pattern of its shape, which holds in each row what is recorded there,
once and in stored order.  Any two drafts of one shape and policy with the same entries compress to
the same pattern. -/
theorem run_compress_canonical (calls : List Call) {d : Draft} (hd : d ∈ (run calls).drafts) :
    ∃ p, d.compress = .ok p ∧ p.nRows = d.nRows ∧ p.nCols = d.nCols ∧
      p.diagonalFirst = d.diagonalFirst ∧
      (∀ r < d.nRows, ∃ columns, Compressed.row p r = .ok columns ∧
        (∀ c, c ∈ columns.toList ↔ c ∈ d.recorded r) ∧ columns.toList.Nodup ∧
        Layout.RowOrdered d.diagonalFirst r columns.toList) ∧
      ∀ (calls' : List Call) (e : Draft), e ∈ (run calls').drafts →
        e.nRows = d.nRows → e.nCols = d.nCols → e.diagonalFirst = d.diagonalFirst →
        (∀ r c, e.contains r c = d.contains r c) → e.compress = .ok p := by
  have h := wellFormed_of_mem_run hd
  refine ⟨d.compressed, Draft.compress_eq h, rfl, rfl, rfl, ?rows, ?same⟩
  case rows =>
    intro r hr
    have hl : d.compressed.toLayout.WellFormed := (Draft.wellFormed_compressed h).layout
    have hordered := Draft.rowOrdered_storedRow h hr
    refine ⟨(d.storedRow r).toArray, ?_, fun c => Draft.mem_storedRow, hordered.nodup, hordered⟩
    rw [← Draft.rowList_compressed hr]
    exact hl.row_eq hr
  case same =>
    intro calls' e he hrows hcols hflag hcontains
    have h' := wellFormed_of_mem_run he
    rw [Draft.compress_eq h', Draft.compressed_congr h h' hrows hcols hflag hcontains]

/-- A draft with slots to spare, filled in order. -/
def roomy : List Call := [.uniform 2 3 3 {}, .insertRow 0 0 [0, 2], .insert 0 1 1]

/-- A draft without a slot to spare, filled in another order and up to a refusal. -/
def tight : List Call := [.ofReservations 2 3 [2, 1] {}, .insert 0 1 1, .insertRow 0 0 [2, 2, 0, 1]]

theorem run_compress_canonical_reservations :
    ∃ d e p, (run roomy).drafts = [d] ∧ (run tight).drafts = [e] ∧
      d.slots.size = 6 ∧ e.slots.size = 3 ∧ d.compress = .ok p ∧ e.compress = .ok p := by
  have hd : (run roomy).drafts =
      [⟨2, 3, #[0, 3, 6], #[0, 2, Draft.free, 1, Draft.free, Draft.free], false⟩] := by cbv
  have he : (run tight).drafts = [⟨2, 3, #[0, 2, 3], #[2, 0, 1], false⟩] := by cbv
  obtain ⟨p, hp, -, -, -, -, hsame⟩ := run_compress_canonical roomy (hd ▸ List.mem_cons_self)
  refine ⟨_, _, p, hd, he, rfl, rfl, hp, hsame tight _ (he ▸ List.mem_cons_self) rfl rfl rfl ?_⟩
  intro r c
  rw [Bool.eq_iff_iff, Draft.contains_iff, Draft.contains_iff]
  refine and_congr_right fun hr => ?_
  -- the rows hold the same columns, the first in two orders
  have hr' : r = 0 ∨ r = 1 := by
    have : r < 2 := hr
    omega
  rcases hr' with rfl | rfl
  · show (∃ b ∈ ([2, 0] : List UInt32), b.toNat = c) ↔ ∃ b ∈ ([0, 2] : List UInt32), b.toNat = c
    simp [or_comm]
  · exact Iff.rfl

end Session

end SparsePattern
