import SparsePattern.Proofs.Draft.Canonical
import SparsePattern.Proofs.Draft.Reservations

/-!
# Drafts from rows and drafts filled entry by entry

A draft from rows holds in each row the columns that the row asks for, in as many slots
(`entrySet_ofRows`, `capacity_ofRows`), and depends on nothing else (`ofRows_congr`).  A draft that
reserves enough slots and into which the same entries are inserted compresses to the same pattern
(`ofRows_matches_insertPairs`).
-/

namespace SparsePattern.Draft

open Rows (require_bind_eq_ok bind_eq_ok)

variable {nRows nCols row : Nat} {rows rows' : List (List Nat)} {cols : List Nat} {policy : Policy}
  {d d' : Draft}

/-! ### Drafts from rows -/

/-- Rows whose columns are in range can be packed. -/
theorem exists_packRows {diagonalFirst : Bool} (hlt : ∀ cols ∈ rows, ∀ col ∈ cols, col < nCols) :
    ∃ packed, packRows nCols diagonalFirst row rows = .ok packed := by
  induction rows generalizing row with
  | nil => exact ⟨[], rfl⟩
  | cons cols rows ih =>
    obtain ⟨first, hfirst⟩ : ∃ packed, packRow nCols diagonalFirst row cols = .ok packed :=
      ⟨_, packRow_eq_ok_iff.2 ⟨hlt cols List.mem_cons_self, rfl⟩⟩
    obtain ⟨rest, hrest⟩ := @ih (row + 1) fun cols hmem => hlt cols (List.mem_cons_of_mem _ hmem)
    exact ⟨first :: rest, bind_eq_ok.2 ⟨first, hfirst, bind_eq_ok.2 ⟨rest, hrest, rfl⟩⟩⟩

/-- A draft is made from rows if they are as many as stated and their columns are in range. -/
theorem exists_ofRows (policy : Policy) (hcols : nCols < columnLimit) (hlen : rows.length = nRows)
    (hlt : ∀ cols ∈ rows, ∀ col ∈ cols, col < nCols) :
    ∃ d, ofRows nRows nCols rows policy = .ok d := by
  have hlt' : ∀ cols ∈ rows.take nRows, ∀ col ∈ cols, col < nCols := by
    intro cols hmem
    exact hlt cols (List.mem_of_mem_take hmem)
  obtain ⟨packed, hpacked⟩ := exists_packRows hlt'
  exact ⟨_, require_bind_eq_ok.2
    ⟨hcols, bind_eq_ok.2 ⟨packed, hpacked, require_bind_eq_ok.2 ⟨hlen, rfl⟩⟩⟩⟩

private theorem row_lt_of_ofRows (h : ofRows nRows nCols rows policy = .ok d)
    (hrow : rows[row]? = some cols) : row < nRows := by
  obtain ⟨⟨-, hcount⟩, -⟩ := exists_packs_of_ofRows h
  obtain ⟨hlt, -⟩ := List.getElem?_eq_some_iff.1 hrow
  rwa [hcount] at hlt

/-- Every slot of a row is taken. -/
private theorem recorded_ofRows (h : ofRows nRows nCols rows policy = .ok d)
    (hrow : rows[row]? = some cols) :
    packRow nCols (policy.leads nRows nCols) row cols = .ok (d.recorded row) ∧
      d.capacity row = (d.recorded row).length := by
  have hlt := row_lt_of_ofRows h hrow
  obtain ⟨⟨hcols, -⟩, ⟨hnRows, -, -⟩, packed, hpacks, hrows⟩ := exists_packs_of_ofRows h
  obtain ⟨hrow', rfl⟩ := List.getElem?_eq_some_iff.1 hrow
  have hpacked : row < packed.length := by
    have hlen : d.nRows = packed.length := hpacks.nRows_eq
    omega
  have hpack := hrows row hpacked hrow'
  have hlead : policy.leads nRows nCols = true → row < nCols :=
    fun hleads => Policy.lt_of_leads hleads hlt
  have hfree : ∀ c ∈ packed[row], c ≠ free := by
    intro c hc
    refine ne_free_of_lt hcols (columnSet_lt hlead (packRow_eq_ok_iff.1 hpack).1 ?_)
    exact (mem_packRow hcols hlead hpack).1 hc
  have hrecorded : d.recorded row = packed[row] := by
    have hocc := occupied_append 0 hfree
    rw [List.replicate_zero, List.append_nil] at hocc
    rw [recorded, window_of_packs hpacks hpacked, hocc]
  rw [hrecorded, capacity_of_packs hpacks hpacked]
  exact ⟨hpack, rfl⟩

/-- A draft that is made from rows records their columns, and the diagonal if it leads. -/
theorem entrySet_ofRows (h : ofRows nRows nCols rows policy = .ok d)
    (hrow : rows[row]? = some cols) :
    d.entrySet row = columnSet (policy.leads nRows nCols) row cols := by
  have hlt := row_lt_of_ofRows h hrow
  obtain ⟨⟨hcols, -⟩, ⟨hnRows, -, -⟩, -⟩ := exists_packs_of_ofRows h
  have hpack := (recorded_ofRows h hrow).1
  have hlead : policy.leads nRows nCols = true → row < nCols :=
    fun hleads => Policy.lt_of_leads hleads hlt
  have hmem {c : UInt32} := mem_packRow hcols hlead hpack (c := c)
  ext col
  rw [mem_entrySet (hnRows.symm ▸ hlt), contains_iff, and_iff_right (hnRows.symm ▸ hlt)]
  constructor
  · rintro ⟨c, hc, rfl⟩
    exact hmem.1 hc
  · intro hcol
    have hnat : col.toUInt32.toNat = col :=
      toNat_toUInt32 (Nat.lt_trans (columnSet_lt hlead (packRow_eq_ok_iff.1 hpack).1 hcol) hcols)
    exact ⟨col.toUInt32, hmem.2 (hnat.symm ▸ hcol), hnat⟩

/-- A draft that is made from rows contains their columns, and the diagonal if it leads. -/
theorem contains_ofRows (h : ofRows nRows nCols rows policy = .ok d) (hrow : rows[row]? = some cols)
    {col : Nat} :
    d.contains row col = true ↔ col ∈ columnSet (policy.leads nRows nCols) row cols := by
  obtain ⟨-, ⟨hnRows, -, -⟩, -⟩ := exists_packs_of_ofRows h
  rw [← entrySet_ofRows h hrow, mem_entrySet (hnRows.symm ▸ row_lt_of_ofRows h hrow)]

/-- Rows are made full: each has just the slots for its distinct columns. -/
theorem capacity_ofRows (h : ofRows nRows nCols rows policy = .ok d)
    (hrow : rows[row]? = some cols) :
    (d.recorded row).length = (columnSet (policy.leads nRows nCols) row cols).card ∧
      d.capacity row = (columnSet (policy.leads nRows nCols) row cols).card := by
  obtain ⟨-, ⟨hnRows, -, -⟩, -⟩ := exists_packs_of_ofRows h
  have hlt : row < d.nRows := hnRows.symm ▸ row_lt_of_ofRows h hrow
  have hcard := card_entrySet (wellFormed_ofRows h) hlt
  rw [entrySet_ofRows h hrow] at hcard
  exact ⟨hcard.symm, (recorded_ofRows h hrow).2.trans hcard.symm⟩

/-- Rows that ask for the same columns make the same draft. -/
theorem ofRows_congr (h : ofRows nRows nCols rows policy = .ok d)
    (h' : ofRows nRows nCols rows' policy = .ok d')
    (hsame : ∀ row cols cols', rows[row]? = some cols → rows'[row]? = some cols' →
      columnSet (policy.leads nRows nCols) row cols =
        columnSet (policy.leads nRows nCols) row cols') :
    d = d' := by
  obtain ⟨⟨hcols, hcount⟩, ⟨hnRows, hnCols, hflag⟩, packed, hpacks, hrows⟩ :=
    exists_packs_of_ofRows h
  obtain ⟨⟨-, hcount'⟩, ⟨hnRows', hnCols', hflag'⟩, packed', hpacks', hrows'⟩ :=
    exists_packs_of_ofRows h'
  have hlen : packed.length = nRows := hpacks.nRows_eq.symm.trans hnRows
  have hlen' : packed'.length = nRows := hpacks'.nRows_eq.symm.trans hnRows'
  have hpacked : packed = packed' := by
    refine List.ext_getElem (hlen.trans hlen'.symm) fun row hrow hrow' => ?_
    have hlead : policy.leads nRows nCols = true → row < nCols :=
      fun hd => Policy.lt_of_leads hd (hlen ▸ hrow)
    have hpack := hrows row hrow (by omega)
    have hpack' := hrows' row hrow' (by omega)
    have hset := hsame row _ _ (List.getElem?_eq_getElem (by omega))
      (List.getElem?_eq_getElem (by omega))
    -- the order within a row is given by its columns
    refine (rowOrdered_packRow hcols hlead hpack).eq_of_mem_iff
      (rowOrdered_packRow hcols hlead hpack') ?_
    intro c
    rw [mem_packRow hcols hlead hpack, mem_packRow hcols hlead hpack', hset]
  rw [← hpacked] at hpacks'
  exact eq_of_layout_eq
    (hpacks'.layout_eq hpacks (hnCols.trans hnCols'.symm) (hflag.trans hflag'.symm))

/-- Rows that ask for the same columns make the same draft. -/
private theorem ofRows_eq_ok_of_columnSet_eq (h : ofRows nRows nCols rows policy = .ok d)
    (hlt : ∀ cols ∈ rows, ∀ col ∈ cols, col < nCols) (hlen' : rows'.length = nRows)
    (hsame : ∀ row cols cols', rows[row]? = some cols → rows'[row]? = some cols' →
      columnSet (policy.leads nRows nCols) row cols =
        columnSet (policy.leads nRows nCols) row cols') :
    ofRows nRows nCols rows' policy = .ok d := by
  obtain ⟨⟨hcols, hcount⟩, -⟩ := exists_packs_of_ofRows h
  have hlt' : ∀ cols ∈ rows', ∀ col ∈ cols, col < nCols := by
    intro cols' hmem col hcol
    obtain ⟨row, hrow'⟩ := List.mem_iff_getElem?.1 hmem
    obtain ⟨hrow, -⟩ := List.getElem?_eq_some_iff.1 hrow'
    have hrow₀ : rows[row]? = some rows[row] := List.getElem?_eq_getElem (by omega)
    have hset : col ∈ columnSet (policy.leads nRows nCols) row rows[row] := by
      rw [hsame row _ _ hrow₀ hrow']
      exact mem_columnSet.2 (.inr hcol)
    exact columnSet_lt (fun hd => Policy.lt_of_leads hd (by omega))
      (hlt _ (List.mem_of_getElem? hrow₀)) hset
  obtain ⟨d', hd'⟩ := exists_ofRows policy hcols hlen' hlt'
  rw [ofRows_congr h hd' hsame]
  exact hd'

/-! ### Drafts filled entry by entry -/

/-- With enough slots the entries that the rows ask for are all recorded, and nothing else but the
diagonal. -/
theorem insertPairs_reserved {wanted : List Nat} {pairs : List (Nat × Nat)}
    (hcols : nCols < columnLimit) (hlen : rows.length = nRows)
    (hlt : ∀ cols ∈ rows, ∀ col ∈ cols, col < nCols) (hwanted : wanted.length = nRows)
    (hroom : ∀ row cols w, rows[row]? = some cols → wanted[row]? = some w →
      (columnSet (policy.leads nRows nCols) row cols).card ≤ w)
    (hpairs : ∀ r c, (r, c) ∈ pairs ↔ ∃ cols, rows[r]? = some cols ∧ c ∈ cols) :
    ((reserved nRows nCols wanted policy).insertPairs pairs).failure = none ∧
      ∀ row cols, rows[row]? = some cols → ∀ col,
        ((reserved nRows nCols wanted policy).insertPairs pairs).draft.contains row col = true ↔
          col ∈ columnSet (policy.leads nRows nCols) row cols := by
  have hwf : (reserved nRows nCols wanted policy).WellFormed := wellFormed_reserved hcols hwanted
  have hbelow : ∀ {row cols}, rows[row]? = some cols → row < nRows := by
    intro row cols hrow
    rw [← hlen]
    exact (List.getElem?_eq_some_iff.1 hrow).1
  have hin : ∀ r c, (r, c) ∈ pairs → r < nRows ∧ c < nCols := by
    intro r c hmem
    obtain ⟨cols, hr, hc⟩ := (hpairs r c).1 hmem
    exact ⟨hbelow hr, hlt cols (List.mem_of_getElem? hr) c hc⟩
  have hends := insertPairs_outcome hwf hin
  -- what the insertions aim at in a row is its column set
  have hset : ∀ row cols, rows[row]? = some cols →
      ∀ col, col ∈ columnSet (policy.leads nRows nCols) row cols ↔
      (reserved nRows nCols wanted policy).contains row col = true ∨ (row, col) ∈ pairs := by
    intro row cols hrow col
    have hpair : (row, col) ∈ pairs ↔ col ∈ cols := by
      rw [hpairs, hrow]
      simp
    rw [mem_columnSet, contains_reserved hcols hwanted, hpair, and_iff_right (hbelow hrow)]
  have hrows : ∀ row < nRows, rows[row]? = some (rows.getD row []) := by
    intro row hrow
    rw [List.getD_eq_getElem?_getD, List.getElem?_eq_getElem (by omega), Option.getD_some]
  have hnone : ((reserved nRows nCols wanted policy).insertPairs pairs).failure = none := by
    refine (hends.failure_eq_none_iff hwf (grows_insertPairs hwf pairs)
      fun row hrow => hset row _ (hrows row hrow)).2 fun row (hrow : row < nRows) => ?_
    have hrow' := hrows row hrow
    have hw : wanted[row]? = some wanted[row] := List.getElem?_eq_getElem (by omega)
    have hlead : policy.leads nRows nCols = true → row < nCols :=
      fun hd => Policy.lt_of_leads hd hrow
    rw [capacity_reserved hwanted hw]
    refine (card_columnSet_le_reservation_iff hlead (hlt _ (List.mem_of_getElem? hrow'))).2 ?_
    exact Nat.le_trans (hroom row _ _ hrow' hw) (Nat.le_max_left ..)
  refine ⟨hnone, fun row cols hrow col => ?_⟩
  rw [hends.contains_iff_of_failure_eq_none hnone, hset row cols hrow]

/-- Rows of columns in range make a draft with exactly the slots that they need.  Inserting the same
entries in any order and repeatedly into a draft that was created with at least as many slots leads
to the same pattern, and rows that ask for the same columns make the same draft. -/
theorem ofRows_matches_insertPairs (policy : Policy) (hcols : nCols < columnLimit)
    (hlen : rows.length = nRows) (hlt : ∀ cols ∈ rows, ∀ col ∈ cols, col < nCols) :
    ∃ d p, ofRows nRows nCols rows policy = .ok d ∧ d.compress = .ok p ∧
      (∀ row cols, rows[row]? = some cols →
        d.rowLength row = .ok (columnSet (policy.leads nRows nCols) row cols).card ∧
          d.rowCapacity row = .ok (columnSet (policy.leads nRows nCols) row cols).card) ∧
      (∀ n, uniform nRows nCols n policy =
        ofReservations nRows nCols (List.replicate nRows n) policy) ∧
      (∀ wanted pairs, wanted.length = nRows →
        Fits nRows ((wanted.map (reservation nCols (policy.leads nRows nCols))).foldl (· + ·) 0) →
        (∀ row cols w, rows[row]? = some cols → wanted[row]? = some w →
          (columnSet (policy.leads nRows nCols) row cols).card ≤ w) →
        (∀ r c, (r, c) ∈ pairs ↔ ∃ cols, rows[r]? = some cols ∧ c ∈ cols) →
        ∃ e₀ e, ofReservations nRows nCols wanted policy = .ok e₀ ∧
          (e₀.insertPairs pairs).finished = .ok e ∧ e.compress = .ok p) ∧
      ∀ rows', rows'.length = nRows →
        (∀ row cols cols', rows[row]? = some cols → rows'[row]? = some cols' →
          columnSet (policy.leads nRows nCols) row cols =
            columnSet (policy.leads nRows nCols) row cols') →
        ofRows nRows nCols rows' policy = .ok d := by
  obtain ⟨d, hd⟩ := exists_ofRows policy hcols hlen hlt
  have hwf := wellFormed_ofRows hd
  obtain ⟨-, ⟨hnRows, hnCols, hflag⟩, -⟩ := exists_packs_of_ofRows hd
  refine ⟨d, d.compressed, hd, compress_eq hwf, ?lengths, fun n => uniform_eq_ofReservations ..,
    ?filled, ?same⟩
  case lengths =>
    intro row cols hrow
    obtain ⟨hlength, hcapacity⟩ := capacity_ofRows hd hrow
    have hbelow : row < d.nRows := hnRows.symm ▸ row_lt_of_ofRows hd hrow
    rw [rowLength, rowCapacity, if_pos hbelow, if_pos hbelow, hlength, hcapacity]
    exact ⟨rfl, rfl⟩
  case filled =>
    intro wanted pairs hwanted hfits hroom hpairs
    obtain ⟨hnone, hcontains⟩ := insertPairs_reserved hcols hlen hlt hwanted hroom hpairs
    have hwf₀ : (reserved nRows nCols wanted policy).WellFormed := wellFormed_reserved hcols hwanted
    have hgrows := grows_insertPairs hwf₀ pairs
    have hshape := hgrows.sameShape
    refine ⟨_, _, ofReservations_eq_ok hcols hwanted hfits, by rw [Progress.finished, hnone], ?_⟩
    rw [compress_eq (hgrows.wellFormed hwf₀)]
    refine congrArg Except.ok (compressed_congr hwf (hgrows.wellFormed hwf₀) ?_ ?_ ?_ ?_)
    · exact hshape.nRows_eq.trans hnRows.symm
    · exact hshape.nCols_eq.trans hnCols.symm
    · exact hshape.diagonalFirst_eq.trans hflag.symm
    · refine contains_congr (hshape.nRows_eq.trans hnRows.symm) fun r hr c => ?_
      rw [hnRows] at hr
      have hrow : rows[r]? = some rows[r] := List.getElem?_eq_getElem (by omega)
      rw [hcontains r _ hrow, contains_ofRows hd hrow]
  case same =>
    intro rows' hlen' hsame
    exact ofRows_eq_ok_of_columnSet_eq hd hlt hlen' hsame

/-- Repeated columns, an empty row and the rest of a diagonal. -/
def scattered : List (List Nat) := [[2, 0, 2], [], [1, 0]]

theorem ofRows_matches_insertPairs_scattered :
    (3 < columnLimit ∧ scattered.length = 3 ∧ ∀ cols ∈ scattered, ∀ col ∈ cols, col < 3) ∧
      ∃ d p e₀ e, ofRows 3 3 scattered = .ok d ∧ d.compress = .ok p ∧
        ofReservations 3 3 [2, 3, 5] = .ok e₀ ∧
        (e₀.insertPairs [(2, 0), (0, 0), (2, 1), (2, 0), (0, 2)]).finished = .ok e ∧
        e.compress = .ok p := by
  have hcols : 3 < columnLimit := by decide
  have hlt : ∀ cols ∈ scattered, ∀ col ∈ cols, col < 3 := by decide
  obtain ⟨d, p, hd, hp, -, -, hfilled, -⟩ := ofRows_matches_insertPairs {} hcols rfl hlt
  have hroom : ∀ row cols w, scattered[row]? = some cols → [2, 3, 5][row]? = some w →
      (columnSet (Policy.leads {} 3 3) row cols).card ≤ w := by
    intro row cols w hrow hw
    rcases row with _ | _ | _ | row <;> cases hrow <;> cases hw <;> decide
  have hpairs : ∀ r c, (r, c) ∈ [(2, 0), (0, 0), (2, 1), (2, 0), (0, 2)] ↔
      ∃ cols, scattered[r]? = some cols ∧ c ∈ cols := by
    intro r c
    rcases r with _ | _ | _ | r <;> simp [scattered] <;> omega
  obtain ⟨e₀, e, he₀, he, hcompress⟩ := hfilled _ _ rfl (by decide) hroom hpairs
  exact ⟨⟨hcols, rfl, hlt⟩, d, p, e₀, e, hd, hp, he₀, he, hcompress⟩

end SparsePattern.Draft
