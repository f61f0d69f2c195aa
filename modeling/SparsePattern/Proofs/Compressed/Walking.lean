import SparsePattern.Proofs.Compressed.Enumeration

/-!
# Walking through the entries

Each call for the next entry gives the entry with the number at which the cursor stands, and moves
it behind that entry; at the end it gives nothing and the cursor stays (`Cursor.call_eq`).  So any
number of calls leads to the place with that number (`Cursor.after_eq`), and what the calls give are
the rows one after another (`Cursor.walk_in_order`).
-/

namespace SparsePattern

open Compressed (layout nRows entryCount positionOf? rowLength)

private theorem Layout.nodup_entryList {l : Layout} (h : l.WellFormed) : l.entryList.Nodup := by
  rw [List.nodup_iff_getElem?_ne_getElem?]
  intro i j hij hj heq
  have hentry : l.entryList[j]? = some l.entryList[j] := List.getElem?_eq_getElem hj
  have hi := (getElem?_entryList_iff h).1 (heq.trans hentry)
  have hj := (getElem?_entryList_iff h).1 hentry
  exact absurd (EntryAt.index_unique h hi hj) (Nat.ne_of_lt hij)

namespace Cursor

variable {α : Type} [Compressed α] {s : α} {cursor : Cursor}

/-! ### Calls -/

/-- What a call for the next entry returns, and the place that it leaves: the same place if there is
no entry. -/
def call (s : α) (cursor : Cursor) : Except Fault (Option (Nat × Nat) × Cursor) := do
  match ← next s cursor with
  | none => return (none, cursor)
  | some (entry, behind) => return (some entry, behind)

/-- The place after `n` calls, whatever they have returned. -/
def after (s : α) : (n : Nat) → Cursor → Except Fault Cursor
  | 0, cursor => .ok cursor
  | n + 1, cursor => do after s n (← call s cursor).2

variable [LawfulCompressed α]

/-- One call takes the entry at the cursor from what is left of the list. -/
theorem call_eq (h : (layout s).WellFormed) (hc : Placed s cursor) :
    ∃ behind, call s cursor = .ok ((layout s).entryList[cursor.index]?, behind) ∧ Placed s behind ∧
      behind.index = min (cursor.index + 1) (layout s).columns.size := by
  rcases Nat.lt_or_ge cursor.index (layout s).columns.size with hlt | hge
  · obtain ⟨r, c, he⟩ := Layout.exists_entryAt h hlt
    refine ⟨⟨r, cursor.index + 1⟩, ?_, .succ he, (Nat.min_eq_left hlt).symm⟩
    rw [call, next_of_entryAt h hc he, (Layout.getElem?_entryList_iff h).2 he]
    rfl
  · have hindex : cursor.index = (layout s).columns.size := Nat.le_antisymm hc.index_le hge
    refine ⟨cursor, ?_, hc, by omega⟩
    rw [call, next_of_le h hge, List.getElem?_eq_none (by rwa [h.length_entryList])]
    rfl

/-- Any number of calls moves the cursor as many entries on, but not past the last. -/
theorem after_eq (h : (layout s).WellFormed) (hc : Placed s cursor) (n : Nat) :
    ∃ behind, after s n cursor = .ok behind ∧ Placed s behind ∧
      behind.index = min (cursor.index + n) (layout s).columns.size := by
  induction n generalizing cursor with
  | zero => exact ⟨cursor, rfl, hc, (Nat.min_eq_left hc.index_le).symm⟩
  | succ n ih =>
    obtain ⟨next, hcall, hplaced, hnext⟩ := call_eq h hc
    obtain ⟨behind, hafter, hbehind, hindex⟩ := ih hplaced
    refine ⟨behind, ?_, hbehind, by omega⟩
    rw [after, hcall]
    exact hafter

/-- Both bounds for what is left are exact. -/
private theorem remaining_eq (h : (layout s).WellFormed) (cursor : Cursor) :
    remaining s cursor =
      .ok ((layout s).columns.size - cursor.index,
        some ((layout s).columns.size - cursor.index)) := by
  rw [remaining, LawfulCompressed.entryCount_eq h]
  rfl

/-! ### The whole walk -/

/-- After `i` calls on a structure whose layout passes its check the cursor has passed `i` entries,
or all of them, and knows how many are left.  The next call returns the position with the number
`i`, which is nothing from the entry count on.  All that is returned are the rows in order, each in
stored order and no entry twice. -/
theorem walk_in_order (h : (layout s).check = .ok ()) :
    ∃ count, entryCount s = .ok count ∧
      (∀ i, ∃ cursor found behind, after s i {} = .ok cursor ∧ cursor.index = min i count ∧
        remaining s cursor = .ok (count - i, some (count - i)) ∧
        call s cursor = .ok (found, behind) ∧ positionOf? s i = .ok found ∧
        (found = none ↔ count ≤ i)) ∧
      ∃ columns : Nat → Array UInt32,
        (∀ r < nRows s,
          Compressed.row s r = .ok (columns r) ∧ rowLength s r = .ok (columns r).size) ∧
        ∃ listed, entries s = .ok listed ∧ (∀ n, count ≤ n → (·.1) <$> take s n {} = .ok listed) ∧
          listed =
            ((List.range (nRows s)).flatMap fun r => (columns r).toList.map fun c => (r, c.toNat)) ∧
          listed.Nodup ∧
          listed.length =
            ((List.range (nRows s)).map fun r => (columns r).size).foldl (· + ·) 0 := by
  have h := Layout.check_eq_ok_iff.1 h
  have hlen := h.length_entryList
  refine ⟨_, LawfulCompressed.entryCount_eq h, ?calls, fun r => ((layout s).rowList r).toArray,
    ?rows, (layout s).entryList, entries_eq h, ?all, rfl, Layout.nodup_entryList h, ?total⟩
  case calls =>
    intro i
    obtain ⟨cursor, hafter, hplaced, hindex⟩ := after_eq h (Placed.initial h) i
    obtain ⟨behind, hcall, -⟩ := call_eq h hplaced
    rw [Nat.zero_add] at hindex
    -- beyond the end the cursor stands at the end, where there is nothing either
    have hfound : (layout s).entryList[cursor.index]? = (layout s).entryList[i]? := by
      rcases Nat.lt_or_ge i (layout s).columns.size with hlt | hge
      · rw [hindex, Nat.min_eq_left (Nat.le_of_lt hlt)]
      · rw [List.getElem?_eq_none (by omega), List.getElem?_eq_none (by omega)]
    refine ⟨cursor, (layout s).entryList[i]?, behind, hafter, hindex, ?_, hfound ▸ hcall,
      Compressed.positionOf?_eq h i, ?_⟩
    · have hleft : (layout s).columns.size - min i (layout s).columns.size =
          (layout s).columns.size - i := by omega
      rw [remaining_eq h, hindex, hleft]
    · rw [List.getElem?_eq_none_iff, hlen]
  case rows => exact fun r hr => ⟨Compressed.row_eq h hr, Compressed.rowLength_eq h hr⟩
  case all =>
    intro n hn
    rw [take_initial h, List.take_of_length_le (by omega)]
  case total =>
    rw [Layout.entryList, List.length_flatMap, List.sum_eq_foldl]
    simp only [Layout.rowEntries, List.length_map, List.size_toArray]
    rfl

/-- Entries in two of five rows: the first, the third and the last row are empty. -/
def spaced : Layout := ⟨5, 4, #[0, 0, 2, 2, 3, 3], #[1, 3, 0], false⟩

theorem walk_in_order_spaced :
    spaced.check = .ok () ∧ entries spaced = .ok [(1, 1), (1, 3), (3, 0)] ∧
      (∃ cursor behind, after spaced 2 {} = .ok cursor ∧
        remaining spaced cursor = .ok (1, some 1) ∧
        call spaced cursor = .ok (some (3, 0), behind)) ∧
      ∃ cursor behind, after spaced 7 {} = .ok cursor ∧
        remaining spaced cursor = .ok (0, some 0) ∧
        call spaced cursor = .ok (none, behind) := by
  have hcheck : spaced.check = .ok () := by cbv
  have h : (layout spaced).WellFormed := Layout.check_eq_ok_iff.1 hcheck
  have hlist : (layout spaced).entryList = [(1, 1), (1, 3), (3, 0)] := by decide
  obtain ⟨count, hcount, hcalls, -⟩ := walk_in_order (s := spaced) hcheck
  obtain rfl : 3 = count := Except.ok.inj (Eq.trans rfl hcount)
  refine ⟨hcheck, (entries_eq h).trans (congrArg Except.ok hlist), ?_, ?_⟩
  · obtain ⟨cursor, found, behind, hafter, -, hremaining, hcall, hposition, -⟩ := hcalls 2
    have hthird : positionOf? spaced 2 = .ok (some (3, 0)) := by
      rw [Compressed.positionOf?_eq h, hlist]
      rfl
    obtain rfl := Except.ok.inj (hthird.symm.trans hposition)
    exact ⟨cursor, behind, hafter, hremaining, hcall⟩
  · obtain ⟨cursor, found, behind, hafter, -, hremaining, hcall, -, hnone⟩ := hcalls 7
    obtain rfl := hnone.2 (by decide)
    exact ⟨cursor, behind, hafter, hremaining, hcall⟩

end Cursor

end SparsePattern
