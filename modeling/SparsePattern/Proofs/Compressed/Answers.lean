import SparsePattern.Proofs.Compressed.Faithful
import SparsePattern.Proofs.Image.File
import SparsePattern.Proofs.Session
import SparsePattern.Proofs.Text.Lines

/-!
# Structures that answer

`Compressed.Answers` says that no query reads past the arrays of a structure or takes more from a
number than it holds.  Faithful structures answer (`Faithful.answers`), and with them all patterns,
views and layouts that any check has let through (`answers_of_accepted`).
-/

namespace SparsePattern

namespace Compressed

variable {α : Type} [Compressed α] {s : α}

/-- Every query has an answer: a row if there is one, all else for any arguments.  After any number
of steps a cursor has left as many entries behind as there are so far, and it finds the next one in
a row of the structure or is at the end.  No text breaks off. -/
structure Answers (s : α) : Prop where
  row : ∀ r < nRows s, ∃ columns, row s r = .ok columns
  rowLength : ∀ r < nRows s, ∃ length, rowLength s r = .ok length
  rowOffset : ∀ r ≤ nRows s, ∃ start, rowOffset s r = .ok start
  checkedRow : ∀ r, (∃ columns, checkedRow s r = .ok columns) ∨
    checkedRow s r = .error (.rowOutOfRange r (nRows s))
  column? : ∀ r k, ∃ found, column? s r k = .ok found
  indexOf? : ∀ r c, ∃ found, indexOf? s r c = .ok found
  contains : ∀ r c, ∃ found, contains s r c = .ok found
  positionOf? : ∀ index, ∃ found, positionOf? s index = .ok found
  bandwidth : ∃ widest, bandwidth s = .ok widest
  longestRow : ∃ length, longestRow s = .ok length
  cursor : ∃ count, entryCount s = .ok count ∧ ∀ n, ∃ entries cursor,
    Cursor.take s n {} = .ok (entries, cursor) ∧ cursor.index = min n count ∧
      if n < count then
        ∃ r < nRows s, Cursor.seekRow s cursor.index cursor.row = .ok r ∧
          ∃ c, cursor.next s = .ok (some ((r, c), ⟨r, cursor.index + 1⟩))
      else cursor.next s = .ok none
  rowLines : (rowLines s).fault = none
  pointLines : (pointLines s).fault = none
  summary : ∃ figures, Summary.of s = .ok figures

variable [LawfulCompressed α]

/-- A faithful structure answers every query, in and out of its range. -/
theorem Faithful.answers (hs : Faithful s) : Answers s := by
  have h := hs.wellFormed
  have hindex (r c : Nat) := exists_indexOf? h r c
  constructor
  case row => exact fun r hr => ⟨_, row_eq h hr⟩
  case rowLength => exact fun r hr => ⟨_, rowLength_eq h hr⟩
  case rowOffset => exact fun r hr => ⟨_, rowOffset_eq h hr⟩
  case checkedRow =>
    intro r
    rw [checkedRow]
    split
    · rename_i hr
      exact .inl ⟨_, row_eq h hr⟩
    · exact .inr rfl
  case column? =>
    intro r k
    by_cases hr : r < nRows s
    · exact ⟨_, column?_eq h hr⟩
    · exact ⟨none, if_neg hr⟩
  case indexOf? => exact hindex
  case contains =>
    intro r c
    obtain ⟨found, hfound⟩ := hindex r c
    exact ⟨found.isSome, by rw [contains, hfound]; rfl⟩
  case positionOf? => exact fun index => ⟨_, positionOf?_eq h index⟩
  case bandwidth => exact ⟨_, bandwidth_eq h⟩
  case longestRow => exact ⟨_, hs.longestRow_eq⟩
  case cursor =>
    refine ⟨_, LawfulCompressed.entryCount_eq h, fun n => ?_⟩
    obtain ⟨cursor, htake, hplaced, hcount⟩ := Cursor.take_eq h (Cursor.Placed.initial h) n
    rw [Nat.zero_add] at hcount
    refine ⟨_, cursor, htake, hcount, ?_⟩
    split
    · have hlt : cursor.index < (layout s).columns.size := by omega
      obtain ⟨r, c, he⟩ := Layout.exists_entryAt h hlt
      have hrow := hplaced.row_le_of_entryAt h he
      exact ⟨r, he.row_lt, Cursor.seekRow_eq h he hrow, c, Cursor.next_of_entryAt h hplaced he⟩
    · exact Cursor.next_of_le h (by omega)
  case rowLines => rw [rowLines_eq h]
  case pointLines => rw [pointLines_eq h]
  case summary => exact ⟨_, hs.summary_eq⟩

/-- The view of an opened file is faithful, since it is that of bytes that passed the check. -/
theorem Faithful.of_file {store : Store} {path : String} {f : ImageFile}
    (h : ImageFile.load store path = .ok f) : Faithful f.view := by
  cases hread : store.read? path with
  | none =>
    rw [ImageFile.load, hread] at h
    cases h
  | some content =>
    have hv : View.ofBytes content 0 = .ok f.view := ImageFile.view_of_load hread h rfl
    exact of_view hv

/-- Everything that has passed a check answers: the patterns that calls can produce, views of images
and of files, and layouts. -/
theorem answers_of_accepted :
    (∀ calls, ∀ p ∈ (Session.run calls).patterns, Answers p) ∧
    (∀ bytes address v, View.ofBytes bytes address = .ok v → Answers v) ∧
    (∀ bytes address v, View.ofExactBytes bytes address = .ok v → Answers v) ∧
    (∀ store path f, ImageFile.load store path = .ok f → Answers f.view) ∧
    ∀ l : Layout, l.check = .ok () → Answers l := by
  refine ⟨?patterns, ?views, ?exactViews, ?files, ?layouts⟩
  case patterns => exact fun calls p hp =>
    (Faithful.of_pattern ((Session.wellFormed_run calls).patterns p hp)).answers
  case views | exactViews => exact fun bytes address v hv => (Faithful.of_view hv).answers
  case files => exact fun store path f hf => (Faithful.of_file hf).answers
  case layouts => exact fun l hl => (Faithful.of_check hl).answers

theorem answers_of_accepted_gapped :
    gapped.check = .ok () ∧ Answers gapped ∧
      Session.full ∈ (Session.run Session.mixed).patterns ∧ Answers Session.full ∧
      (∃ v, View.ofBytes Pattern.relocated 16 = .ok v ∧ Answers v) ∧
      (∃ v, View.ofExactBytes Pattern.leading.toBytes 16 = .ok v ∧ Answers v) ∧
      ∃ written f, ImageFile.write {} "leading" Pattern.leading = .ok written ∧
        ImageFile.load written "leading" = .ok f ∧ Answers f.view := by
  have hleading : Pattern.leading.WellFormed := by decide
  have hmemory : Pattern.leading.byteCount < Pattern.vectorLimit := by decide
  obtain ⟨patterns, views, exactViews, files, layouts⟩ := answers_of_accepted
  refine ⟨?check, layouts _ ?check, ?compressed, patterns Session.mixed _ ?compressed, ?view,
    ?exactView, ?file⟩
  case check => cbv
  case compressed =>
    have hrun : (Session.run Session.mixed).patterns = [Session.full, Session.full] := by cbv
    rw [hrun]
    exact List.mem_cons_self
  case view =>
    have haligned : 16 % Header.alignment = 0 := by decide
    obtain ⟨v, hv⟩ := View.exists_of_pattern Pattern.ofBytes_relocated haligned
    exact ⟨v, hv, views _ _ _ hv⟩
  case exactView =>
    obtain ⟨s, hs, -, hcheck, -⟩ :=
      Pattern.ofBytes_eq_ok_iff.1 (Pattern.ofBytes_toBytes_of_lt hleading hmemory)
    have hlen := hs.isBlock_iff.1 (Pattern.isBlock_toBytes hleading hmemory)
    have hv : View.ofExactBytes Pattern.leading.toBytes 16 = .ok (View.borrowed s) := by
      rw [View.ofExactBytes_eq hs hlen (by decide), hcheck, Rows.ok_bind]
    exact ⟨_, hv, exactViews _ _ _ hv⟩
  case file =>
    have hwrite : ImageFile.write {} "leading" Pattern.leading =
        .ok ⟨[("leading", Pattern.leading.toBytes)], _⟩ := rfl
    have hload := ImageFile.load_write hleading hmemory hwrite
    exact ⟨_, _, hwrite, hload, files _ _ _ hload⟩

end Compressed

end SparsePattern
