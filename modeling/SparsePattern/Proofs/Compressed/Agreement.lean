import SparsePattern.Proofs.Compressed.Answers

/-!
# Structures that agree

`Compressed.Agree` says that no query tells two structures apart.  Faithful structures of one layout
agree, whatever each of them keeps at hand (`Faithful.agree`): so do the view of an image, the
pattern that is decoded from the same bytes and the layout of its arrays (`View.queries_agree`).
-/

namespace SparsePattern

namespace Compressed

variable {α β : Type} [Compressed α] [Compressed β]

/-- All queries have the same results, refusals included, and any number of steps gives the same
entries. -/
structure Agree (s : α) (t : β) : Prop where
  nRows : nRows s = nRows t
  nCols : nCols s = nCols t
  isEmpty : isEmpty s = isEmpty t
  entryCount : entryCount s = entryCount t
  longestRow : longestRow s = longestRow t
  bandwidth : bandwidth s = bandwidth t
  row : ∀ r, row s r = row t r
  rowLength : ∀ r, rowLength s r = rowLength t r
  rowOffset : ∀ r, rowOffset s r = rowOffset t r
  checkedRow : ∀ r, checkedRow s r = checkedRow t r
  column? : ∀ r k, column? s r k = column? t r k
  indexOf? : ∀ r c, indexOf? s r c = indexOf? t r c
  contains : ∀ r c, contains s r c = contains t r c
  positionOf? : ∀ index, positionOf? s index = positionOf? t index
  entries : Cursor.entries s = Cursor.entries t
  steps : ∀ n, (·.1) <$> Cursor.take s n {} = (·.1) <$> Cursor.take t n {}

variable [LawfulCompressed α] [LawfulCompressed β] {s : α} {t : β}

/-- Of two faithful structures with one layout no query can tell which is which. -/
theorem Faithful.agree (hs : Faithful s) (ht : Faithful t) (h : layout s = layout t) :
    Agree s t := by
  have hswf := hs.wellFormed
  have htwf := ht.wellFormed
  -- a query that asks for no number at hand is that of the layout
  constructor
  case nRows => exact congrArg Layout.nRows h
  case nCols => exact congrArg Layout.nCols h
  case isEmpty => exact congrArg Compressed.isEmpty h
  case bandwidth => exact congrArg Compressed.bandwidth h
  case row => exact fun r => congrArg (·.row r) h
  case rowLength => exact fun r => congrArg (·.rowLength r) h
  case rowOffset => exact fun r => congrArg (·.offset r) h
  case checkedRow => exact fun r => congrArg (Compressed.checkedRow · r) h
  case column? => exact fun r k => congrArg (Compressed.column? · r k) h
  case indexOf? => exact fun r c => congrArg (Compressed.indexOf? · r c) h
  case contains => exact fun r c => congrArg (Compressed.contains · r c) h
  case entryCount =>
    rw [LawfulCompressed.entryCount_eq hswf, LawfulCompressed.entryCount_eq htwf, h]
  case longestRow => rw [hs.longestRow_eq, ht.longestRow_eq, h]
  case positionOf? =>
    intro index
    rw [positionOf?_eq hswf, positionOf?_eq htwf, h]
  case entries => rw [Cursor.entries_eq hswf, Cursor.entries_eq htwf, h]
  case steps =>
    intro n
    rw [Cursor.take_initial hswf, Cursor.take_initial htwf, h]

end Compressed

namespace View

open Compressed (Agree Answers Faithful)

/-- The view of an image and the pattern that is decoded from it have the same arrays. -/
theorem layout_eq_of_ofBytes {bytes : Bytes} {address : Nat} {v : View} {p : Pattern}
    (hv : ofBytes bytes address = .ok v) (hp : Pattern.ofBytes bytes = .ok p) :
    v.layout = p.toLayout := by
  obtain ⟨-, s, hs, -, rfl⟩ := ofBytes_eq_ok_iff.1 hv
  obtain ⟨s', hs', -, -, rfl⟩ := Pattern.ofBytes_eq_ok_iff.1 hp
  -- there is one way to split the bytes
  have hsame : s = s' :=
    Except.ok.inj ((Sections.ofBytes_eq_ok_iff.2 hs).symm.trans (Sections.ofBytes_eq_ok_iff.2 hs'))
  rw [hsame]
  rfl

/-- The view of an image answers like the pattern that is decoded from the same bytes, and like the
layout of its arrays, which has nothing at hand.  The bound is that of any stretch of memory. -/
theorem queries_agree {bytes : Bytes} {address : Nat} {v : View}
    (hv : ofBytes bytes address = .ok v) :
    (bytes.length < Pattern.vectorLimit → ∃ p, Pattern.ofBytes bytes = .ok p) ∧
      ∀ p, Pattern.ofBytes bytes = .ok p → Answers v ∧ Agree v p ∧ Agree v p.toLayout := by
  constructor
  · intro hmemory
    obtain ⟨-, s, hs, hcheck, -⟩ := ofBytes_eq_ok_iff.1 hv
    exact ⟨_, Pattern.ofBytes_eq_ok_iff.2 ⟨s, hs, hs.fits hmemory, hcheck, rfl⟩⟩
  · intro p hp
    have hwf := Pattern.wellFormed_ofBytes hp
    have hview : Faithful v := .of_view hv
    have hpattern : Faithful p := .of_pattern hwf
    have hlayout : Faithful p.toLayout := .of_check (Layout.check_eq_ok_iff.2 hwf.layout)
    have hsame := layout_eq_of_ofBytes hv hp
    exact ⟨hview.answers, hview.agree hpattern hsame, hview.agree hlayout hsame⟩

theorem queries_agree_relocated :
    ∃ v, ofBytes Pattern.relocated 16 = .ok v ∧ Pattern.relocated.length < Pattern.vectorLimit ∧
      Pattern.ofBytes Pattern.relocated = .ok Pattern.leading ∧ Answers v ∧
      Agree v Pattern.leading ∧ Agree v Pattern.leading.toLayout := by
  have hpattern := Pattern.ofBytes_relocated
  have haligned : 16 % Header.alignment = 0 := by decide
  obtain ⟨v, hv⟩ := exists_of_pattern hpattern haligned
  exact ⟨v, hv, by decide +kernel, hpattern, (queries_agree hv).2 _ hpattern⟩

end View

end SparsePattern
