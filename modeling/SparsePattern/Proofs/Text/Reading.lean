import SparsePattern.Proofs.Draft.Canonical
import SparsePattern.Proofs.Image.Sections
import SparsePattern.Proofs.Text.Lines
import SparsePattern.Text.Reading

/-!
# Lines that read back

The digits of a number hold none of the marks that stand between numbers and lines, so that a text
falls apart into the lines that it was made of (`Text.lines?_join`) and each line into its numbers
(`Text.row?_rowBody`, `Text.point?_pointBody`).  Patterns with the same text have the same columns
in each row, and thereby are the same (`Pattern.WellFormed.eq_of_rowLines_eq`,
`Pattern.WellFormed.eq_of_pointLines_eq`).
-/

namespace SparsePattern

namespace Text

/-! ### Numbers -/

/-- No mark is taken for a digit. -/
theorem not_mem_digits {mark : Char} (hmark : mark.isDigit = false) (n : Nat) :
    mark ∉ Nat.toDigits 10 n := by
  intro hmem
  rw [Nat.isDigit_of_mem_toDigits (by decide) (by decide) hmem] at hmark
  cases hmark

theorem all_isDigit_digits (n : Nat) : (Nat.toDigits 10 n).all Char.isDigit = true :=
  List.all_eq_true.2 fun _ hc => Nat.isDigit_of_mem_toDigits (by decide) (by decide) hc

private theorem natural?_digits (n : Nat) : natural? (Nat.toDigits 10 n) = some n := by
  rw [natural?, if_pos ⟨Nat.toDigits_ne_nil, all_isDigit_digits n⟩, Nat.ofDigitChars_ten_toDigits]

private theorem integer?_digits (n : Nat) : integer? (Nat.toDigits 10 n) = some (n : Int) := by
  unfold integer?
  split
  case h_1 digits htext =>
    exact absurd (htext ▸ List.mem_cons_self) (not_mem_digits (by decide : '-'.isDigit = false) n)
  case h_2 => rw [natural?_digits, Option.map_some]

/-- Zero has no sign. -/
private theorem toList_neg_toString (n : Nat) :
    (toString (-(n : Int))).toList = if n = 0 then ['0'] else '-' :: Nat.toDigits 10 n := by
  cases n with
  | zero => rfl
  | succ n =>
    rw [if_neg (Nat.succ_ne_zero n)]
    have h : toString (-((n + 1 : Nat) : Int)) = "-" ++ (n + 1).repr := rfl
    rw [h]
    simp

private theorem integer?_neg (n : Nat) :
    integer? (toString (-(n : Int))).toList = some (-(n : Int)) := by
  rw [toList_neg_toString]
  split
  · rename_i hn
    subst hn
    rfl
  · rw [integer?, natural?_digits, Option.map_some]

/-! ### Splitting -/

section Splitting

variable {mark : Char} {text : List Char}

private theorem splitOn_of_not_mem (h : mark ∉ text) : text.splitOn mark = [text] := by
  rw [List.splitOn_eq_splitOnP]
  refine List.splitOnP_eq_singleton fun c hc => ?_
  rw [beq_eq_false_iff_ne]
  rintro rfl
  exact h hc

private theorem splitOn_append_cons (h : mark ∉ text) (rest : List Char) :
    (text ++ mark :: rest).splitOn mark = text :: rest.splitOn mark := by
  have hsplit := List.splitOnP_append_cons (p := (· == mark)) text rest (beq_self_eq_true mark)
  simp only [← List.splitOn_eq_splitOnP, splitOn_of_not_mem h] at hsplit
  exact hsplit

/-- Texts that are ended by a mark each. -/
private theorem splitOn_flatMap_append {texts : List (List Char)}
    (h : ∀ text ∈ texts, mark ∉ text) :
    (texts.flatMap (· ++ [mark])).splitOn mark = texts ++ [[]] := by
  induction texts with
  | nil => exact splitOn_of_not_mem List.not_mem_nil
  | cons text texts ih =>
    obtain ⟨htext, htexts⟩ := List.forall_mem_cons.1 h
    rw [List.flatMap_cons, List.append_assoc, List.singleton_append, splitOn_append_cons htext,
      ih htexts]
    rfl

/-- Texts with a mark between them. -/
private theorem splitOn_append_flatMap {texts : List (List Char)} (htext : mark ∉ text)
    (h : ∀ text ∈ texts, mark ∉ text) :
    (text ++ texts.flatMap (mark :: ·)).splitOn mark = text :: texts := by
  induction texts generalizing text with
  | nil => rw [List.flatMap_nil, List.append_nil, splitOn_of_not_mem htext]
  | cons next texts ih =>
    obtain ⟨hnext, htexts⟩ := List.forall_mem_cons.1 h
    rw [List.flatMap_cons, List.cons_append, splitOn_append_cons htext, ih hnext htexts]

end Splitting

/-! ### Lines -/

/-- Texts that end in a break each are the lines of what they join to. -/
theorem lines?_join {pieces : List String} {lines : List (List Char)}
    (hbreak : ∀ line ∈ lines, '\n' ∉ line)
    (h : pieces.map String.toList = lines.map (· ++ ['\n'])) :
    lines? (String.join pieces) = some lines := by
  have htext : (String.join pieces).toList = lines.flatMap (· ++ ['\n']) := by
    rw [String.toList_join, List.flatMap_def, h, List.flatMap_def]
  simp only [lines?, htext, splitOn_flatMap_append hbreak, List.getLast?_concat, if_pos,
    List.dropLast_concat]

/-- The line of a row without its end. -/
def rowBody (row : Nat) (columns : List UInt32) : List Char :=
  '[' :: (Nat.toDigits 10 row ++
    (columns.map fun c => Nat.toDigits 10 c.toNat).flatMap (',' :: ·) ++ [']'])

/-- The line of an entry without its end. -/
def pointBody (row col : Nat) : List Char :=
  Nat.toDigits 10 col ++ ' ' :: (toString (-(row : Int))).toList

private theorem toList_rowLine (row : Nat) (columns : List UInt32) :
    (rowLine row columns).toList = rowBody row columns ++ ['\n'] := by
  have hcolumn (c : UInt32) : (toString c).toList = Nat.toDigits 10 c.toNat := Nat.toList_repr
  have hcomma : (toString ",").toList = [','] := rfl
  have hopen : (toString "[").toList = ['['] := rfl
  simp [rowLine, rowBody, String.toList_join, List.flatMap_map, hcolumn, hcomma, hopen]

private theorem toList_pointLine (row col : Nat) :
    (pointLine row col).toList = pointBody row col ++ ['\n'] := by
  have hblank : (toString " ").toList = [' '] := rfl
  have hbreak : (toString "\n").toList = ['\n'] := rfl
  simp [pointLine, pointBody, hblank, hbreak]

private theorem not_mem_neg_toString {mark : Char} (hmark : mark.isDigit = false)
    (hminus : mark ≠ '-') (n : Nat) : mark ∉ (toString (-(n : Int))).toList := by
  rw [toList_neg_toString]
  split
  · intro hmem
    obtain rfl := List.mem_singleton.1 hmem
    cases hmark
  · exact List.not_mem_cons_of_ne_of_not_mem hminus (not_mem_digits hmark n)

private theorem break_not_mem_rowBody (row : Nat) (columns : List UInt32) :
    '\n' ∉ rowBody row columns := by
  have hdigits (n : Nat) : '\n' ∉ Nat.toDigits 10 n := not_mem_digits (by decide) n
  simp [rowBody, hdigits]

private theorem break_not_mem_pointBody (row col : Nat) : '\n' ∉ pointBody row col := by
  have hdigits : '\n' ∉ Nat.toDigits 10 col := not_mem_digits (by decide) col
  have hneg : '\n' ∉ (toString (-(row : Int))).toList :=
    not_mem_neg_toString (by decide) (by decide) row
  rw [pointBody, List.mem_append, List.mem_cons]
  rintro (hcol | hblank | hrow)
  · exact hdigits hcol
  · cases hblank
  · exact hneg hrow

/-- The line of a row reads as its number and its columns. -/
theorem row?_rowBody (row : Nat) (columns : List UInt32) :
    row? (rowBody row columns) = some (row :: columns.map UInt32.toNat) := by
  have hcomma (n : Nat) : ',' ∉ Nat.toDigits 10 n := not_mem_digits (by decide) n
  have hcolumns : ∀ text ∈ columns.map fun c => Nat.toDigits 10 c.toNat, ',' ∉ text :=
    List.forall_mem_map.2 fun c _ => hcomma c.toNat
  have hnumbers : natural? ∘ Nat.toDigits 10 = pure := funext natural?_digits
  have hsplit : Nat.toDigits 10 row :: (columns.map fun c => Nat.toDigits 10 c.toNat) =
      (row :: columns.map UInt32.toNat).map (Nat.toDigits 10) := by
    rw [List.map_cons, List.map_map]
    rfl
  rw [rowBody, row?, List.getLast?_concat, if_pos rfl, List.dropLast_concat,
    splitOn_append_flatMap (hcomma row) hcolumns, hsplit, List.mapM_map, hnumbers]
  exact List.mapM_pure.trans (congrArg some (List.map_id' _))

/-- The line of an entry reads as its column and its row below zero. -/
theorem point?_pointBody (row col : Nat) :
    point? (pointBody row col) = some ((col : Int), -(row : Int)) := by
  have hsecond : ' ' ∉ (toString (-(row : Int))).toList :=
    not_mem_neg_toString (by decide) (by decide) row
  rw [point?, pointBody, splitOn_append_cons (not_mem_digits (by decide) col),
    splitOn_of_not_mem hsecond]
  simp only [integer?_digits, integer?_neg]
  rfl

end Text

open Compressed (layout nRows)

section Structures

variable {α : Type} [Compressed α] {s : α}

/-! ### Structures -/

theorem complete_rowLines (h : (layout s).WellFormed) :
    (rowLines s).complete = .ok (rowLines s).text := by
  rw [rowLines_eq h]
  rfl

private theorem lines?_rowLines (h : (layout s).WellFormed) :
    Text.lines? (rowLines s).text =
      some ((List.range (nRows s)).map fun r => Text.rowBody r ((layout s).rowList r)) := by
  rw [rowLines_eq h]
  refine Text.lines?_join (List.forall_mem_map.2 fun r _ => Text.break_not_mem_rowBody r _) ?_
  simp only [List.map_map, Function.comp_def, Text.toList_rowLine]

private theorem rows?_rowLines (h : (layout s).WellFormed) : Text.rows? (rowLines s).text =
    some ((List.range (nRows s)).map fun r => r :: ((layout s).rowList r).map UInt32.toNat) := by
  rw [Text.rows?, lines?_rowLines h]
  simp only [Option.bind_eq_bind, Option.bind_some, List.mapM_map, Function.comp_def,
    Text.row?_rowBody]
  exact List.mapM_pure

variable [LawfulCompressed α]

private theorem lines?_pointLines (h : (layout s).WellFormed) :
    Text.lines? (pointLines s).text =
      some ((layout s).entryList.map fun e => Text.pointBody e.1 e.2) := by
  rw [pointLines_eq h]
  refine Text.lines?_join (List.forall_mem_map.2 fun e _ => Text.break_not_mem_pointBody e.1 e.2) ?_
  simp only [List.map_map, Function.comp_def, Text.toList_pointLine]

theorem complete_pointLines (h : (layout s).WellFormed) :
    (pointLines s).complete = .ok (pointLines s).text := by
  rw [pointLines_eq h]
  rfl

private theorem points?_pointLines (h : (layout s).WellFormed) : Text.points? (pointLines s).text =
    some ((layout s).entryList.map fun e => ((e.2 : Int), -(e.1 : Int))) := by
  rw [Text.points?, lines?_pointLines h]
  simp only [Option.bind_eq_bind, Option.bind_some, List.mapM_map, Function.comp_def,
    Text.point?_pointBody]
  exact List.mapM_pure

end Structures

/-! ### Patterns -/

private theorem Layout.mem_entryList {l : Layout} {r : Nat} (hr : r < l.nRows) {c : UInt32} :
    (r, c.toNat) ∈ l.entryList ↔ c ∈ l.rowList r := by
  simp [entryList, rowEntries, UInt32.toNat_inj, hr]

namespace Pattern

variable {p q : Pattern}

/-- The lines of the rows leave only the number of columns and the policy open. -/
theorem WellFormed.eq_of_rowLines_eq (hp : p.WellFormed) (hq : q.WellFormed)
    (hcols : q.nCols = p.nCols) (hflag : q.diagonalFirst = p.diagonalFirst)
    (htext : (rowLines q).text = (rowLines p).text) : q = p := by
  have hlines := congrArg Text.rows? htext
  rw [rows?_rowLines hq.layout, rows?_rowLines hp.layout, Option.some.injEq] at hlines
  have hrows : nRows q = nRows p := by simpa using congrArg List.length hlines
  rw [hrows] at hlines
  refine hp.eq_of_mem_iff hq hrows hcols hflag fun r hr c => ?_
  have hline := List.map_inj_left.1 hlines r (List.mem_range.2 hr)
  have hcolumns : q.rowList r = p.rowList r :=
    List.map_injective_iff.2 (fun _ _ => UInt32.toNat_inj.1) (List.cons.inj hline).2
  rw [hcolumns]

/-- The points leave no more open than the shape and the policy: the order in a row follows from its
columns. -/
theorem WellFormed.eq_of_pointLines_eq (hp : p.WellFormed) (hq : q.WellFormed)
    (hrows : q.nRows = p.nRows) (hcols : q.nCols = p.nCols)
    (hflag : q.diagonalFirst = p.diagonalFirst)
    (htext : (pointLines q).text = (pointLines p).text) : q = p := by
  have hpoints := congrArg Text.points? htext
  rw [points?_pointLines hq.layout, points?_pointLines hp.layout, Option.some.injEq] at hpoints
  have hinjective : Function.Injective fun e : Nat × Nat => ((e.2 : Int), -(e.1 : Int)) := by
    rintro ⟨r, c⟩ ⟨r', c'⟩ heq
    obtain ⟨hcol, hrow⟩ := Prod.mk.inj heq
    rw [Prod.mk.injEq]
    omega
  have hentries : q.entryList = p.entryList := List.map_injective_iff.2 hinjective hpoints
  refine hp.eq_of_mem_iff hq hrows hcols hflag fun r hr c => ?_
  rw [← Layout.mem_entryList hr, ← Layout.mem_entryList (hrows.symm ▸ hr), hentries]

end Pattern

/-! ### Texts -/

/-- Each text of a structure is whole and falls into lines that tell the entries: a line per row
with its number and its columns as they are stored, a line per entry with its column and its row
below zero. -/
structure ReadsBack {α : Type} [Compressed α] (s : α) : Prop where
  rows : ∃ text lines,
    (rowLines s).complete = .ok text ∧ Text.lines? text = some lines ∧ lines.length = nRows s ∧
    ∀ r line, lines[r]? = some line → ∃ columns, Compressed.row s r = .ok columns ∧
      Text.row? line = some (r :: columns.toList.map UInt32.toNat)
  points : ∃ text lines, (pointLines s).complete = .ok text ∧ Text.lines? text = some lines ∧
    Compressed.entryCount s = .ok lines.length ∧
    ∀ index line, lines[index]? = some line →
      ∃ r c, Compressed.positionOf? s index = .ok (some (r, c)) ∧
        Text.point? line = some ((c : Int), -(r : Int))

/-- The text of a well-formed structure reads back line by line, so that patterns of one shape and
policy are told apart by their points, and by the lines of their rows even where the number of rows
is left open. -/
theorem lines_readBack :
    (∀ (α : Type) [Compressed α] [LawfulCompressed α] (s : α), (layout s).WellFormed →
      ReadsBack s) ∧
    (∀ p q : Pattern, p.WellFormed → q.WellFormed → q.nCols = p.nCols →
      q.diagonalFirst = p.diagonalFirst →
      (rowLines q).text = (rowLines p).text → q = p) ∧
    ∀ p q : Pattern, p.WellFormed → q.WellFormed → q.nRows = p.nRows → q.nCols = p.nCols →
      q.diagonalFirst = p.diagonalFirst → (pointLines q).text = (pointLines p).text → q = p := by
  refine ⟨fun α _ _ s h => ⟨?rows, ?points⟩, fun p q => Pattern.WellFormed.eq_of_rowLines_eq,
    fun p q => Pattern.WellFormed.eq_of_pointLines_eq⟩
  case rows =>
    refine ⟨_, _, complete_rowLines h, lines?_rowLines h, ?_, fun r line hline => ?_⟩
    · rw [List.length_map, List.length_range]
    · rw [List.getElem?_map, Option.map_eq_some_iff] at hline
      obtain ⟨r', hr, rfl⟩ := hline
      obtain ⟨hlt, rfl⟩ := List.getElem?_eq_some_iff.1 hr
      rw [List.length_range] at hlt
      rw [List.getElem_range]
      exact ⟨_, Compressed.row_eq h hlt, Text.row?_rowBody r _⟩
  case points =>
    refine ⟨_, _, complete_pointLines h, lines?_pointLines h, ?_, fun index line hline => ?_⟩
    · rw [List.length_map, h.length_entryList, LawfulCompressed.entryCount_eq h]
    · rw [List.getElem?_map, Option.map_eq_some_iff] at hline
      obtain ⟨⟨r, c⟩, he, rfl⟩ := hline
      refine ⟨r, c, ?_, Text.point?_pointBody r c⟩
      rw [Compressed.positionOf?_eq h, he]

/-- A pattern with two entries in its last row. -/
def broad : Pattern := ⟨⟨2, 3, #[0, 1, 3], #[2, 0, 1], false⟩, 2⟩

/-- The same but for the column of the last entry. -/
def broader : Pattern := ⟨⟨2, 3, #[0, 1, 3], #[2, 0, 2], false⟩, 2⟩

theorem lines_readBack_gapped :
    ReadsBack Compressed.gapped ∧
      (∃ q, Pattern.ofBytes Pattern.relocated = .ok q ∧
        (rowLines q).text = (rowLines Pattern.leading).text ∧ q = Pattern.leading) ∧
      (pointLines broader).text ≠ (pointLines broad).text := by
  obtain ⟨structures, rows, points⟩ := lines_readBack
  have hdecoded := Pattern.ofBytes_relocated
  have hcheck : Compressed.gapped.check = .ok () := by cbv
  refine ⟨structures _ Compressed.gapped (Layout.check_eq_ok_iff.1 hcheck),
    ⟨_, hdecoded, rfl, ?same⟩, ?other⟩
  case same => exact rows _ _ (by decide) (by decide) rfl rfl rfl
  case other =>
    intro htext
    exact absurd (points broad broader (by decide) (by decide) rfl rfl rfl htext) (by decide)

end SparsePattern
