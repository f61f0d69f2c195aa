import SparsePattern.Proofs.Json.Scanning

/-!
# Reading what is written

A value that its shape admits is read from any text for it, with white space before and anything
behind that cannot belong to it (`Shape.read_written`).  Lists are read item by item: what follows
an item are the items behind it (`Items.next`).
-/

namespace SparsePattern.Json

variable {bound n : Nat} {ns : List Nat} {before after item text rest : List Char}

/-! ### Numbers -/

private theorem gather_of_lt {m : Nat} {digits : List Char}
    (h : Nat.ofDigitChars 10 digits m < digitsLimit) :
    gather m digits = (Nat.ofDigitChars 10 digits m, []) := by
  induction digits generalizing m with
  | nil => rfl
  | cons c digits ih =>
    rw [Nat.ofDigitChars_cons] at h ⊢
    -- the digits that follow make the number no smaller
    have hle : 10 * m + (c.toNat - '0'.toNat) ≤
        Nat.ofDigitChars 10 digits (10 * m + (c.toNat - '0'.toNat)) := by
      rw [Nat.ofDigitChars_eq_ofDigitChars_zero]
      exact Nat.le_add_right_of_le (Nat.le_mul_of_pos_left _ (Nat.pow_pos (by decide)))
    rw [gather, if_pos (Nat.lt_of_le_of_lt hle h), ih h]

private theorem value_digits (hn : n < digitsLimit) : Numeral.value
    { negative := false, whole := Nat.toDigits 10 n, fraction := [], exponent := none } =
      .ok (.natural n) := by
  have hdigits : Nat.ofDigitChars 10 (Nat.toDigits 10 n) 0 = n := Nat.ofDigitChars_ten_toDigits
  have hgather : gather 0 (Nat.toDigits 10 n) = (n, []) := by
    have h := gather_of_lt (hdigits.symm ▸ hn)
    rwa [hdigits] at h
  simp only [Numeral.value, hgather, and_self, Bool.false_eq_true, ↓reduceIte]

/-! ### First characters -/

/-- An item of a list starts with neither a blank nor the closing bracket. -/
def Opens (text : List Char) : Prop := ∃ c rest, text = c :: rest ∧ isBlank c = false ∧ c ≠ ']'

private theorem isBlank_of_isDigit {c : Char} (hc : c.isDigit = true) : isBlank c = false := by
  rw [Bool.eq_false_iff, ne_eq, isBlank_iff]
  rintro (rfl | rfl | rfl | rfl) <;> exact absurd hc (by decide)

private theorem opens_digits (n : Nat) : Opens (Nat.toDigits 10 n) := by
  obtain ⟨c, digits, heq⟩ := exists_digits n
  have hc : c.isDigit = true := isDigit_of_mem_digits (heq ▸ List.mem_cons_self)
  refine ⟨c, digits, heq, isBlank_of_isDigit hc, ?_⟩
  rintro rfl
  exact absurd hc (by decide)

private theorem Opens.skipBlank (h : Opens item) (hblank : Blank before) :
    skipBlank (before ++ (item ++ text)) = item ++ text := by
  obtain ⟨c, rest, rfl, hc, -⟩ := h
  exact skipBlank_append_cons hblank hc

private theorem readNumber_digits (hn : n < digitsLimit) (hblank : Blank before)
    (hrest : Ends rest) :
    readNumber (before ++ (Nat.toDigits 10 n ++ rest)) = .ok (.natural n, rest) := by
  have hstarts : startsNumber (Nat.toDigits 10 n ++ rest) = true := by
    obtain ⟨c, digits, heq⟩ := exists_digits n
    have hc : c.isDigit = true := isDigit_of_mem_digits (heq ▸ List.mem_cons_self)
    rw [heq, List.cons_append, startsNumber, hc, Bool.or_true]
  rw [readNumber, (opens_digits n).skipBlank hblank, if_pos hstarts, scanNumeral_digits hrest]
  simp only [value_digits hn]

private theorem readNatural_digits (hn : n < bound ∧ n < digitsLimit) (hblank : Blank before)
    (hrest : Ends rest) :
    readNatural bound (before ++ (Nat.toDigits 10 n ++ rest)) = .ok (n, rest) := by
  simp only [readNatural, readNumber_digits hn.2 hblank hrest, if_pos hn.1]

private theorem readFlag_word (b : Bool) (hblank : Blank before) :
    readFlag (before ++ ((if b then ['t', 'r', 'u', 'e'] else ['f', 'a', 'l', 's', 'e']) ++ rest)) =
      .ok (b, rest) := by
  rw [readFlag, skipBlank_append hblank]
  cases b with
  | true => exact congrArg (giving true) (scanWord_append ['r', 'u', 'e'])
  | false => exact congrArg (giving false) (scanWord_append ['a', 'l', 's', 'e'])

/-! ### Steps through a list -/

private theorem ends_append_cons {c : Char} (hblank : Blank before)
    (hc : c.isDigit = false ∧ c ≠ '.' ∧ c ≠ 'e' ∧ c ≠ 'E') : Ends (before ++ c :: text) := by
  intro d hd
  cases before with
  | nil =>
    obtain rfl := Option.some.inj hd
    exact hc
  | cons b before =>
    obtain rfl := Option.some.inj hd
    rcases isBlank_iff.1 (hblank b List.mem_cons_self) with rfl | rfl | rfl | rfl <;> decide

theorem closeList_append (hblank : Blank before) : closeList (before ++ ']' :: text) = .ok text :=
  scanMark_append hblank (by decide)

private theorem nextItem_end (first : Bool) (hblank : Blank before) :
    nextItem first (before ++ ']' :: text) = .ok none := by
  rw [nextItem, skipBlank_append_cons hblank (by decide)]
  rfl

namespace Items

variable {α : Type} {W : α → List Char → Prop} {first : Bool} {x : α} {xs : List α}

theorem blank (h : Items W first [] text) : Blank text := by
  cases h with
  | nil hblank => exact hblank

/-- An item ends where the next one or the closing bracket follows. -/
theorem ends (h : Items W false xs text) {mark : Char}
    (hmark : mark.isDigit = false ∧ mark ≠ '.' ∧ mark ≠ 'e' ∧ mark ≠ 'E') :
    Ends (text ++ mark :: rest) := by
  cases h with
  | nil hblank => exact ends_append_cons hblank hmark
  | later hbefore =>
    rw [List.append_assoc]
    exact ends_append_cons hbefore (by decide)

/-- The next item is found, and what follows it are the items behind it. -/
theorem next (hopens : ∀ x item, W x item → Opens item) (h : Items W first (x :: xs) text) :
    ∃ item text', W x item ∧ Items W false xs text' ∧
      ∀ rest, nextItem first (text ++ rest) = .ok (some (item ++ (text' ++ rest))) := by
  cases h with
  | first hbefore hitem h =>
    refine ⟨_, _, hitem, h, fun rest => ?_⟩
    have hopen := hopens _ _ hitem
    rw [List.append_assoc, List.append_assoc, nextItem, hopen.skipBlank hbefore]
    obtain ⟨c, item, rfl, -, hclose⟩ := hopen
    exact if_neg hclose
  | later hbefore hafter hitem h =>
    refine ⟨_, _, hitem, h, fun rest => ?_⟩
    have hopen := hopens _ _ hitem
    rw [List.append_assoc, List.cons_append, List.append_assoc, List.append_assoc, nextItem,
      skipBlank_append_cons hbefore (by decide)]
    simp only [hopen.skipBlank hafter]
    obtain ⟨c, item, rfl, -, hclose⟩ := hopen
    exact if_neg hclose

end Items

/-! ### Lists of numbers -/

/-- The next number of a list is read. -/
private theorem Items.nextNatural {first : Bool} (h : Items Digits first (n :: ns) text)
    (hn : n < bound ∧ n < digitsLimit) :
    ∃ item text', Items Digits false ns text' ∧ ∀ rest,
      nextItem first (text ++ ']' :: rest) = .ok (some (item ++ (text' ++ ']' :: rest))) ∧
        readNatural bound (item ++ (text' ++ ']' :: rest)) = .ok (n, text' ++ ']' :: rest) := by
  obtain ⟨item, text', rfl, h, hnext⟩ := h.next fun m item (hm : item = _) => hm ▸ opens_digits m
  refine ⟨_, text', h, fun rest => ⟨hnext _, ?_⟩⟩
  exact readNatural_digits hn Blank.nil (h.ends (by decide))

private theorem naturalsFrom_of_end {first : Bool} (h : nextItem first text = .ok none) :
    naturalsFrom bound first text = giving [] (closeList text) := by
  rw [naturalsFrom]
  split <;> simp_all

/-- A number of a list is read, then the rest of the list. -/
private theorem naturalsFrom_of_item {first : Bool} {rest' : List Char}
    (hitem : nextItem first text = .ok (some item)) (hread : readNatural bound item = .ok (n, rest))
    (hrest : naturalsFrom bound false rest = .ok (ns, rest')) :
    naturalsFrom bound first text = .ok (n :: ns, rest') := by
  rw [naturalsFrom]
  split
  · simp_all
  · simp_all
  · split <;> simp_all

/-- A list of numbers below the bound is read up to its closing bracket. -/
private theorem naturalsFrom_items {first : Bool} (h : Items Digits first ns text)
    (hns : ∀ n ∈ ns, n < bound ∧ n < digitsLimit) :
    naturalsFrom bound first (text ++ ']' :: rest) = .ok (ns, rest) := by
  induction ns generalizing first text with
  | nil =>
    have hend : nextItem first (text ++ ']' :: rest) = .ok none := nextItem_end first h.blank
    rw [naturalsFrom_of_end hend, closeList_append h.blank, giving]
  | cons n ns ih =>
    obtain ⟨hn, hns⟩ := List.forall_mem_cons.1 hns
    obtain ⟨item, text', h', hnext⟩ := h.nextNatural hn
    obtain ⟨hitem, hread⟩ := hnext rest
    exact naturalsFrom_of_item hitem hread (ih h' hns)

/-- So many numbers as are announced are read up to the closing bracket. -/
private theorem blockFrom_items {first : Bool} (h : Items Digits first ns text)
    (hns : ∀ n ∈ ns, n < bound ∧ n < digitsLimit) :
    blockFrom bound first ns.length (text ++ ']' :: rest) = .ok (ns, rest) := by
  induction ns generalizing first text with
  | nil => rw [List.length_nil, blockFrom, closeList_append h.blank, giving]
  | cons n ns ih =>
    obtain ⟨hn, hns⟩ := List.forall_mem_cons.1 hns
    obtain ⟨item, text', h', hnext⟩ := h.nextNatural hn
    obtain ⟨hitem, hread⟩ := hnext rest
    simp only [List.length_cons, blockFrom, hitem, hread, ih h' hns]

private theorem readList_append {items : List Char → Scan (List Nat)} (hblank : Blank before) :
    readList items (before ++ '[' :: text) = items text := by
  rw [readList, skipBlank_append_cons hblank (by decide)]
  rfl

private theorem readList_numbers {items : List Char → Scan (List Nat)} (h : Numbers ns item)
    (hblank : Blank before)
    (hitems : ∀ text, Items Digits true ns text → items (text ++ ']' :: rest) = .ok (ns, rest)) :
    readList items (before ++ (item ++ rest)) = .ok (ns, rest) := by
  obtain ⟨text, htext, rfl⟩ := h
  rw [List.cons_append, readList_append hblank, List.append_assoc]
  exact hitems text htext

/-! ### Values of any shape -/

namespace Shape

variable {shape : Shape} {value : shape.Value}

/-- No value starts with white space or with the bracket that closes a list. -/
theorem opens_written (h : shape.Written value text) : Opens text := by
  cases shape with
  | natural bound =>
    obtain rfl : text = Nat.toDigits 10 value := h
    exact opens_digits value
  | flag =>
    obtain rfl : text = if value then ['t', 'r', 'u', 'e'] else ['f', 'a', 'l', 's', 'e'] := h
    cases value <;> exact ⟨_, _, rfl, by decide, by decide⟩
  | real => cases h
  | naturals bound | block length bound =>
    obtain ⟨items, -, rfl⟩ := h
    exact ⟨'[', _, rfl, by decide, by decide⟩

/-- A value is read from every text of it, behind white space and before what ends it. -/
theorem read_written (h : shape.Written value text) (hadmits : shape.Admits value)
    (hblank : Blank before) (hrest : Ends rest) :
    shape.read (before ++ (text ++ rest)) = .ok (value, rest) := by
  cases shape with
  | natural bound =>
    obtain rfl : text = Nat.toDigits 10 value := h
    exact readNatural_digits hadmits hblank hrest
  | flag =>
    obtain rfl : text = if value then ['t', 'r', 'u', 'e'] else ['f', 'a', 'l', 's', 'e'] := h
    exact readFlag_word value hblank
  | real => cases h
  | naturals bound =>
    exact readList_numbers h hblank fun items hitems => naturalsFrom_items hitems hadmits
  | block length bound =>
    obtain ⟨hlength, hns⟩ := hadmits
    refine readList_numbers h hblank fun items hitems => ?_
    rw [← hlength]
    exact blockFrom_items hitems hns

end Shape

end SparsePattern.Json
