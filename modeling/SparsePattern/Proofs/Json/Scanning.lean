import SparsePattern.Proofs.Json.Grammar

/-!
# Scanning what is written

Each scanner takes the part that it is for off the front of a text, whatever follows: white space
(`skipBlank_append`), strings in any spelling (`scanString_of_spelled`), and decimal digits, if what
follows cannot belong to the number (`scanNumeral_digits`).
-/

namespace SparsePattern.Json

variable {text rest : List Char}

/-! ### White space -/

theorem isBlank_iff {c : Char} : isBlank c = true ↔ c = ' ' ∨ c = '\n' ∨ c = '\t' ∨ c = '\r' := by
  simp only [isBlank, Bool.or_eq_true, decide_eq_true_eq, or_assoc]

theorem skipBlank_append {blank : List Char} (hblank : Blank blank) :
    skipBlank (blank ++ text) = skipBlank text :=
  List.dropWhile_append_of_pos hblank

private theorem skipBlank_cons {c : Char} (hc : isBlank c = false) :
    skipBlank (c :: text) = c :: text := by
  rw [skipBlank, List.dropWhile_cons, hc]
  rfl

theorem skipBlank_of_blank (hblank : Blank text) : skipBlank text = [] := by
  have h : skipBlank (text ++ []) = [] := skipBlank_append hblank
  rwa [List.append_nil] at h

/-- White space is passed over up to the first other character. -/
theorem skipBlank_append_cons {blank : List Char} {c : Char} (hblank : Blank blank)
    (hc : isBlank c = false) : skipBlank (blank ++ c :: text) = c :: text := by
  rw [skipBlank_append hblank, skipBlank_cons hc]

theorem scanMark_append {blank : List Char} {mark : Char} (hblank : Blank blank)
    (hmark : isBlank mark = false) : scanMark mark (blank ++ mark :: text) = .ok text := by
  rw [scanMark, skipBlank_append_cons hblank hmark]
  exact if_pos rfl

theorem scanWord_append (word : List Char) : scanWord word (word ++ text) = .ok text := by
  induction word with
  | nil => rfl
  | cons w word ih =>
    rw [List.cons_append, scanWord, if_pos rfl]
    exact ih

/-! ### Strings -/

private theorem scanHex4_append {hex : List Char} {n : Nat} (h : Hex4 hex n) :
    scanHex4 (hex ++ text) = .ok (n, text) := by
  cases h with
  | mk ha hb hc hd => simp only [List.cons_append, List.nil_append, scanHex4, ha, hb, hc, hd]

private theorem scanUnicode_number {hex : List Char} {n : Nat} (h : Hex4 hex n)
    (hhigh : isHighSurrogate n = false) (hlow : isLowSurrogate n = false) :
    scanUnicode (hex ++ text) = .ok (Char.ofNat n, text) := by
  simp only [scanUnicode, scanHex4_append h, hhigh, hlow, Bool.false_eq_true, ↓reduceIte]

private theorem scanLowSurrogate_append {hex : List Char} {low : Nat} (h : Hex4 hex low)
    (hlow : isLowSurrogate low = true) :
    scanLowSurrogate ('\\' :: 'u' :: (hex ++ text)) = .ok (low, text) := by
  have hword : scanWord ['\\', 'u'] ('\\' :: 'u' :: (hex ++ text)) = .ok (hex ++ text) :=
    scanWord_append ['\\', 'u']
  simp only [scanLowSurrogate, hword, scanHex4_append h, hlow, ↓reduceIte]

/-- No number is both halves of a pair. -/
private theorem isLowSurrogate_of_high {n : Nat} (h : isHighSurrogate n = true) :
    isLowSurrogate n = false := by
  simp only [isHighSurrogate, isLowSurrogate, Bool.and_eq_true, Bool.and_eq_false_iff,
    decide_eq_true_eq, decide_eq_false_iff_not] at *
  omega

/-- Two halves of a pair make one character. -/
private theorem scanUnicode_pair {hex hex' : List Char} {high low : Nat} (h : Hex4 hex high)
    (h' : Hex4 hex' low) (hhigh : isHighSurrogate high = true) (hlow : isLowSurrogate low = true) :
    scanUnicode (hex ++ '\\' :: 'u' :: (hex' ++ text)) =
      .ok (Char.ofNat ((high - 0xD800) * 0x400 + (low - 0xDC00) + 0x10000), text) := by
  simp only [scanUnicode, scanHex4_append h, isLowSurrogate_of_high hhigh, hhigh,
    scanLowSurrogate_append h' hlow, Bool.false_eq_true, ↓reduceIte]

private theorem scanEscape_letter {e c : Char} (h : escaped? e = some c) :
    scanEscape (e :: text) = .ok (c, text) := by
  unfold scanEscape
  split
  case h_1 heq => cases heq
  case h_2 heq =>
    -- an escape by number has no letter of its own
    cases heq
    cases h
  case h_3 heq =>
    cases heq
    rw [h]

private theorem scanString_escape {c : Char} {cs rest' : List Char}
    (hescape : scanEscape text = .ok (c, rest)) (hrest : scanString rest = .ok (cs, rest')) :
    scanString ('\\' :: text) = .ok (c :: cs, rest') := by
  rw [scanString]
  split
  · rename_i h
    rw [hescape] at h
    cases h
  · rename_i h
    rw [hescape] at h
    cases h
    rw [hrest]

private theorem scanString_plain {c : Char} {cs : List Char} (hquote : c ≠ '"') (hslash : c ≠ '\\')
    (hcontrol : ¬ c < ' ') (h : scanString text = .ok (cs, rest)) :
    scanString (c :: text) = .ok (c :: cs, rest) := by
  rw [scanString, if_neg hcontrol, h]
  · exact hquote
  · exact hslash

/-- A string is read as what it spells, up to the closing quote. -/
theorem scanString_of_spelled {cs : List Char} (h : Spelled cs text) :
    scanString (text ++ '"' :: rest) = .ok (cs, rest) := by
  induction h with
  | nil => rw [List.nil_append, scanString]
  | plain hquote hslash hcontrol _ ih => exact scanString_plain hquote hslash hcontrol ih
  | letter hescape _ ih => exact scanString_escape (scanEscape_letter hescape) ih
  | number hhex hhigh hlow _ ih =>
    refine scanString_escape ?_ ih
    rw [List.append_eq, List.cons_append, List.append_assoc]
    exact scanUnicode_number hhex hhigh hlow
  | pair hhex hhex' hhigh hlow _ ih =>
    refine scanString_escape ?_ ih
    rw [List.append_eq, List.cons_append, List.append_assoc, List.cons_append, List.cons_append,
      List.append_assoc]
    exact scanUnicode_pair hhex hhex' hhigh hlow

/-! ### Decimal digits -/

/-- What follows a number cannot belong to it. -/
def Ends (text : List Char) : Prop :=
  ∀ c ∈ text.head?, c.isDigit = false ∧ c ≠ '.' ∧ c ≠ 'e' ∧ c ≠ 'E'

theorem isDigit_of_mem_digits {n : Nat} {c : Char} (hc : c ∈ Nat.toDigits 10 n) :
    c.isDigit = true :=
  Nat.isDigit_of_mem_toDigits (by decide) (by decide) hc

/-- A number has at least one digit. -/
theorem exists_digits (n : Nat) : ∃ c digits, Nat.toDigits 10 n = c :: digits :=
  List.exists_cons_of_ne_nil Nat.toDigits_ne_nil

/-- Only zero starts with a zero. -/
private theorem head?_digits_eq_zero {n : Nat} (h : (Nat.toDigits 10 n).head? = some '0') :
    n = 0 := by
  induction n using Nat.base_induction 10 (by decide) with
  | single d hd =>
    rw [Nat.toDigits_of_lt_base hd] at h
    exact Nat.digitChar_eq_zero.1 (Option.some.inj h)
  | digit m d hd hm ih =>
    obtain ⟨c, digits, hdigits⟩ := exists_digits m
    rw [← Nat.toDigits_append_toDigits (by decide) hm hd, hdigits] at h
    rw [hdigits] at ih
    exact absurd (ih h) (Nat.ne_of_gt hm)

private theorem scanDigits_append {c : Char} {digits : List Char} (hc : c.isDigit = true)
    (hdigits : ∀ d ∈ digits, d.isDigit = true) (hrest : Ends rest) :
    scanDigits (c :: (digits ++ rest)) = .ok (c :: digits, rest) := by
  have hstop : rest.takeWhile Char.isDigit = [] ∧ rest.dropWhile Char.isDigit = rest := by
    cases rest with
    | nil => exact ⟨rfl, rfl⟩
    | cons d rest =>
      obtain ⟨hd, -⟩ := hrest d rfl
      rw [List.takeWhile_cons, List.dropWhile_cons, hd]
      exact ⟨rfl, rfl⟩
  rw [scanDigits, if_pos hc, List.takeWhile_append_of_pos hdigits,
    List.dropWhile_append_of_pos hdigits, hstop.1, hstop.2, List.append_nil]

private theorem scanWhole_digits {n : Nat} (hrest : Ends rest) :
    scanWhole (Nat.toDigits 10 n ++ rest) = .ok (Nat.toDigits 10 n, rest) := by
  obtain ⟨c, digits, heq⟩ := exists_digits n
  have hdigit : ∀ d ∈ c :: digits, d.isDigit = true := by
    intro d hd
    rw [← heq] at hd
    exact isDigit_of_mem_digits hd
  have hscan := scanDigits_append (hdigit c List.mem_cons_self)
    (fun d hd => hdigit d (List.mem_cons_of_mem c hd)) hrest
  rw [heq, List.cons_append]
  unfold scanWhole
  split
  case h_1 d rest' htext =>
    -- a zero in front is all of the number
    obtain ⟨rfl, htail⟩ := List.cons.inj htext
    have hzero : n = 0 := head?_digits_eq_zero (by rw [heq]; rfl)
    rw [hzero, Nat.toDigits_zero] at heq
    obtain ⟨-, rfl⟩ := List.cons.inj heq
    rw [List.nil_append] at htail
    subst htail
    obtain ⟨hd, -⟩ := hrest d rfl
    rw [hd]
    rfl
  case h_2 => exact hscan

private theorem scanFraction_of_ends (hrest : Ends rest) : scanFraction rest = .ok ([], rest) := by
  unfold scanFraction
  split
  · exact absurd rfl (hrest '.' rfl).2.1
  · rfl

private theorem scanExponent_of_ends (hrest : Ends rest) :
    scanExponent rest = .ok (none, rest) := by
  cases rest with
  | nil => rfl
  | cons c rest =>
    obtain ⟨-, -, he⟩ := hrest c rfl
    rw [scanExponent, if_neg (not_or.2 he)]

private theorem scanSign_digits {n : Nat} :
    scanSign (Nat.toDigits 10 n ++ rest) = (false, Nat.toDigits 10 n ++ rest) := by
  unfold scanSign
  split
  · rename_i rest' htext
    have hmem : '-' ∈ Nat.toDigits 10 n := by
      obtain ⟨c, digits, heq⟩ := exists_digits n
      rw [heq, List.cons_append] at htext
      rw [heq, (List.cons.inj htext).1]
      exact List.mem_cons_self
    exact absurd (isDigit_of_mem_digits hmem) (by decide)
  · rfl

/-- The digits of a number are taken off as a whole, without sign, point or exponent. -/
theorem scanNumeral_digits {n : Nat} (hrest : Ends rest) : scanNumeral (Nat.toDigits 10 n ++ rest) =
    .ok ({ negative := false, whole := Nat.toDigits 10 n, fraction := [], exponent := none },
      rest) := by
  simp only [scanNumeral, scanSign_digits, scanWhole_digits hrest, scanFraction_of_ends hrest,
    scanExponent_of_ends hrest]

end SparsePattern.Json
