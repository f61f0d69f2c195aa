import SparsePattern.Json.Refusal

/-!
# Scanning JSON

The parts of a JSON text that have no structure: white space, words, numbers and strings.  Each
scanner takes its part off the front of the text and returns the rest.
-/

namespace SparsePattern.Json

/-- What a scanner of `α` finds at the front of a text, with the rest. -/
abbrev Scan (α : Type) := Except Refusal (α × List Char)

/-- The scan that finds `value` where it takes something off. -/
def giving {α : Type} (value : α) : Except Refusal (List Char) → Scan α
  | .ok rest => .ok (value, rest)
  | .error refusal => .error refusal

/-! ### White space and words -/

def isBlank (c : Char) : Bool := c = ' ' || c = '\n' || c = '\t' || c = '\r'

def skipBlank (text : List Char) : List Char := text.dropWhile isBlank

/-- Takes off the characters of `word`. -/
def scanWord : (word text : List Char) → Except Refusal (List Char)
  | [], text => .ok text
  | _ :: _, [] => .error .truncated
  | w :: word, c :: text => if c = w then scanWord word text else .error .malformed

/-- Takes off white space and then the character `mark`. -/
def scanMark (mark : Char) (text : List Char) : Except Refusal (List Char) :=
  match skipBlank text with
  | [] => .error .truncated
  | c :: text => if c = mark then .ok text else .error .malformed

/-! ### Numbers -/

/-- A number as it is written. -/
structure Numeral where
  negative : Bool
  whole : List Char
  /-- The digits after the point, none if there is no point. -/
  fraction : List Char
  /-- The sign and digits of the exponent. -/
  exponent : Option (Bool × List Char)
deriving DecidableEq, Repr

/-- One or more digits. -/
def scanDigits (text : List Char) : Scan (List Char) :=
  match text with
  | [] => .error .truncated
  | c :: rest =>
    if c.isDigit then .ok (c :: rest.takeWhile Char.isDigit, rest.dropWhile Char.isDigit)
    else .error .malformed

/-- The digits before the point: a lone zero, or digits that do not start with one. -/
def scanWhole (text : List Char) : Scan (List Char) :=
  match text with
  | '0' :: c :: rest => if c.isDigit then .error .malformed else .ok (['0'], c :: rest)
  | _ => scanDigits text

/-- The digits after a point, if one follows. -/
def scanFraction (text : List Char) : Scan (List Char) :=
  match text with
  | '.' :: rest => scanDigits rest
  | _ => .ok ([], text)

/-- The sign of an exponent, if one follows: whether it is a minus. -/
def scanExponentSign (text : List Char) : Bool × List Char :=
  match text with
  | '-' :: rest => (true, rest)
  | '+' :: rest => (false, rest)
  | _ => (false, text)

/-- The sign and digits of an exponent, if one follows. -/
def scanExponent (text : List Char) : Scan (Option (Bool × List Char)) :=
  match text with
  | c :: rest =>
    if c = 'e' ∨ c = 'E' then
      match scanDigits (scanExponentSign rest).2 with
      | .error refusal => .error refusal
      | .ok (digits, rest') => .ok (some ((scanExponentSign rest).1, digits), rest')
    else .ok (none, c :: rest)
  | [] => .ok (none, [])

/-- The sign of a number, if one follows: whether it is negative. -/
def scanSign (text : List Char) : Bool × List Char :=
  match text with
  | '-' :: rest => (true, rest)
  | _ => (false, text)

/-- A number, which may be negative. -/
def scanNumeral (text : List Char) : Scan Numeral :=
  match scanWhole (scanSign text).2 with
  | .error refusal => .error refusal
  | .ok (whole, text') =>
    match scanFraction text' with
    | .error refusal => .error refusal
    | .ok (fraction, text') =>
      match scanExponent text' with
      | .error refusal => .error refusal
      | .ok (exponent, text') =>
        .ok ({ negative := (scanSign text).1, whole, fraction, exponent }, text')

/-! ### Strings -/

/-- The value of a hexadecimal digit. -/
def hexValue? (c : Char) : Option Nat :=
  if c.isDigit then some (c.toNat - '0'.toNat)
  else if 'a' ≤ c ∧ c ≤ 'f' then some (c.toNat - 'a'.toNat + 10)
  else if 'A' ≤ c ∧ c ≤ 'F' then some (c.toNat - 'A'.toNat + 10)
  else none

/-- The bytes of a text. -/
def byteCount (text : List Char) : Nat := (String.ofList text).utf8ByteSize

/-- Four hexadecimal digits.  Other characters are malformed if four bytes remain at all. -/
def scanHex4 (text : List Char) : Scan Nat :=
  match text with
  | a :: b :: c :: d :: rest =>
    match hexValue? a, hexValue? b, hexValue? c, hexValue? d with
    | some a, some b, some c, some d => .ok (((a * 16 + b) * 16 + c) * 16 + d, rest)
    | _, _, _, _ => .error .malformed
  | _ => .error (if byteCount text < 4 then .truncated else .malformed)

/-- The character that an escape of one letter stands for. -/
def escaped? : Char → Option Char
  | '"' => some '"'
  | '\\' => some '\\'
  | '/' => some '/'
  | 'b' => some '\x08'
  | 'f' => some '\x0c'
  | 'n' => some '\n'
  | 'r' => some '\r'
  | 't' => some '\t'
  | _ => none

/-- The first and the second half of a surrogate pair. -/
def isHighSurrogate (n : Nat) : Bool := 0xD800 ≤ n && n < 0xDC00

@[inherit_doc isHighSurrogate]
def isLowSurrogate (n : Nat) : Bool := 0xDC00 ≤ n && n < 0xE000

/-- The second half of a surrogate pair, whose escape must follow the first at once. -/
def scanLowSurrogate (text : List Char) : Scan Nat :=
  match scanWord ['\\', 'u'] text with
  | .error refusal => .error refusal
  | .ok text =>
    match scanHex4 text with
    | .error refusal => .error refusal
    | .ok (low, text) => if isLowSurrogate low then .ok (low, text) else .error .malformed

/-- The character of an escape by number; surrogates have to come in pairs. -/
def scanUnicode (text : List Char) : Scan Char :=
  match scanHex4 text with
  | .error refusal => .error refusal
  | .ok (n, text) =>
    if isLowSurrogate n then .error .malformed
    else if isHighSurrogate n then
      match scanLowSurrogate text with
      | .error refusal => .error refusal
      | .ok (low, text) =>
        .ok (Char.ofNat ((n - 0xD800) * 0x400 + (low - 0xDC00) + 0x10000), text)
    else .ok (Char.ofNat n, text)

/-- The character of an escape, after its backslash. -/
def scanEscape (text : List Char) : Scan Char :=
  match text with
  | [] => .error .truncated
  | 'u' :: rest => scanUnicode rest
  | c :: rest =>
    match escaped? c with
    | some c => .ok (c, rest)
    | none => .error .malformed

/-- Takes off an escape of any kind, after its backslash; halves of surrogate pairs may stand
alone. -/
def skipEscape (text : List Char) : Except Refusal (List Char) :=
  match text with
  | [] => .error .truncated
  | 'u' :: rest =>
    match scanHex4 rest with
    | .ok (_, rest) => .ok rest
    | .error refusal => .error refusal
  | c :: rest => if (escaped? c).isSome then .ok rest else .error .malformed

/-! ### Every scanner takes something off -/

private theorem length_dropWhile_le (p : Char → Bool) (text : List Char) :
    (text.dropWhile p).length ≤ text.length := by
  induction text with
  | nil => simp
  | cons c text ih =>
    rw [List.dropWhile_cons]
    split
    · rw [List.length_cons]; omega
    · exact Nat.le_refl _

theorem length_skipBlank_le (text : List Char) : (skipBlank text).length ≤ text.length :=
  length_dropWhile_le _ _

/-- A word takes away exactly as many characters as it has. -/
theorem scanWord_length {word text rest : List Char} (h : scanWord word text = .ok rest) :
    rest.length + word.length = text.length := by
  induction word generalizing text with
  | nil =>
    rw [scanWord] at h
    injection h with h
    rw [h, List.length_nil, Nat.add_zero]
  | cons w word ih =>
    cases text with
    | nil => simp [scanWord] at h
    | cons c text =>
      rw [scanWord] at h
      split at h
      · simp only [List.length_cons, ← ih h]; omega
      · simp at h

/-- A mark takes away at least itself. -/
theorem scanMark_length {mark : Char} {text rest : List Char} (h : scanMark mark text = .ok rest) :
    rest.length < text.length := by
  have hle := length_skipBlank_le text
  unfold scanMark at h
  split at h
  · simp at h
  · rename_i heq
    rw [heq, List.length_cons] at hle
    split at h
    · simp only [Except.ok.injEq] at h
      rw [← h]; omega
    · simp at h

private theorem scanDigits_length {text digits rest : List Char}
    (h : scanDigits text = .ok (digits, rest)) : rest.length < text.length := by
  unfold scanDigits at h
  split at h
  · simp at h
  · rename_i c rest'
    have := length_dropWhile_le Char.isDigit rest'
    split at h
    · simp only [Except.ok.injEq, Prod.mk.injEq] at h
      rw [← h.2, List.length_cons]; omega
    · simp at h

private theorem scanWhole_length {text digits rest : List Char}
    (h : scanWhole text = .ok (digits, rest)) : rest.length < text.length := by
  unfold scanWhole at h
  split at h
  · split at h
    · simp at h
    · simp only [Except.ok.injEq, Prod.mk.injEq] at h
      rw [← h.2]; simp
  · exact scanDigits_length h

private theorem scanFraction_length {text digits rest : List Char}
    (h : scanFraction text = .ok (digits, rest)) : rest.length ≤ text.length := by
  unfold scanFraction at h
  split at h
  · have := scanDigits_length h
    rw [List.length_cons]; omega
  · simp only [Except.ok.injEq, Prod.mk.injEq] at h
    exact Nat.le_of_eq (by rw [h.2])

private theorem length_scanExponentSign_le (text : List Char) :
    (scanExponentSign text).2.length ≤ text.length := by
  unfold scanExponentSign
  split <;> simp

private theorem scanExponent_length {text rest : List Char} {exponent : Option (Bool × List Char)}
    (h : scanExponent text = .ok (exponent, rest)) : rest.length ≤ text.length := by
  unfold scanExponent at h
  split at h
  · rename_i c rest'
    split at h
    · have hle := length_scanExponentSign_le rest'
      split at h
      · simp at h
      · rename_i hd
        have := scanDigits_length hd
        simp only [Except.ok.injEq, Prod.mk.injEq] at h
        rw [← h.2, List.length_cons]; omega
    · simp only [Except.ok.injEq, Prod.mk.injEq] at h
      exact Nat.le_of_eq (by rw [← h.2])
  · simp only [Except.ok.injEq, Prod.mk.injEq] at h
    exact Nat.le_of_eq (by rw [← h.2])

private theorem length_scanSign_le (text : List Char) : (scanSign text).2.length ≤ text.length := by
  unfold scanSign
  split <;> simp

/-- A numeral has at least one digit. -/
theorem scanNumeral_length {text rest : List Char} {numeral : Numeral}
    (h : scanNumeral text = .ok (numeral, rest)) : rest.length < text.length := by
  have hs := length_scanSign_le text
  unfold scanNumeral at h
  split at h
  · simp at h
  · rename_i hw
    have hw := scanWhole_length hw
    split at h
    · simp at h
    · rename_i hf
      have hf := scanFraction_length hf
      split at h
      · simp at h
      · rename_i he
        have he := scanExponent_length he
        simp only [Except.ok.injEq, Prod.mk.injEq] at h
        rw [← h.2]; omega

private theorem scanHex4_length {text rest : List Char} {n : Nat}
    (h : scanHex4 text = .ok (n, rest)) : rest.length < text.length := by
  unfold scanHex4 at h
  split at h
  · split at h
    · simp only [Except.ok.injEq, Prod.mk.injEq] at h
      simp only [← h.2, List.length_cons]; omega
    · simp at h
  · simp at h

private theorem scanLowSurrogate_length {text rest : List Char} {n : Nat}
    (h : scanLowSurrogate text = .ok (n, rest)) : rest.length < text.length := by
  unfold scanLowSurrogate at h
  split at h
  · simp at h
  · rename_i hw
    have hw := scanWord_length hw
    split at h
    · simp at h
    · rename_i hx
      have hx := scanHex4_length hx
      split at h
      · simp only [Except.ok.injEq, Prod.mk.injEq] at h
        rw [← h.2]; omega
      · simp at h

private theorem scanUnicode_length {text rest : List Char} {c : Char}
    (h : scanUnicode text = .ok (c, rest)) : rest.length < text.length := by
  unfold scanUnicode at h
  split at h
  · simp at h
  · rename_i hx
    have hx := scanHex4_length hx
    split at h
    · simp at h
    · split at h
      · split at h
        · simp at h
        · rename_i hl
          have hl := scanLowSurrogate_length hl
          simp only [Except.ok.injEq, Prod.mk.injEq] at h
          rw [← h.2]; omega
      · simp only [Except.ok.injEq, Prod.mk.injEq] at h
        rw [← h.2]; omega

private theorem scanEscape_length {text rest : List Char} {c : Char}
    (h : scanEscape text = .ok (c, rest)) : rest.length < text.length := by
  unfold scanEscape at h
  split at h
  · simp at h
  · have := scanUnicode_length h
    rw [List.length_cons]; omega
  · split at h
    · simp only [Except.ok.injEq, Prod.mk.injEq] at h
      rw [← h.2]; simp
    · simp at h

private theorem skipEscape_length {text rest : List Char} (h : skipEscape text = .ok rest) :
    rest.length < text.length := by
  unfold skipEscape at h
  split at h
  · simp at h
  · split at h
    · rename_i hx
      have := scanHex4_length hx
      simp only [Except.ok.injEq] at h
      rw [← h, List.length_cons]; omega
    · simp at h
  · split at h
    · simp only [Except.ok.injEq] at h
      rw [h]; simp
    · simp at h

/-! ### Whole strings -/

/-- The characters of a string, after its opening quote. -/
def scanString (text : List Char) : Scan (List Char) :=
  match text with
  | [] => .error .truncated
  | '"' :: rest => .ok ([], rest)
  | '\\' :: rest =>
    match _h : scanEscape rest with
    | .error refusal => .error refusal
    | .ok (c, rest') =>
      match scanString rest' with
      | .error refusal => .error refusal
      | .ok (cs, rest) => .ok (c :: cs, rest)
  | c :: rest =>
    if c < ' ' then .error .malformed
    else
      match scanString rest with
      | .error refusal => .error refusal
      | .ok (cs, rest) => .ok (c :: cs, rest)
termination_by text.length
decreasing_by
  · have := scanEscape_length _h
    rw [List.length_cons]; omega
  · rw [List.length_cons]; omega

/-- Takes off a string, after its opening quote. -/
def skipString (text : List Char) : Except Refusal (List Char) :=
  match text with
  | [] => .error .truncated
  | '"' :: rest => .ok rest
  | '\\' :: rest =>
    match _h : skipEscape rest with
    | .error refusal => .error refusal
    | .ok rest' => skipString rest'
  | c :: rest => if c < ' ' then .error .malformed else skipString rest
termination_by text.length
decreasing_by
  · have := skipEscape_length _h
    rw [List.length_cons]; omega
  · rw [List.length_cons]; omega

/-- The closing quote is taken away at least. -/
theorem scanString_length {text cs rest : List Char} (h : scanString text = .ok (cs, rest)) :
    rest.length < text.length := by
  fun_induction scanString text generalizing cs rest with
  | case1 => simp at h
  | case2 => simp_all
  | case3 => simp at h
  | case4 => simp_all
  | case5 rest c rest' he cs' rest'' hs ih =>
    have := scanEscape_length he
    have := ih hs
    simp only [Except.ok.injEq, Prod.mk.injEq] at h
    rw [← h.2, List.length_cons]; omega
  | case6 => simp at h
  | case7 => simp_all
  | case8 c rest _ _ _ cs' rest' hs ih =>
    have := ih hs
    simp only [Except.ok.injEq, Prod.mk.injEq] at h
    rw [← h.2, List.length_cons]; omega

theorem skipString_length {text rest : List Char} (h : skipString text = .ok rest) :
    rest.length < text.length := by
  fun_induction skipString text generalizing rest with
  | case1 => simp at h
  | case2 => simp_all
  | case3 => simp at h
  | case4 rest rest' he ih =>
    have := skipEscape_length he
    have := ih h
    rw [List.length_cons]; omega
  | case5 => simp at h
  | case6 c rest _ _ _ ih =>
    have := ih h
    rw [List.length_cons]; omega

end SparsePattern.Json
