import SparsePattern.Json.Number

/-!
# Shapes of values

What a field of a record holds, and how it is read.  The first thing wrong decides: a value of
another kind is refused once it is known to be one, which for words, numbers and strings takes
reading it.
-/

namespace SparsePattern.Json

/-- What a field holds. -/
inductive Shape where
  /-- A natural number below `bound`. -/
  | natural (bound : Nat)
  | flag
  | real
  /-- A list of natural numbers below `bound`. -/
  | naturals (bound : Nat)
  /-- A list of exactly `length` natural numbers below `bound`. -/
  | block (length bound : Nat)
deriving DecidableEq, Repr

/-- The values of a shape. -/
abbrev Shape.Value : Shape → Type
  | natural _ => Nat
  | flag => Bool
  | real => Float
  | naturals _ => List Nat
  | block _ _ => List Nat

/-! ### Values of another kind -/

/-- The refusal of a value of another kind, once what was read of it has turned out well. -/
def Refusal.after {α : Type} : Except Refusal α → Refusal
  | .error refusal => refusal
  | .ok _ => .mismatch

/-- Why a value of another kind is refused. -/
def wrongKind (text : List Char) : Refusal :=
  match text with
  | [] => .truncated
  | 'n' :: rest => .after (scanWord ['u', 'l', 'l'] rest)
  | 't' :: rest => .after (scanWord ['r', 'u', 'e'] rest)
  | 'f' :: rest => .after (scanWord ['a', 'l', 's', 'e'] rest)
  | '"' :: rest => .after (scanString rest)
  | '[' :: _ => .mismatch
  | '\x7b' :: _ => .mismatch
  | _ => .after do (← scanNumeral text).1.value

/-! ### Single values -/

/-- Whether a number follows. -/
def startsNumber : List Char → Bool
  | c :: _ => c = '-' || c.isDigit
  | [] => false

/-- A number of either kind. -/
def readNumber (text : List Char) : Scan Number :=
  if startsNumber (skipBlank text) then
    match scanNumeral (skipBlank text) with
    | .error refusal => .error refusal
    | .ok (numeral, rest) =>
      match numeral.value with
      | .error refusal => .error refusal
      | .ok number => .ok (number, rest)
  else .error (wrongKind (skipBlank text))

/-- A natural number below `bound`. -/
def readNatural (bound : Nat) (text : List Char) : Scan Nat :=
  match readNumber text with
  | .error refusal => .error refusal
  | .ok (.natural n, rest) => if n < bound then .ok (n, rest) else .error .mismatch
  | .ok (.real _, _) => .error .mismatch

/-- A number as a real one. -/
def readReal (text : List Char) : Scan Float :=
  match readNumber text with
  | .error refusal => .error refusal
  | .ok (.natural n, rest) => .ok (n.toUInt64.toFloat, rest)
  | .ok (.real x, rest) => .ok (x, rest)

/-- One of the words `true` and `false`. -/
def readFlag (text : List Char) : Scan Bool :=
  match skipBlank text with
  | 't' :: rest => giving true (scanWord ['r', 'u', 'e'] rest)
  | 'f' :: rest => giving false (scanWord ['a', 'l', 's', 'e'] rest)
  | text => .error (wrongKind text)

/-! ### Lists -/

/-- The text from the next item of a list on, nothing where the list closes. -/
def nextItem (first : Bool) (text : List Char) : Except Refusal (Option (List Char)) :=
  match skipBlank text with
  | [] => .error .truncated
  | c :: rest =>
    if c = ']' then .ok none
    else if first then .ok (some (c :: rest))
    else if c = ',' then
      match skipBlank rest with
      | [] => .error .truncated
      | d :: rest => if d = ']' then .error .malformed else .ok (some (d :: rest))
    else .error .malformed

/-- Takes off the end of a list. -/
def closeList (text : List Char) : Except Refusal (List Char) := scanMark ']' text

private theorem readNumber_length {text rest : List Char} {number : Number}
    (h : readNumber text = .ok (number, rest)) : rest.length < text.length := by
  have hb := length_skipBlank_le text
  unfold readNumber at h
  split at h
  · split at h
    · simp at h
    · rename_i hn
      have := scanNumeral_length hn
      split at h
      · simp at h
      · simp only [Except.ok.injEq, Prod.mk.injEq] at h
        rw [← h.2]; omega
  · simp at h

private theorem readNatural_length {bound n : Nat} {text rest : List Char}
    (h : readNatural bound text = .ok (n, rest)) : rest.length < text.length := by
  unfold readNatural at h
  split at h
  · simp at h
  · rename_i hn
    have := readNumber_length hn
    split at h
    · simp only [Except.ok.injEq, Prod.mk.injEq] at h
      rw [← h.2]; exact this
    · simp at h
  · simp at h

private theorem nextItem_length {first : Bool} {text item : List Char}
    (h : nextItem first text = .ok (some item)) : item.length ≤ text.length := by
  have hb := length_skipBlank_le text
  unfold nextItem at h
  split at h
  · simp at h
  · rename_i c rest heq
    rw [heq, List.length_cons] at hb
    have hb' := length_skipBlank_le rest
    split at h
    · simp at h
    · split at h
      · simp only [Except.ok.injEq, Option.some.injEq] at h
        rw [← h, List.length_cons]; exact hb
      · split at h
        · split at h
          · simp at h
          · rename_i heq'
            rw [heq', List.length_cons] at hb'
            split at h
            · simp at h
            · simp only [Except.ok.injEq, Option.some.injEq] at h
              rw [← h, List.length_cons]; omega
        · simp at h

/-- The natural numbers of a list, to its end. -/
def naturalsFrom (bound : Nat) (first : Bool) (text : List Char) : Scan (List Nat) :=
  match _hitem : nextItem first text with
  | .error refusal => .error refusal
  | .ok none => giving [] (closeList text)
  | .ok (some item) =>
    match _hread : readNatural bound item with
    | .error refusal => .error refusal
    | .ok (n, rest) =>
      match naturalsFrom bound false rest with
      | .error refusal => .error refusal
      | .ok (ns, rest) => .ok (n :: ns, rest)
termination_by text.length
decreasing_by
  have := nextItem_length _hitem
  have := readNatural_length _hread
  omega

/-- Exactly `count` natural numbers, to the end of their list. -/
def blockFrom (bound : Nat) (first : Bool) : (count : Nat) → (text : List Char) → Scan (List Nat)
  | 0, text => giving [] (closeList text)
  | count + 1, text =>
    match nextItem first text with
    | .error refusal => .error refusal
    | .ok none => .error .mismatch
    | .ok (some item) =>
      match readNatural bound item with
      | .error refusal => .error refusal
      | .ok (n, rest) =>
        match blockFrom bound false count rest with
        | .error refusal => .error refusal
        | .ok (ns, rest) => .ok (n :: ns, rest)

/-- A list, read by `items` after its bracket. -/
def readList (items : List Char → Scan (List Nat)) (text : List Char) : Scan (List Nat) :=
  match skipBlank text with
  | '[' :: rest => items rest
  | text => .error (wrongKind text)

/-- Reads a value of the shape. -/
def Shape.read : (shape : Shape) → List Char → Scan shape.Value
  | natural bound, text => readNatural bound text
  | flag, text => readFlag text
  | real, text => readReal text
  | naturals bound, text => readList (naturalsFrom bound true) text
  | block length bound, text => readList (blockFrom bound true length) text

/-! ### Reading takes something off -/

/-- A value that depends on no text comes with what the scan leaves. -/
theorem giving_eq_ok {α : Type} {value v : α} {scan : Except Refusal (List Char)}
    {rest : List Char} : giving value scan = .ok (v, rest) ↔ scan = .ok rest ∧ v = value := by
  cases scan with
  | error refusal => simp [giving]
  | ok r => simp [giving, and_comm, eq_comm]

private theorem readReal_length {text rest : List Char} {x : Float}
    (h : readReal text = .ok (x, rest)) : rest.length < text.length := by
  unfold readReal at h
  split at h
  · simp at h
  · rename_i hn
    simp only [Except.ok.injEq, Prod.mk.injEq] at h
    rw [← h.2]; exact readNumber_length hn
  · rename_i hn
    simp only [Except.ok.injEq, Prod.mk.injEq] at h
    rw [← h.2]; exact readNumber_length hn

private theorem readFlag_length {text rest : List Char} {b : Bool}
    (h : readFlag text = .ok (b, rest)) : rest.length < text.length := by
  have hb := length_skipBlank_le text
  unfold readFlag at h
  split at h
  · rename_i heq
    have := scanWord_length (giving_eq_ok.1 h).1
    rw [heq, List.length_cons] at hb
    omega
  · rename_i heq
    have := scanWord_length (giving_eq_ok.1 h).1
    rw [heq, List.length_cons] at hb
    omega
  · simp at h

private theorem naturalsFrom_length {bound : Nat} {first : Bool} {text rest : List Char}
    {ns : List Nat} (h : naturalsFrom bound first text = .ok (ns, rest)) :
    rest.length < text.length := by
  fun_induction naturalsFrom bound first text generalizing ns rest with
  | case2 => exact scanMark_length (giving_eq_ok.1 h).1
  | case5 first text item hitem n rest' hread ns' rest'' hrest ih =>
    have := nextItem_length hitem
    have := readNatural_length hread
    have := ih hrest
    simp only [Except.ok.injEq, Prod.mk.injEq] at h
    rw [← h.2]; omega
  | _ => simp at h

private theorem blockFrom_length {bound count : Nat} {first : Bool} {text rest : List Char}
    {ns : List Nat} (h : blockFrom bound first count text = .ok (ns, rest)) :
    rest.length < text.length := by
  fun_induction blockFrom bound first count text generalizing ns rest with
  | case1 => exact scanMark_length (giving_eq_ok.1 h).1
  | case6 first count text item hitem n rest' hread ns' rest'' hrest ih =>
    have := nextItem_length hitem
    have := readNatural_length hread
    have := ih hrest
    simp only [Except.ok.injEq, Prod.mk.injEq] at h
    rw [← h.2]; omega
  | _ => simp at h

private theorem readList_length {items : List Char → Scan (List Nat)} {text rest : List Char}
    {ns : List Nat}
    (hitems : ∀ {text rest ns}, items text = .ok (ns, rest) → rest.length < text.length)
    (h : readList items text = .ok (ns, rest)) : rest.length < text.length := by
  have hb := length_skipBlank_le text
  unfold readList at h
  split at h
  · rename_i heq
    have := hitems h
    rw [heq, List.length_cons] at hb
    omega
  · simp at h

/-- A value of any shape takes away at least one character. -/
theorem Shape.read_length {shape : Shape} {text rest : List Char} {value : shape.Value}
    (h : shape.read text = .ok (value, rest)) : rest.length < text.length := by
  cases shape with
  | natural bound => exact readNatural_length h
  | flag => exact readFlag_length h
  | real => exact readReal_length h
  | naturals bound => exact readList_length naturalsFrom_length h
  | block length bound => exact readList_length blockFrom_length h

end SparsePattern.Json
