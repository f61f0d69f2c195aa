import SparsePattern.Json.Scan

/-!
# Skipping values

A value that nobody reads only has to be JSON: brackets may nest to any depth, numbers may have any
size, and halves of surrogate pairs may stand alone.
-/

namespace SparsePattern.Json

/-- The kinds of values with parts. -/
inductive Bracket where
  | list
  | object
deriving DecidableEq, Repr

def Bracket.closing : Bracket → Char
  | list => ']'
  | object => '\x7d'

/-- A place in a value with open brackets. -/
inductive Place where
  /-- A value has to come. -/
  | value
  /-- A bracket was just opened. -/
  | opened
  /-- A value was just finished. -/
  | finished
deriving DecidableEq, Repr

/-- Takes off a value without parts. -/
def skipScalar (text : List Char) : Except Refusal (List Char) :=
  match text with
  | [] => .error .truncated
  | 'n' :: rest => scanWord ['u', 'l', 'l'] rest
  | 't' :: rest => scanWord ['r', 'u', 'e'] rest
  | 'f' :: rest => scanWord ['a', 'l', 's', 'e'] rest
  | '"' :: rest => skipString rest
  | _ =>
    match scanNumeral text with
    | .ok (_, rest) => .ok rest
    | .error _ => .error .malformed

/-- Takes off a key and its colon. -/
def skipKey (text : List Char) : Except Refusal (List Char) :=
  match scanMark '"' text with
  | .error refusal => .error refusal
  | .ok text =>
    match skipString text with
    | .error refusal => .error refusal
    | .ok text => scanMark ':' text

/-- Takes off what precedes the value of an item. -/
def skipItem (bracket : Bracket) (text : List Char) : Except Refusal (List Char) :=
  match bracket with
  | .list => .ok text
  | .object => skipKey text

/-- The bracket that a value starts with, and the rest. -/
def opening? : List Char → Option (Bracket × List Char)
  | '[' :: rest => some (.list, rest)
  | '\x7b' :: rest => some (.object, rest)
  | _ => none

private theorem skipScalar_length {text rest : List Char} (h : skipScalar text = .ok rest) :
    rest.length < text.length := by
  unfold skipScalar at h
  split at h
  · simp at h
  · have := scanWord_length h
    rw [List.length_cons]; omega
  · have := scanWord_length h
    rw [List.length_cons]; omega
  · have := scanWord_length h
    rw [List.length_cons]; omega
  · have := skipString_length h
    rw [List.length_cons]; omega
  · split at h
    · rename_i hn
      have := scanNumeral_length hn
      simp only [Except.ok.injEq] at h
      rw [← h]; exact this
    · simp at h

private theorem skipKey_length {text rest : List Char} (h : skipKey text = .ok rest) :
    rest.length < text.length := by
  unfold skipKey at h
  split at h
  · simp at h
  · rename_i hq
    have := scanMark_length hq
    split at h
    · simp at h
    · rename_i hs
      have := skipString_length hs
      have := scanMark_length h
      omega

private theorem skipItem_length {bracket : Bracket} {text rest : List Char}
    (h : skipItem bracket text = .ok rest) : rest.length ≤ text.length := by
  unfold skipItem at h
  split at h
  · simp only [Except.ok.injEq] at h
    exact Nat.le_of_eq (by rw [h])
  · exact Nat.le_of_lt (skipKey_length h)

private theorem opening?_length {text rest : List Char} {bracket : Bracket}
    (h : opening? text = some (bracket, rest)) : rest.length < text.length := by
  unfold opening? at h
  split at h <;> simp_all

/-- What is left to do at a place, where the text does not tell. -/
def Place.rank : Place → Nat
  | value => 0
  | opened => 1
  | finished => 0

/-- Takes off the rest of a value with these open brackets, innermost first. -/
def skipFrom (place : Place) (brackets : List Bracket) (text : List Char) :
    Except Refusal (List Char) :=
  match place, brackets with
  | .value, brackets =>
    match _hopen : opening? (skipBlank text) with
    | some (bracket, rest) => skipFrom .opened (bracket :: brackets) rest
    | none =>
      match _hscalar : skipScalar (skipBlank text) with
      | .error refusal => .error refusal
      | .ok rest => skipFrom .finished brackets rest
  | _, [] => .ok text
  | .opened, bracket :: brackets =>
    match _hblank : skipBlank text with
    | [] => .error .truncated
    | c :: rest =>
      if c = bracket.closing then skipFrom .finished brackets rest
      else
        match _hitem : skipItem bracket text with
        | .error refusal => .error refusal
        | .ok rest => skipFrom .value (bracket :: brackets) rest
  | .finished, bracket :: brackets =>
    match _hblank : skipBlank text with
    | [] => .error .truncated
    | c :: rest =>
      if c = bracket.closing then skipFrom .finished brackets rest
      else if c = ',' then
        match _hitem : skipItem bracket rest with
        | .error refusal => .error refusal
        | .ok rest => skipFrom .value (bracket :: brackets) rest
      else .error .malformed
termination_by (text.length, place.rank)
decreasing_by
  all_goals
    have hb := length_skipBlank_le text
    simp only [Prod.lex_def, Place.rank]
  · have := opening?_length _hopen
    omega
  · have := skipScalar_length _hscalar
    omega
  · rw [_hblank, List.length_cons] at hb
    omega
  · have := skipItem_length _hitem
    omega
  · rw [_hblank, List.length_cons] at hb
    omega
  · have := skipItem_length _hitem
    rw [_hblank, List.length_cons] at hb
    omega

private theorem skipFrom_length {place : Place} {brackets : List Bracket} {text rest : List Char}
    (h : skipFrom place brackets text = .ok rest) : rest.length ≤ text.length := by
  fun_induction skipFrom place brackets text generalizing rest with
  | case1 text brackets bracket rest' hopen ih =>
    have := length_skipBlank_le text
    have := opening?_length hopen
    have := ih h
    omega
  | case3 text brackets hopen rest' hscalar ih =>
    have := length_skipBlank_le text
    have := skipScalar_length hscalar
    have := ih h
    omega
  | case4 place text =>
    simp only [Except.ok.injEq] at h
    exact Nat.le_of_eq (by rw [h])
  | case6 text bracket brackets rest' hblank ih =>
    have hb := length_skipBlank_le text
    have := ih h
    rw [hblank, List.length_cons] at hb
    omega
  | case8 text bracket brackets c rest' hblank hc rest'' hitem ih =>
    have := skipItem_length hitem
    have := ih h
    omega
  | case10 text bracket brackets rest' hblank ih =>
    have hb := length_skipBlank_le text
    have := ih h
    rw [hblank, List.length_cons] at hb
    omega
  | case12 text bracket brackets rest' rest'' hitem hblank hc ih =>
    have hb := length_skipBlank_le text
    have := skipItem_length hitem
    have := ih h
    rw [hblank, List.length_cons] at hb
    omega
  | _ => simp at h

/-- Takes off one value. -/
def skipValue (text : List Char) : Except Refusal (List Char) := skipFrom .value [] text

theorem skipValue_length {text rest : List Char} (h : skipValue text = .ok rest) :
    rest.length ≤ text.length := skipFrom_length h

end SparsePattern.Json
