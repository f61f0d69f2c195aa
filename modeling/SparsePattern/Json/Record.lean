import SparsePattern.Json.Shape
import SparsePattern.Json.Skip

/-!
# Records

A record is a value with named fields in a fixed order.  It is read from an object, with the fields
in any order and others among them, or from a list of the fields in their order.  Each field must
come once: a second time is refused as soon as its name is read, a missing one at the end of the
object.
-/

namespace SparsePattern.Json

/-- A named part of a record. -/
structure Field where
  name : String
  shape : Shape
deriving DecidableEq, Repr

/-- The records with these fields. -/
abbrev Record : List Field → Type
  | [] => Unit
  | field :: fields => field.shape.Value × Record fields

/-- Records of which some fields are missing. -/
abbrev Partial : List Field → Type
  | [] => Unit
  | field :: fields => Option field.shape.Value × Partial fields

/-- The record of which every field is missing. -/
def Partial.blank : (fields : List Field) → Partial fields
  | [] => ()
  | _ :: fields => (none, blank fields)

/-- The record, once no field is missing. -/
def Partial.complete? : {fields : List Field} → Partial fields → Option (Record fields)
  | [], () => some ()
  | _ :: _, (value, rest) => do return (← value, ← complete? rest)

/-! ### From a list -/

/-- The fields in their order, to the end of the list. -/
def listFrom (first : Bool) : (fields : List Field) → (text : List Char) → Scan (Record fields)
  | [], text => giving () (closeList text)
  | field :: fields, text =>
    match nextItem first text with
    | .error refusal => .error refusal
    | .ok none => .error .mismatch
    | .ok (some item) =>
      match field.shape.read item with
      | .error refusal => .error refusal
      | .ok (value, rest) =>
        match listFrom false fields rest with
        | .error refusal => .error refusal
        | .ok (record, rest) => .ok ((value, record), rest)

/-! ### From an object -/

/-- The text after the opening quote of the next key of an object, nothing where the object
closes. -/
def nextKey (first : Bool) (text : List Char) : Except Refusal (Option (List Char)) :=
  match skipBlank text with
  | [] => .error .truncated
  | c :: rest =>
    if c = '\x7d' then .ok none
    else if first then if c = '"' then .ok (some rest) else .error .malformed
    else if c = ',' then
      match scanMark '"' rest with
      | .error refusal => .error refusal
      | .ok rest => .ok (some rest)
    else .error .malformed

/-- Reads the value of the field `key`, after the name; values of other fields are skipped. -/
def readEntry (key : String) :
    (fields : List Field) → Partial fields → List Char → Scan (Partial fields)
  | [], (), text =>
    match scanMark ':' text with
    | .error refusal => .error refusal
    | .ok rest => giving () (skipValue rest)
  | field :: fields, (value, others), text =>
    if field.name = key then
      if value.isSome then .error .mismatch
      else
        match scanMark ':' text with
        | .error refusal => .error refusal
        | .ok rest =>
          match field.shape.read rest with
          | .error refusal => .error refusal
          | .ok (value, rest) => .ok ((some value, others), rest)
    else
      match readEntry key fields others text with
      | .error refusal => .error refusal
      | .ok (others, rest) => .ok ((value, others), rest)

private theorem nextKey_length {first : Bool} {text key : List Char}
    (h : nextKey first text = .ok (some key)) : key.length < text.length := by
  have hb := length_skipBlank_le text
  unfold nextKey at h
  split at h
  · simp at h
  · rename_i c rest heq
    rw [heq, List.length_cons] at hb
    split at h
    · simp at h
    · split at h
      · split at h
        · simp only [Except.ok.injEq, Option.some.injEq] at h
          rw [← h]; omega
        · simp at h
      · split at h
        · split at h
          · simp at h
          · rename_i hm
            have := scanMark_length hm
            simp only [Except.ok.injEq, Option.some.injEq] at h
            rw [← h]; omega
        · simp at h

private theorem readEntry_length {key : String} {fields : List Field} {given taken : Partial fields}
    {text rest : List Char} (h : readEntry key fields given text = .ok (taken, rest)) :
    rest.length ≤ text.length := by
  induction fields generalizing rest with
  | nil =>
    simp only [readEntry] at h
    split at h
    · simp at h
    · rename_i hm
      have := scanMark_length hm
      have := skipValue_length (giving_eq_ok.1 h).1
      omega
  | cons field fields ih =>
    obtain ⟨value, others⟩ := given
    rw [readEntry] at h
    split at h
    · split at h
      · simp at h
      · split at h
        · simp at h
        · rename_i hm
          have := scanMark_length hm
          split at h
          · simp at h
          · rename_i hr
            have := Shape.read_length hr
            simp only [Except.ok.injEq, Prod.mk.injEq] at h
            rw [← h.2]; omega
    · split at h
      · simp at h
      · rename_i hr
        have := ih hr
        simp only [Except.ok.injEq, Prod.mk.injEq] at h
        rw [← h.2]; exact this

/-- The fields still missing, to the end of the object. -/
def objectFrom (fields : List Field) (given : Partial fields) (first : Bool) (text : List Char) :
    Scan (Record fields) :=
  match _hkey : nextKey first text with
  | .error refusal => .error refusal
  | .ok none =>
    match given.complete? with
    | none => .error .mismatch
    | some record => giving record (scanMark '\x7d' text)
  | .ok (some rest) =>
    match _hname : scanString rest with
    | .error refusal => .error refusal
    | .ok (key, rest) =>
      match _hentry : readEntry (String.ofList key) fields given rest with
      | .error refusal => .error refusal
      | .ok (given, rest) => objectFrom fields given false rest
termination_by text.length
decreasing_by
  have := nextKey_length _hkey
  have := scanString_length _hname
  have := readEntry_length _hentry
  omega

/-! ### Whole texts -/

/-- The record at the front of a text. -/
def readRecord (fields : List Field) (text : List Char) : Scan (Record fields) :=
  match skipBlank text with
  | '[' :: rest => listFrom true fields rest
  | '\x7b' :: rest => objectFrom fields (.blank fields) true rest
  | text => .error (wrongKind text)

/-- Reads a text that holds one record and builds a value from it; only then comes what follows the
record, which must be blank. -/
def parse {α : Type} (fields : List Field) (build : Record fields → Except Fault α)
    (text : String) : Except Refusal α :=
  match readRecord fields text.toList with
  | .error refusal => .error refusal
  | .ok (record, rest) =>
    match build record with
    | .error fault => .error (.invalid fault)
    | .ok value => if skipBlank rest = [] then .ok value else .error .malformed

end SparsePattern.Json
