import SparsePattern.Json.Record

/-!
# How records are written

The texts that hold a record (`Record.WrittenIn`): a list of its values in the order of the fields,
or an object with the fields in any order, with white space wherever the rules of JSON allow it and
names spelled with or without escapes.  Numbers are their decimal digits.  Real numbers, which have
many spellings, are left out.
-/

namespace SparsePattern.Json

/-- White space only. -/
def Blank (text : List Char) : Prop := ∀ c ∈ text, isBlank c = true

-- searched for, the instance may be one that goes through all characters there are
instance (text : List Char) : Decidable (Blank text) := List.decidableBAll (isBlank · = true) text

theorem Blank.nil : Blank [] := fun _ hc => absurd hc List.not_mem_nil

/-! ### Strings -/

/-- Four hexadecimal digits and the number that they spell. -/
inductive Hex4 : List Char → Nat → Prop where
  | mk {a b c d : Char} {i j k l : Nat} (ha : hexValue? a = some i) (hb : hexValue? b = some j)
      (hc : hexValue? c = some k) (hd : hexValue? d = some l) :
      Hex4 [a, b, c, d] (((i * 16 + j) * 16 + k) * 16 + l)

/-- Characters and a text between quotes that stands for them. -/
inductive Spelled : List Char → List Char → Prop where
  | nil : Spelled [] []
  | plain {c : Char} {cs text : List Char} (hquote : c ≠ '"') (hslash : c ≠ '\\')
      (hcontrol : ¬ c < ' ') (h : Spelled cs text) : Spelled (c :: cs) (c :: text)
  | letter {e c : Char} {cs text : List Char} (hescape : escaped? e = some c)
      (h : Spelled cs text) :
      Spelled (c :: cs) ('\\' :: e :: text)
  | number {hex cs text : List Char} {n : Nat} (hhex : Hex4 hex n)
      (hhigh : isHighSurrogate n = false) (hlow : isLowSurrogate n = false)
      (h : Spelled cs text) :
      Spelled (Char.ofNat n :: cs) ('\\' :: 'u' :: (hex ++ text))
  | pair {hex hex' cs text : List Char} {high low : Nat} (hhex : Hex4 hex high)
      (hhex' : Hex4 hex' low) (hhigh : isHighSurrogate high = true)
      (hlow : isLowSurrogate low = true) (h : Spelled cs text) :
      Spelled (Char.ofNat ((high - 0xD800) * 0x400 + (low - 0xDC00) + 0x10000) :: cs)
        ('\\' :: 'u' :: (hex ++ '\\' :: 'u' :: (hex' ++ text)))

/-! ### Items -/

/-- Items set apart by commas, with a text for each; either all items between two brackets or those
behind the first. -/
inductive Items {α : Type} (Written : α → List Char → Prop) :
    (first : Bool) → List α → List Char → Prop where
  | nil {first : Bool} {blank : List Char} (hblank : Blank blank) : Items Written first [] blank
  | first {x : α} {xs : List α} {before item text : List Char} (hbefore : Blank before)
      (hitem : Written x item) (h : Items Written false xs text) :
      Items Written true (x :: xs) (before ++ (item ++ text))
  | later {x : α} {xs : List α} {before after item text : List Char} (hbefore : Blank before)
      (hafter : Blank after) (hitem : Written x item) (h : Items Written false xs text) :
      Items Written false (x :: xs) (before ++ ',' :: (after ++ (item ++ text)))

/-! ### Values -/

/-- The decimal digits of a number. -/
def Digits (n : Nat) (text : List Char) : Prop := text = Nat.toDigits 10 n

/-- The numbers as a list. -/
def Numbers (ns : List Nat) (text : List Char) : Prop :=
  ∃ items, Items Digits true ns items ∧ text = '[' :: (items ++ [']'])

namespace Shape

/-- A value and a text for it. -/
def Written : (shape : Shape) → shape.Value → List Char → Prop
  | natural _, n, text => Digits n text
  | flag, b, text => text = if b then ['t', 'r', 'u', 'e'] else ['f', 'a', 'l', 's', 'e']
  | real, _, _ => False
  | naturals _, ns, text => Numbers ns text
  | block _ _, ns, text => Numbers ns text

/-- The value is one that the shape allows. -/
def Admits : (shape : Shape) → shape.Value → Prop
  | natural bound, n => n < bound ∧ n < digitsLimit
  | flag, _ => True
  | real, _ => True
  | naturals bound, ns => ∀ n ∈ ns, n < bound ∧ n < digitsLimit
  | block length bound, ns => ns.length = length ∧ ∀ n ∈ ns, n < bound ∧ n < digitsLimit

end Shape

/-! ### Records -/

/-- A field with its value. -/
abbrev Entry : Type := (field : Field) × field.shape.Value

namespace Entry

/-- The value of a field and a text for it. -/
def ValueWritten (entry : Entry) (text : List Char) : Prop := entry.1.shape.Written entry.2 text

/-- A field with its value and a text for both. -/
inductive Written (entry : Entry) : List Char → Prop where
  | mk {name before after value : List Char} (hname : Spelled entry.1.name.toList name)
      (hbefore : Blank before) (hafter : Blank after) (hvalue : entry.ValueWritten value) :
      Written entry ('"' :: (name ++ '"' :: (before ++ ':' :: (after ++ value))))

/-- The value is one that the field allows. -/
def Admitted (entry : Entry) : Prop := entry.1.shape.Admits entry.2

end Entry

namespace Record

/-- The fields of a record with their values, in order. -/
def entries : {fields : List Field} → Record fields → List Entry
  | [], () => []
  | field :: _, (value, others) => ⟨field, value⟩ :: entries others

variable {fields : List Field} {record : Record fields}

/-- The entries of a record come in the order of its fields. -/
theorem map_fst_entries (record : Record fields) : (entries record).map Sigma.fst = fields := by
  induction fields with
  | nil => rfl
  | cons field fields ih =>
    obtain ⟨value, others⟩ := record
    rw [entries, List.map_cons, ih others]

theorem fst_mem_of_mem_entries {entry : Entry} (h : entry ∈ entries record) : entry.1 ∈ fields := by
  rw [← map_fst_entries record]
  exact List.mem_map_of_mem h

/-- A record and a text for it, from bracket to bracket. -/
inductive Written (record : Record fields) : List Char → Prop where
  | list {items : List Char} (h : Items Entry.ValueWritten true (entries record) items) :
      Written record ('[' :: (items ++ [']']))
  | object {listed : List Entry} {items : List Char} (hperm : listed.Perm (entries record))
      (h : Items Entry.Written true listed items) : Written record ('\x7b' :: (items ++ ['\x7d']))

/-- The text holds the record, and nothing else but white space. -/
def WrittenIn (record : Record fields) (text : String) : Prop :=
  ∃ before body after,
    Blank before ∧ Written record body ∧ Blank after ∧ text.toList = before ++ (body ++ after)

/-- Every value is one that its field allows. -/
def Admitted (record : Record fields) : Prop := ∀ entry ∈ entries record, entry.Admitted

end Record

end SparsePattern.Json
