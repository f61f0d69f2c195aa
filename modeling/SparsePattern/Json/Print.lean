import SparsePattern.Decimal.Shortest
import SparsePattern.Json.Record

/-!
# Printing records

A record is printed as an object with its fields in order: on one line without blanks, or a line for
each field.
-/

namespace SparsePattern.Json

/-- The text of `digits · 10 ^ exponent`: positional if the leading digit stands for at least 10^-5
and less than 10^16, otherwise with an exponent that shows its sign.  Positional texts always have a
point. -/
def scientificText (s : Decimal.Scientific) : String :=
  let digits := (toString s.digits).toList
  let lead := s.leadingExponent
  let zeros (n : Int) := List.replicate n.toNat '0'
  String.ofList <|
    if -5 ≤ lead ∧ lead < 16 then
      if 0 ≤ s.exponent then digits ++ zeros s.exponent ++ ['.', '0']
      else if 0 ≤ lead then
        digits.take (lead.toNat + 1) ++ ['.'] ++ digits.drop (lead.toNat + 1)
      else ['0', '.'] ++ zeros (-lead - 1) ++ digits
    else
      digits.take 1 ++ (if digits.length = 1 then [] else '.' :: digits.drop 1) ++ ['e'] ++
        (if lead < 0 then '-' else '+') :: (toString lead.natAbs).toList

/-- The text of a real number: its shortest decimal. -/
def realText (x : Float) : String :=
  let b := Decimal.Binary.ofFloat x
  b.signed (if b.mantissa = 0 then "0.0" else scientificText b.shortest)

/-- The text of a list of natural numbers. -/
def naturalsText (ns : List Nat) : String := "[" ++ ",".intercalate (ns.map toString) ++ "]"

/-- The text of a value. -/
def Shape.text : (shape : Shape) → shape.Value → String
  | natural _, n => toString (n : Nat)
  | flag, b => if b then "true" else "false"
  | real, x => realText x
  | naturals _, ns => naturalsText ns
  | block _ _, ns => naturalsText ns

/-- How the fields of an object are set apart. -/
structure Style where
  /-- What precedes each field. -/
  lead : String
  /-- What follows the last field. -/
  close : String
  /-- What stands between a name and its value. -/
  colon : String
deriving DecidableEq, Repr

/-- All on one line, without blanks. -/
def Style.compact : Style := { lead := "", close := "", colon := ":" }

/-- A line for each field, two blanks in. -/
def Style.lines : Style := { lead := "\n  ", close := "\n", colon := ": " }

/-- The texts of the fields. -/
def Record.fieldTexts (style : Style) : (fields : List Field) → Record fields → List String
  | [], () => []
  | field :: fields, (value, others) =>
    (style.lead ++ "\"" ++ field.name ++ "\"" ++ style.colon ++ field.shape.text value) ::
      fieldTexts style fields others

/-- The text of a record. -/
def Record.text (style : Style) (fields : List Field) (record : Record fields) : String :=
  "\x7b" ++ ",".intercalate (fieldTexts style fields record) ++ style.close ++ "\x7d"

end SparsePattern.Json
