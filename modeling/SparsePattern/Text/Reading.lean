/-!
# Reading text back

The lines of a text, and the numbers on a line: in brackets with commas between them, or two with a
blank between them.  A text or line of any other form is refused.
-/

namespace SparsePattern.Text

/-! ### Numbers -/

/-- The number that decimal digits spell. -/
def natural? (text : List Char) : Option Nat :=
  if text ≠ [] ∧ text.all Char.isDigit = true then some (Nat.ofDigitChars 10 text 0) else none

/-- The number that decimal digits spell, negated if a minus stands in front. -/
def integer? : List Char → Option Int
  | '-' :: digits => (natural? digits).map fun n : Nat => -(n : Int)
  | digits => (natural? digits).map fun n : Nat => (n : Int)

/-! ### Lines -/

/-- The lines of a text, if each of them is ended. -/
def lines? (text : String) : Option (List (List Char)) :=
  let pieces := text.toList.splitOn '\n'
  if pieces.getLast? = some [] then some pieces.dropLast else none

/-- The numbers on a line between brackets, with commas between them. -/
def row? : List Char → Option (List Nat)
  | '[' :: rest =>
    if rest.getLast? = some ']' then (rest.dropLast.splitOn ',').mapM natural? else none
  | _ => none

/-- The two numbers on a line, with a blank between them. -/
def point? (line : List Char) : Option (Int × Int) :=
  match line.splitOn ' ' with
  | [first, second] => do return (← integer? first, ← integer? second)
  | _ => none

/-! ### Texts -/

/-- The numbers on each line of a text of rows. -/
def rows? (text : String) : Option (List (List Nat)) := do (← lines? text).mapM row?

/-- The two numbers on each line of a text of points. -/
def points? (text : String) : Option (List (Int × Int)) := do (← lines? text).mapM point?

end SparsePattern.Text
