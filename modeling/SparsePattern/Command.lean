import SparsePattern.ImageFile
import SparsePattern.Stencil
import SparsePattern.Summary
import SparsePattern.Text.Lines

/-!
# Commands

What the command line asks for, and what it does: three commands show a pattern file, one writes the
file of a stencil.
-/

namespace SparsePattern

/-- A request from the command line. -/
inductive Command where
  /-- Shows the figures of a file, as JSON on demand. -/
  | info (path : String) (json : Bool)
  /-- Shows a line for plotting per entry. -/
  | points (path : String)
  /-- Shows a line per row. -/
  | rows (path : String)
  /-- Writes the stencil of a square grid. -/
  | stencil (width : Nat) (path : String)
deriving DecidableEq, Repr

namespace Command

/-! ### Reading arguments -/

/-- Arguments sorted into options and operands. -/
structure Words where
  options : List String := []
  operands : List String := []
deriving DecidableEq, Repr

/-- An option starts with a dash and is more than that. -/
def isOption (argument : String) : Bool :=
  match argument.toList with
  | '-' :: _ :: _ => true
  | _ => false

/-- Sorts arguments; after two dashes on their own all are operands. -/
def sortArguments : List String → Words
  | [] => {}
  | argument :: rest =>
    if argument = "--" then { operands := rest }
    else
      let words := sortArguments rest
      if isOption argument then { words with options := argument :: words.options }
      else { words with operands := argument :: words.operands }

/-- A number of cells: digits, with a plus in front if need be, and less than 2^64. -/
def width? (text : String) : Option Nat :=
  let digits : List Char :=
    match text.toList with
    | '+' :: rest => rest
    | chars => chars
  let n := digits.foldl (fun n c => 10 * n + (c.toNat - '0'.toNat)) 0
  if digits ≠ [] ∧ digits.all Char.isDigit = true ∧ n < sizeLimit then some n else none

/-- A path has at least one character. -/
def path? (text : String) : Option String := if text = "" then none else some text

/-- The command that arguments ask for, if they are in order.  Asking for help or for the version is
left out: such arguments count as not in order. -/
def parse : List String → Option Command
  | [] => none
  | name :: arguments =>
    let words := sortArguments arguments
    if name = "info" then
      match words with
      | ⟨[], [path]⟩ => (path? path).map (info · false)
      | ⟨["--json"], [path]⟩ => (path? path).map (info · true)
      | _ => none
    else if name = "gnuplot" then
      match words with
      | ⟨[], [path]⟩ => (path? path).map points
      | _ => none
    else if name = "print" then
      match words with
      | ⟨[], [path]⟩ => (path? path).map rows
      | _ => none
    else if name = "stencil" then
      match words with
      | ⟨[], [width, path]⟩ => do return stencil (← width? width) (← path? path)
      | _ => none
    else none

/-! ### Running -/

/-- The file that a command shows. -/
def input? : Command → Option String
  | info path _ | points path | rows path => some path
  | stencil .. => none

/-- The file that a command writes. -/
def output? : Command → Option String
  | info .. | points _ | rows _ => none
  | stencil _ path => some path

/-- Runs a command: the text that it shows, and the files afterwards. -/
def run (store : Store) : Command → Except Trouble (String × Store)
  | info path json => do
    let summary ← (Summary.of (← ImageFile.load store path).view).mapError .fault
    return ((if json then summary.toJson else summary.text) ++ "\n", store)
  | points path => do
    return (← (pointLines (← ImageFile.load store path).view).complete.mapError .fault, store)
  | rows path => do
    return (← (rowLines (← ImageFile.load store path).view).complete.mapError .fault, store)
  | stencil width path => do
    let p ← (Stencil.fivePoint width).mapError .fault
    return ("", ← ImageFile.write store path p)

/-! ### Ending -/

/-- The code for a command that succeeds. -/
def successCode : Nat := 0

/-- The code for a command that fails. -/
def failureCode : Nat := 1

/-- The code for arguments that are not in order. -/
def usageCode : Nat := 2

/-- What is left of a command that has ended. -/
structure Outcome where
  code : Nat
  /-- The text that it showed. -/
  text : String := ""
  /-- Why it failed. -/
  complaint : Option String := none
  /-- The files afterwards. -/
  store : Store

/-- Runs a command to its end: one that fails shows no text and leaves the files as they were. -/
def outcome (store : Store) (command : Command) : Outcome :=
  match command.run store with
  | .ok (text, after) => { code := successCode, text, store := after }
  | .error trouble => { code := failureCode, complaint := some trouble.message, store }

end Command

end SparsePattern
