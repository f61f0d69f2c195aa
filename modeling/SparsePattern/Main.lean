import SparsePattern.Command

/-!
# The command line

Hands the arguments and the file that they name to `Command.outcome`, shows its text or its
complaint, and writes the file that it leaves.
-/

open SparsePattern

/-- Why a file cannot be used. -/
private def trouble : IO.Error → Trouble
  | .noFileOrDirectory .. => .noSuchFile
  | error => .io error.toString

/-- Shows why a command failed. -/
private def complain (complaint : String) : IO Unit := IO.eprintln s!"error: {complaint}"

/-- The files that a command needs to see. -/
private def loadStore (command : Command) : IO Store := do
  match command.input? with
  | none => return {}
  | some path =>
    let content ← IO.FS.readBinFile path
    return { files := [(path, content.toList)] }

/-- Runs a command on the files of the system. -/
private def perform (command : Command) : IO UInt32 := do
  let outcome := command.outcome (← loadStore command)
  IO.print outcome.text
  if let some complaint := outcome.complaint then complain complaint
  if let some path := command.output? then
    if let some content := outcome.store.read? path then
      IO.FS.writeBinFile path ⟨content.toArray⟩
  return outcome.code.toUInt32

def main (arguments : List String) : IO UInt32 := do
  match Command.parse arguments with
  | none =>
    complain "usage: info <file> [--json] | gnuplot <file> | print <file> | stencil <width> <out>"
    return Command.usageCode.toUInt32
  | some command =>
    try perform command
    catch error =>
      complain (trouble error).message
      return Command.failureCode.toUInt32
