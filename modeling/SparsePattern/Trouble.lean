import SparsePattern.Fault
import SparsePattern.Json.Refusal

/-!
# Troubles

What stops an operation that reads or writes: a fault of the pattern, a stream or file that fails,
or a text that is not the JSON it should be.
-/

namespace SparsePattern

/-- Why reading or writing failed. -/
inductive Trouble where
  | fault (fault : Fault)
  /-- A stream or file failed, for the reason that it gives. -/
  | io (reason : String)
  | json (refusal : Json.Refusal)
deriving DecidableEq, Repr

namespace Trouble

/-- There is no file or directory of this name. -/
def noSuchFile : Trouble := .io "No such file or directory (os error 2)"

def message : Trouble → String
  | fault f => f.message
  | io reason => s!"I/O error: {reason}"
  | json refusal => s!"JSON error: {refusal.message}"

/-- The kind of a pattern's fault. -/
def kind : Trouble → Option Fault.Kind
  | fault f => some f.kind
  | io _ | json _ => none

end Trouble

end SparsePattern
