import SparsePattern.Fault

/-!
# Refusals of JSON texts

Why a text is not the value that it should be.
-/

namespace SparsePattern.Json

/-- Why a JSON text is refused. -/
inductive Refusal where
  /-- It breaks the rules of JSON, or a number is out of every range. -/
  | malformed
  /-- It ends early. -/
  | truncated
  /-- It is JSON of another form: a value of the wrong kind or out of range, a field missing or
  repeated. -/
  | mismatch
  /-- It has the right form, and what it describes is refused. -/
  | invalid (fault : Fault)
deriving DecidableEq, Repr

def Refusal.message : Refusal → String
  | malformed => "malformed JSON"
  | truncated => "JSON ends early"
  | mismatch => "JSON of another form"
  | invalid fault => fault.message

end SparsePattern.Json
