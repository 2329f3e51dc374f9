import CallSchema.Fault
import CallSchema.Table

/-!
# What a name holds

Looking up a name that must be there: where a table keeps what a session has named, a missing name is
a fault.
-/

namespace CallSchema

/-- The value of a name, or the fault that there is none. -/
def Table.held {α : Type} (table : Table String α) (name : String) : Except Fault α :=
  match table.get? name with
  | some a => .ok a
  | none => .error (.unknownName name)

end CallSchema
