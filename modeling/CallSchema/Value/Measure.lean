import CallSchema.Fault

/-!
# Measuring and walking values

Operations on the collections among the values that are a fault on all other values.  A length is a
fault too when it does not fit a machine word: only a range can be that long, as it holds its bounds
and not its items.
-/

namespace CallSchema
namespace Value

/-- Lengths and indices are below this bound, and indices from the end are not below its negation. -/
def wordBound : Nat := 0x8000000000000000

/-- The length of a value, or the fault of having none. -/
def measured (value : Value) : Except Fault Nat :=
  match value.length? with
  | some length => if length < wordBound then .ok length else .error .lengthTooLarge
  | none => .error (.noLength value.kind)

/-- What a walk over a value meets, or the fault that it cannot be walked. -/
def walked (value : Value) : Except Fault (List Value) :=
  match value.elements? with
  | some elements => .ok elements
  | none => .error (.notIterable value.kind)

end Value
end CallSchema
