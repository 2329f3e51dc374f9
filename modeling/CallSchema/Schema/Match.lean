import CallSchema.Call.View
import CallSchema.Schema.Basic
import CallSchema.TypeExpr.Check
import CallSchema.TypeExpr.Parser

/-!
# Matching a call against fields

Fields are walked in order, each looking at the value at the cursor.  A field that accepts takes the
value; a soft refusal passes the field over and offers the value to the next one; any other refusal
ends the walk with its reason.  A strict match also refuses values that no field took.
-/

namespace CallSchema

/-- What matching a call came to. -/
structure Match where
  /-- The names of the fields that took a value, with the values. -/
  parsed : List (Value × Value)
  /-- The reason of the refusal, if there was one. -/
  fail : Option String
  /-- How many fields took a value, absent values included. -/
  consumed : Nat

namespace Match

/-- Whether the call was accepted. -/
def ok (result : Match) : Bool := result.fail.isNone

/-- The match of no further field. -/
def done (cursor : Nat) : Match := ⟨[], none, cursor⟩

/-- The match that ends in a refusal. -/
def refused (reason : String) (cursor : Nat) : Match := ⟨[], some reason, cursor⟩

/-- The match with one more field in front. -/
def take (name value : Value) (result : Match) : Match :=
  { result with parsed := (name, value) :: result.parsed }

/-- The refusal of the value at an index, which no field took: by the key that it came under, or by a
preview of it where that is no text. -/
def leftoverReason (view : CallView) (index : Nat) : Except Fault String :=
  match view.keyAt index with
  | .str key => .ok ("Unexpected `" ++ key ++ "` argument")
  | _ => do return "Unexpected argument \"" ++ (← (view.valueAt index).preview) ++ "\""

/-- Refuses values that an accepted call left over. -/
def refuseLeftover (view : CallView) (result : Match) : Except Fault Match :=
  if result.ok && result.consumed < view.size then do
    return { result with fail := some (← leftoverReason view result.consumed) }
  else .ok result

/-- The match that a walk comes to: a strict one refuses what was left over. -/
def conclude (view : CallView) (strict : Bool) (walked : Match) : Except Fault Match :=
  if strict then walked.refuseLeftover view else .ok walked

end Match

/-- The text of a field's type. -/
def Field.typeText (field : Field) : Except Fault String :=
  match field.type with
  | .str text => .ok text
  | other => do .error (.typeNotText (← field.name.shown) other.kind)

namespace Schema

variable [Host]

/-- Walks fields from a cursor on. -/
def walk (registry : Registry) (view : CallView) : Nat → List Field → Run MatcherCall Match
  | cursor, [] => return Match.done cursor
  | cursor, field :: fields => do
      let text ← Run.ofExcept field.typeText
      let value := view.valueAt cursor
      match ← (TypeExpr.parse text).check registry field.name value with
      | .accepted => return (← walk registry view (cursor + 1) fields).take field.name value
      | .refused _ true => walk registry view cursor fields
      | .refused reason false => return Match.refused reason cursor

/-- Matches a call against fields. -/
def matchFields (registry : Registry) (view : CallView) (strict : Bool) (fields : List Field) :
    Run MatcherCall Match := do
  let walked ← walk registry view 0 fields
  Run.ofExcept (walked.conclude view strict)

end Schema
end CallSchema
