import CallSchema.Schema.Match

/-!
# Resolving a call against a schema

Every candidate of a schema is matched, in order, also after one that accepts.  Of the matches the one
that outranks the others is kept: an accepting match outranks a refusing one, then the one that
consumed more; between equals the earlier one stays.
-/

namespace CallSchema
namespace Match

/-- Whether a later match takes the place of an earlier one. -/
def outranks (later earlier : Match) : Bool :=
  (later.ok && !earlier.ok) || (later.ok == earlier.ok && earlier.consumed < later.consumed)

/-- The better of an earlier and a later match. -/
def better (earlier later : Match) : Match :=
  if later.outranks earlier then later else earlier

/-- The match that no other outranks, the earliest of them. -/
def best (first : Match) (others : List Match) : Match :=
  others.foldl better first

end Match

namespace Schema

/-- The fault of a schema that is reported before the call's values are looked at. -/
def shapeFault? : Schema → Option Fault
  | oneOf [] => some .noCandidates
  | malformed got => some (.schemaShape got)
  | _ => none

variable [Host]

mutual

/-- Resolves a view of a call against a schema. -/
def resolveView (registry : Registry) (view : CallView) (strict : Bool) :
    Schema → Run MatcherCall Match
  | flat fields => matchFields registry view strict fields
  | oneOf candidates => do
      match ← resolveEach registry view strict candidates with
      | [] => Run.fail .noCandidates
      | first :: others => return Match.best first others
  | malformed got => Run.fail (.schemaShape got)

/-- Resolves a view of a call against each of several schemas. -/
def resolveEach (registry : Registry) (view : CallView) (strict : Bool) :
    List Schema → Run MatcherCall (List Match)
  | [] => return []
  | candidate :: candidates => do
      let first ← resolveView registry view strict candidate
      let others ← resolveEach registry view strict candidates
      return first :: others

end

/-- Resolves call values against a schema. -/
def resolve (registry : Registry) (schema : Schema) (values : Value) (strict : Bool) :
    Run MatcherCall Match :=
  match schema.shapeFault? with
  | some fault => Run.fail fault
  | none => do
      let view ← Run.ofExcept (CallView.ofValue values)
      schema.resolveView registry view strict

/-- Resolves call values against a value that must be a record of fields. -/
def resolveRecord (registry : Registry) (schema values : Value) (strict : Bool) :
    Run MatcherCall Match :=
  match schema with
  | .record _ entries => (flat (fieldsOfEntries entries)).resolve registry values strict
  | other => Run.fail (.schemaShape other.kind)

/-- Resolves call values against the schemas that a walk over a value meets.  Every value that counts
as false is an empty list of them. -/
def resolveAmong (registry : Registry) (schemas values : Value) (strict : Bool) :
    Run MatcherCall Match :=
  if schemas.truthy then do
    let view ← Run.ofExcept (CallView.ofValue values)
    let candidates ← Run.ofExcept (candidatesOf schemas)
    (oneOf candidates).resolveView registry view strict
  else Run.fail .noCandidates

end Schema
end CallSchema
