import CallSchema.Registry.Standard
import CallSchema.Table.Held
import CallSchema.TypeExpr.Check

/-!
# Registry sessions

A session holds builders and registries by name.  Builders are grown in place and can be frozen into a
registry at any time; registries are never changed, only extended under a new name.  A step that fails
leaves the session as it was.
-/

namespace CallSchema
namespace Registry

/-- The builders and registries of a session. -/
structure Session where
  builders : Table String Registry
  registries : Table String Registry

/-- A step of a session. -/
inductive Command where
  | newBuilder (builder : String)
  | addMatcher (builder : String) (names matcher : Value)
  | addAlias (builder : String) (names target : Value)
  | update (builder : String) (raw : Value)
  | build (builder registry : String)
  | reserved (registry : String)
  | extend (base : String) (raw : Value) (registry : String)
  | entries (registry : String)
  | get (registry : String) (name : Value)
  | contains (registry : String) (name : Value)
  | size (registry : String)
  | names (registry : String)
  | matcher (registry : String) (name : Value)
  | resolve (registry : String) (name : Value)
  | check (registry : String) (argument : Value) (expr : TypeExpr) (value : Value)

/-- What a step answers. -/
inductive Answer where
  | nothing
  /-- The builder itself. -/
  | builder
  | entries (entries : List (EntryName × Entry))
  | entry (entry : Option Entry)
  | truth (b : Bool)
  | count (n : Nat)
  | names (names : List String)
  | matcher (value : Value)
  | resolution (resolution : Resolution)
  | verdict (verdict : Verdict)

namespace Session

/-- A session at its start: the standard registry has a name. -/
def start : Session where
  builders := Table.empty
  registries := Table.empty.put "builtin" standard

/-- Grows a builder in place. -/
def grow (session : Session) (builder : String)
    (layer : Registry → Except Fault Registry) : Except Fault (Answer × Session) := do
  let grown ← layer (← session.builders.held builder)
  return (.builder, { session with builders := session.builders.put builder grown })

/-- Gives a registry a name, and answers its entries. -/
def publish (session : Session) (name : String) (registry : Registry) : Answer × Session :=
  (.entries registry.entries, { session with registries := session.registries.put name registry })

section

variable [Host]

/-- What a step answers and leaves behind. -/
def perform (session : Session) : Command → Run MatcherCall (Answer × Session)
  | .newBuilder builder =>
      return (.nothing, { session with builders := session.builders.put builder Registry.reserved })
  | .addMatcher builder names matcher =>
      Run.ofExcept (session.grow builder fun registry => registry.addMatcher names matcher)
  | .addAlias builder names target =>
      Run.ofExcept (session.grow builder fun registry => registry.addAlias names target)
  | .update builder raw =>
      Run.ofExcept (session.grow builder fun registry => registry.extend raw)
  | .build builder registry => do
      let built ← Run.ofExcept (session.builders.held builder)
      return session.publish registry built
  | .reserved registry => return session.publish registry Registry.reserved
  | .extend base raw registry => do
      let extended ← Run.ofExcept (do (← session.registries.held base).extend raw)
      return session.publish registry extended
  | .entries registry => do
      let found ← Run.ofExcept (session.registries.held registry)
      return (.entries found.entries, session)
  | .get registry name => do
      let entry ← Run.ofExcept (do (← session.registries.held registry).entryOf name)
      return (.entry entry, session)
  | .contains registry name => do
      let entry ← Run.ofExcept (do (← session.registries.held registry).entryOf name)
      return (.truth entry.isSome, session)
  | .size registry => do
      let found ← Run.ofExcept (session.registries.held registry)
      return (.count found.size, session)
  | .names registry => do
      let names ← Run.ofExcept (do (← session.registries.held registry).sortedNames)
      return (.names names, session)
  | .matcher registry name => do
      let resolution ← Run.ofExcept (do (← session.registries.held registry).resolve name)
      return (.matcher resolution.matcher, session)
  | .resolve registry name => do
      let resolution ← Run.ofExcept (do (← session.registries.held registry).resolve name)
      return (.resolution resolution, session)
  | .check registry argument expr value => do
      let found ← Run.ofExcept (session.registries.held registry)
      let verdict ← expr.check found argument value
      return (.verdict verdict, session)

/-- One step: what it answers, and the session after it. -/
def step (session : Session) (command : Command) : Run MatcherCall Answer × Session :=
  match session.perform command with
  | ⟨events, .ok (answer, next)⟩ => (⟨events, .ok answer⟩, next)
  | ⟨events, .error fault⟩ => (⟨events, .error fault⟩, session)

end

end Session
end Registry
end CallSchema
