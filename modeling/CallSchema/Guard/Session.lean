import CallSchema.Guard.Basic
import CallSchema.Table.Held

/-!
# Guard sessions

A session holds guards, recorders and guarded functions by name, and the strategy in force for guards
that are pinned to none.  Every outcome that is handed to a recorder is kept by it, in order; nothing
else reaches a recorder.  A step that fails binds no name.
-/

namespace CallSchema
namespace Guard

/-- A guarded function in a session, and how often its body has run. -/
structure Watched where
  function : Guarded
  runs : Nat

/-- The state of a session. -/
structure Session where
  guards : Table String Guard
  /-- The strategy in force. -/
  active : Strategy
  recorders : Table String (List Report)
  functions : Table String Watched

/-- A step of a session. -/
inductive Command where
  | create (guard : String) (base : Registry) (layers : List Value) (pinned : Option Strategy)
  | extend (base : String) (raw : Value) (guard : String)
  | pin (base : String) (strategy : Option Strategy) (guard : String)
  | install (strategy : Option Strategy)
  | installed
  | strategies (guard : String)
  | names (guard : String)
  | call (guard : String) (values schema : Value) (strict : Bool)
  | report (strategy : Option Strategy) (report : Report)
  | reports (recorder : String)
  | failures (recorder : String)
  | lastReport (recorder : String)
  | clear (recorder : String)
  | define (function : String) (schema : Value) (signature : Signature) (strict : Bool)
      (guard : Option String)
  | invoke (function : String) (arguments : Arguments)
  | runs (function : String)

/-- What a step answers. -/
inductive Answer where
  | nothing
  | names (names : List String)
  | strategy (strategy : Strategy)
  /-- The strategy a guard is pinned to, and the one it reports to. -/
  | strategies (pinned : Option Strategy) (inForce : Strategy)
  | parsed (arguments : List (Value × Value))
  | reports (reports : List Report)
  | reasons (reasons : List (Option String))
  | lastReport (report : Option Report)
  | name (name : String)
  | arguments (arguments : Arguments)
  | count (n : Nat)

namespace Session

/-- A session at its start: one guard has a name, and refusals raise. -/
def start : Session where
  guards := Table.empty.put "have" standard
  active := .raise
  recorders := Table.empty
  functions := Table.empty

/-- What a recorder has kept since it was last cleared. -/
def reportsOf (session : Session) (recorder : String) : List Report :=
  (session.recorders.get? recorder).getD []

/-- Keeps an event: an outcome handed to a recorder is added to what it has kept. -/
def keep (session : Session) : Event → Session
  | .reported (.recorder name) report =>
      { session with recorders := session.recorders.put name (session.reportsOf name ++ [report]) }
  | _ => session

/-- Gives a guard a name. -/
def nameGuard (session : Session) (name : String) (guard : Guard) : Session :=
  { session with guards := session.guards.put name guard }

/-- Puts a strategy in force, unless it cannot be called, and answers the one before it. -/
def installStrategy (session : Session) (strategy : Option Strategy) :
    Except Fault (Strategy × Session) :=
  match Strategy.installable strategy with
  | .ok next => .ok (session.active, { session with active := next })
  | .error kind => .error (.strategyNotCallable kind)

section

variable [Host]

/-- Hands an outcome to a strategy, if there is one. -/
def handOver (strategy : Option Strategy) (report : Report) : Run Event Unit :=
  match strategy with
  | some strategy => strategy.receive report
  | none => Run.fail (.notCallable .null)

/-- What a step answers and leaves behind, apart from what recorders keep. -/
def perform (session : Session) : Command → Run Event (Answer × Session)
  | .create guard base layers pinned => do
      let registry ← Run.ofExcept (base.extendAll layers)
      return (.nothing, session.nameGuard guard ⟨registry, pinned⟩)
  | .extend base raw guard => do
      let extended ← Run.ofExcept (do (← session.guards.held base).extend raw)
      let names ← Run.ofExcept extended.registry.sortedNames
      return (.names names, session.nameGuard guard extended)
  | .pin base strategy guard => do
      let found ← Run.ofExcept (session.guards.held base)
      return (.nothing, session.nameGuard guard (found.pin strategy))
  | .install strategy => do
      let (previous, next) ← Run.ofExcept (session.installStrategy strategy)
      return (.strategy previous, next)
  | .installed => return (.strategy session.active, session)
  | .strategies guard => do
      let found ← Run.ofExcept (session.guards.held guard)
      return (.strategies found.pinned (found.strategy session.active), session)
  | .names guard => do
      let found ← Run.ofExcept (session.guards.held guard)
      let names ← Run.ofExcept found.registry.sortedNames
      return (.names names, session)
  | .call guard values schema strict => do
      let found ← Run.ofExcept (session.guards.held guard)
      let parsed ← found.call session.active values schema strict
      return (.parsed parsed, session)
  | .report strategy report => do
      handOver strategy report
      return (.nothing, session)
  | .reports recorder => return (.reports (session.reportsOf recorder), session)
  | .failures recorder =>
      let failed := (session.reportsOf recorder).filter fun report => !report.ok
      return (.reasons (failed.map Report.reason), session)
  | .lastReport recorder => return (.lastReport (session.reportsOf recorder).getLast?, session)
  | .clear recorder =>
      return (.nothing, { session with recorders := session.recorders.put recorder [] })
  | .define function schema signature strict guard => do
      let found ← Run.ofExcept (match guard with
        | some guard => session.guards.held guard
        | none => .ok standard)
      let watched : Watched := ⟨⟨found, schema, strict, signature⟩, 0⟩
      return (.name function, { session with functions := session.functions.put function watched })
  | .invoke function arguments => do
      let found ← Run.ofExcept (session.functions.held function)
      found.function.validate session.active arguments
      let watched : Watched := { found with runs := found.runs + 1 }
      return (.arguments arguments,
        { session with functions := session.functions.put function watched })
  | .runs function => do
      let found ← Run.ofExcept (session.functions.held function)
      return (.count found.runs, session)

/-- One step: what it answers, and the session after it. -/
def step (session : Session) (command : Command) : Run Event Answer × Session :=
  match session.perform command with
  | ⟨events, .ok (answer, next)⟩ => (⟨events, .ok answer⟩, events.foldl keep next)
  | ⟨events, .error fault⟩ => (⟨events, .error fault⟩, events.foldl keep session)

end

end Session
end Guard
end CallSchema
