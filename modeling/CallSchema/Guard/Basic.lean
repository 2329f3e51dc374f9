import CallSchema.Guard.Strategy
import CallSchema.Registry.Standard
import CallSchema.Schema.Nesting

/-!
# Guards

A guard resolves call values against a schema and hands the outcome to a strategy: its own, or the one
in force when it is called.  When a match reports a value under the arguments-object name, that value
takes the place of the call values and the schema is resolved anew, whatever the match came to.  The
value is always nested inside the values before it, so this ends, and only the last match is reported.
-/

namespace CallSchema

/-- A guard: a registry, and the strategy it is pinned to, if any. -/
structure Guard where
  registry : Registry
  pinned : Option Strategy

/-- The value reported under the arguments-object name. -/
def Match.argumentsObject? (result : Match) : Option Value :=
  (result.parsed.find? fun entry => entry.1.isText Registry.argumentsObjectName).map Prod.snd

theorem Match.mem_of_argumentsObject? {result : Match} {value : Value}
    (h : result.argumentsObject? = some value) : ∃ entry ∈ result.parsed, entry.2 = value := by
  obtain ⟨entry, hfind, hvalue⟩ := Option.map_eq_some_iff.mp h
  exact ⟨entry, List.mem_of_find?_eq_some hfind, hvalue⟩

namespace Guard

/-- The guard with the standard registry, bound to no strategy. -/
def standard : Guard := ⟨Registry.standard, none⟩

/-- The schema that takes a lone record for the arguments of a call. -/
def argumentsObjectSchema : Value :=
  .record .readOnly [(.str Registry.argumentsObjectName, .str Registry.argumentsObjectName)]

/-- The strategy that a guard reports to, given the one in force. -/
def strategy (guard : Guard) (active : Strategy) : Strategy := guard.pinned.getD active

/-- Layers a raw table of matchers over the guard's registry. -/
def extend (guard : Guard) (raw : Value) : Except Fault Guard := do
  return { guard with registry := ← guard.registry.extend raw }

/-- Pins the guard to a strategy, or to none. -/
def pin (guard : Guard) (strategy : Option Strategy) : Guard :=
  { guard with pinned := strategy }

section

variable [Host]

/-- One resolution of call values, as a run of events. -/
def attempt (registry : Registry) (schema : Schema) (strict : Bool) (values : Value) :
    Run Event Match :=
  (schema.resolve registry values strict).mapEvents .called

/-- The match that a call comes to in the end. -/
def settle (registry : Registry) (schema : Schema) (strict : Bool) (values : Value) :
    Run Event Match :=
  match _hrun : attempt registry schema strict values with
  | ⟨events, .error fault⟩ => ⟨events, .error fault⟩
  | ⟨events, .ok result⟩ =>
      match _hobject : result.argumentsObject? with
      | none => ⟨events, .ok result⟩
      | some object =>
          let rest := settle registry schema strict object
          ⟨events ++ .logged .rerun :: rest.events, rest.outcome⟩
termination_by values.depth
decreasing_by
  obtain ⟨entry, hentry, heq⟩ := Match.mem_of_argumentsObject? _hobject
  have houtcome : (attempt registry schema strict values).outcome = .ok result := by rw [_hrun]
  rw [← heq]
  exact Schema.depth_lt_of_resolve houtcome hentry

/-- Settling a call is one attempt, and another one on the value that takes the call values' place. -/
theorem settle_eq (registry : Registry) (schema : Schema) (strict : Bool) (values : Value) :
    settle registry schema strict values =
      attempt registry schema strict values >>= fun result =>
        match result.argumentsObject? with
        | none => pure result
        | some object =>
            Run.emit (.logged .rerun) >>= fun _ =>
              settle registry schema strict object := by
  rw [settle]
  split
  · rename_i events fault hrun
    rw [Run.bind_of_error (congrArg Run.outcome hrun), hrun]
  · rename_i events result hrun
    rw [Run.bind_of_ok (congrArg Run.outcome hrun), hrun]
    split
    · rename_i hobject
      rw [hobject]
      simp
    · rename_i object hobject
      rw [hobject]
      rfl

/-- The message that a call was accepted. -/
def acceptedMessage (result : Match) : LogMessage :=
  .accepted (result.parsed.map Prod.fst)

/-- Guards a call: settles it, reports the outcome, and answers the parsed arguments. -/
def call (guard : Guard) (active : Strategy) (values schema : Value) (strict : Bool) :
    Run Event (List (Value × Value)) := do
  let result ← settle guard.registry (Schema.ofValue schema) strict values
  if result.ok then
    Run.emit (.logged (acceptedMessage result))
  (guard.strategy active).receive ⟨result.ok, result.fail⟩
  return result.parsed

end

end Guard

/-- A function whose calls are guarded. -/
structure Guarded where
  guard : Guard
  schema : Value
  strict : Bool
  signature : Signature

/-- Lets a call through to the function: the arguments must bind, and the guard must not raise. -/
def Guarded.validate [Host] (function : Guarded) (active : Strategy) (arguments : Arguments) :
    Run Event Unit := do
  let bound ← Run.ofExcept (function.signature.bind arguments)
  let _ ← function.guard.call active bound function.schema function.strict

end CallSchema
