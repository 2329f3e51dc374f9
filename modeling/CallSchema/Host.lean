import CallSchema.Fault

/-!
# The host of the library

Callables of the caller are called and never looked into: matchers are asked about values, and
strategies are handed outcomes.  What comes of such a call is a matter of the host, and so is how many
values there is room for.  Everything that depends on it is said of every host.

A callable answers alike whenever it is asked about the same value, and asking it changes nothing.
-/

namespace CallSchema

/-- What the code of the caller does, and what there is room for. -/
class Host where
  /-- Whether what a callable answers about a value counts as true, unless it ends in an error. -/
  answer : Supplied → Value → Except Raised Bool
  /-- How a callable takes an outcome: whether the call was accepted, and the reason if not. -/
  receive : Supplied → Bool → Option String → Except Raised Unit
  /-- A list of values is shorter than this. -/
  room : Nat

namespace Host

/-- The host on which all callables of the caller answer alike: they accept nothing, and they let every
outcome pass. -/
@[reducible] def quiet : Host where
  answer _ _ := .ok false
  receive _ _ _ := .ok ()
  room := 0x8000000000000000

end Host
end CallSchema
