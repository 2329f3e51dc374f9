import CallSchema.Registry.Basic

/-!
# Resolving names

A name is resolved by following aliases until a name is reached that holds a matcher or is unknown.
The number of look-ups is bounded, so a cycle of aliases is a fault and not an endless walk.  An
unknown name, wherever in the chain it turns up, gets the default matcher and is still the name that
messages cite.
-/

namespace CallSchema
namespace Registry

/-- How many look-ups a chain of aliases may take. -/
def lookupLimit : Nat := 32

/-- The end of a chain of aliases. -/
structure Resolution where
  /-- The last name of the chain. -/
  name : Value
  /-- What that name holds, or the default matcher. -/
  matcher : Value

/-- The entry that any value has as a name.  What can be no name has none, and some values cannot even
be looked up. -/
def entryOf (registry : Registry) (name : Value) : Except Fault (Option Entry) :=
  match EntryName.ofValue? name, name.hashFault? with
  | some name, _ => .ok (registry.get? name)
  | none, some fault => .error (.unhashable fault)
  | none, none => .ok none

/-- An entry that holds null counts as missing. -/
def present : Option Entry → Option Entry
  | some (.matcher .null) => none
  | found => found

/-- The entry that following a name finds. -/
def lookup (registry : Registry) (name : Value) : Except Fault (Option Entry) :=
  (registry.entryOf name).map present

/-- The matcher for unknown names: the one registered under the default name, and the matcher that
accepts nothing if there is none or the default name is an alias. -/
def fallback (registry : Registry) : Value :=
  match present (registry.get? (.text defaultName)) with
  | some (.matcher value) => value
  | _ => .callable .never

/-- Follows a chain of aliases that began at `first` and has come to a name, within a number of
look-ups. -/
def follow (registry : Registry) (first : Value) : Nat → Value → Except Fault Resolution
  | 0, _ => .error (.aliasCycle first lookupLimit)
  | lookups + 1, name => do
      match ← registry.lookup name with
      | none => return ⟨name, registry.fallback⟩
      | some (.matcher value) => return ⟨name, value⟩
      | some (.aliasTo target) => registry.follow first lookups target

/-- The end of the chain of aliases from a name. -/
def resolve (registry : Registry) (name : Value) : Except Fault Resolution :=
  registry.follow name lookupLimit name

end Registry
end CallSchema
