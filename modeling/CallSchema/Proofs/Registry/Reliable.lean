import CallSchema.Proofs.Registry.AliasChain
import CallSchema.Proofs.Value.Writing
import CallSchema.Registry.Standard
import CallSchema.TypeExpr.Check
import Mathlib

/-!
# Reliable registries

A registry is reliable for some names when each of them resolves, to a matcher that answers on every value
and to a last name that can be written, and when what the name of arrays accepts can be walked if it is
one of them.  A registry whose aliases all point at names that are no aliases, and whose matchers answer
on every value, is reliable for all names (`reliable_of_isDirect`), and so is the standard one
(`reliable_standard`).
-/

namespace CallSchema

/-- Whether a matcher is one of the library's own. -/
def Value.isLibraryMatcher : Value → Bool
  | callable (.standard _) => true
  | callable .never => true
  | _ => false

variable [Host]

/-- A matcher answers on every value. -/
def Value.Answers (matcher : Value) : Prop :=
  ∀ value, ∃ answer, (matcher.ask value).outcome = .ok answer

/-- The library's own matchers always answer, whatever the host. -/
theorem Value.answers_of_isLibraryMatcher {matcher : Value} (h : matcher.isLibraryMatcher = true) :
    matcher.Answers := by
  intro value
  cases matcher with
  | callable c =>
      cases c with
      | supplied callee => cases h
      | standard matcher => exact ⟨matcher.accepts value, rfl⟩
      | never => exact ⟨false, rfl⟩
  | _ => cases h

/-- Whatever can be called always answers, on a host where none of the caller's code ends in an error. -/
theorem Value.answers_of_isCallable
    (hhost : ∀ callee value, ∃ answer, Host.answer callee value = .ok answer) {matcher : Value}
    (h : matcher.isCallable = true) : matcher.Answers := by
  intro value
  cases matcher with
  | callable c =>
      cases c with
      | supplied callee =>
          obtain ⟨answer, hanswer⟩ := hhost callee value
          exact ⟨answer, by rw [Value.outcome_ask_callable, Callable.answer, hanswer]; rfl⟩
      | standard matcher => exact ⟨matcher.accepts value, rfl⟩
      | never => exact ⟨false, rfl⟩
  | _ => cases h

namespace Registry

/-- The matcher at the end of a name's chain of aliases accepts a value. -/
def Accepts (registry : Registry) (name : String) (value : Value) : Prop :=
  ∃ hops resolution, registry.AliasChain hops (.str name) resolution ∧
    (resolution.matcher.ask value).outcome = .ok true

/-- A name that resolves stands for what its matcher accepts. -/
theorem accepts_iff_of_resolve {registry : Registry} {name : String} {resolution : Resolution}
    {value : Value} (h : registry.resolve (.str name) = .ok resolution) :
    registry.Accepts name value ↔ (resolution.matcher.ask value).outcome = .ok true := by
  obtain ⟨hops, -, hchain⟩ := resolve_eq_ok_iff.mp h
  constructor
  · rintro ⟨hops', found, hfound, haccepts⟩
    obtain rfl := hchain.unique hfound
    exact haccepts
  · exact fun haccepts => ⟨hops, resolution, hchain, haccepts⟩

/-- No check against one of the named types ends in a fault of the registry, and arrays can be walked. -/
structure ReliableFor (registry : Registry) (names : List String) : Prop where
  resolves : ∀ name ∈ names, ∃ resolution, registry.resolve (.str name) = .ok resolution ∧
    resolution.matcher.Answers ∧ resolution.name.Writable
  walkable : TypeExpr.arrayName ∈ names → ∀ value, registry.Accepts TypeExpr.arrayName value →
    ∃ elements, value.walked = .ok elements

/-- A registry is reliable for all names. -/
def Reliable (registry : Registry) : Prop := ∀ names, registry.ReliableFor names

theorem ReliableFor.mono {registry : Registry} {names fewer : List String}
    (h : registry.ReliableFor names) (hsubset : fewer ⊆ names) : registry.ReliableFor fewer :=
  ⟨fun name hname => h.resolves name (hsubset hname), fun harray => h.walkable (hsubset harray)⟩

/-- Whether an entry of a registry is a matcher that one trusts, or points at a name that is no alias. -/
def isDirectEntry (registry : Registry) (trusts : Value → Bool) : Entry → Bool
  | .matcher value => trusts value
  | .aliasTo (.str target) =>
      match registry.get? (.text target) with
      | some (.aliasTo _) => false
      | _ => true
  | .aliasTo _ => false

/-- Whether every entry is a matcher that one trusts or points at a name that is no alias. -/
def isDirect (registry : Registry) (trusts : Value → Bool) : Bool :=
  registry.entries.all fun entry => registry.isDirectEntry trusts entry.2

variable {registry : Registry} {name : String} {entry : Entry} {trusts : Value → Bool}

omit [Host] in
theorem isDirectEntry_of_get? (h : registry.isDirect trusts = true) {entryName : EntryName}
    (hentry : registry.get? entryName = some entry) : registry.isDirectEntry trusts entry = true := by
  obtain ⟨before, after, hentries, -⟩ := List.lookup_eq_some_iff.mp hentry
  refine List.all_eq_true.mp h (entryName, entry) ?_
  rw [hentries]
  simp

section Direct

variable (h : registry.isDirect trusts = true) (hanswers : ∀ matcher, trusts matcher = true →
  matcher.Answers)

include h hanswers

/-- In a direct registry no entry counts as missing. -/
theorem present_get?_of_isDirect (entryName : EntryName) :
    present (registry.get? entryName) = registry.get? entryName := by
  cases hentry : registry.get? entryName with
  | none => rfl
  | some entry =>
      have hdirect := isDirectEntry_of_get? h hentry
      cases entry with
      | aliasTo target => rfl
      | matcher value =>
          cases value with
          | null =>
              -- Null answers nothing, so it is not trusted.
              obtain ⟨answer, hanswer⟩ := hanswers .null hdirect .null
              cases hanswer
          | _ => rfl

theorem lookup_of_isDirect (name : String) :
    registry.lookup (.str name) = .ok (registry.get? (.text name)) :=
  congrArg Except.ok (present_get?_of_isDirect h hanswers (.text name))

theorem answers_fallback : registry.fallback.Answers := by
  rw [fallback, present_get?_of_isDirect h hanswers]
  cases hentry : registry.get? (.text defaultName) with
  | none => exact Value.answers_of_isLibraryMatcher rfl
  | some entry =>
      cases entry with
      | aliasTo target => exact Value.answers_of_isLibraryMatcher rfl
      | matcher value => exact hanswers value (isDirectEntry_of_get? h hentry)

/-- A name that is no alias is at the end of its chain. -/
theorem exists_end_of_isDirect
    (hends : ∀ target, registry.get? (.text name) ≠ some (.aliasTo target)) :
    ∃ resolution, registry.AliasChain 0 (.str name) resolution ∧
      resolution.matcher.Answers ∧ resolution.name.Writable := by
  have hlookup := lookup_of_isDirect h hanswers name
  cases hentry : registry.get? (.text name) with
  | none =>
      rw [hentry] at hlookup
      exact ⟨_, .unknown hlookup, answers_fallback h hanswers, Value.writable_str name⟩
  | some entry =>
      cases entry with
      | aliasTo target => exact absurd hentry (hends target)
      | matcher value =>
          rw [hentry] at hlookup
          exact ⟨_, .held hlookup, hanswers value (isDirectEntry_of_get? h hentry),
            Value.writable_str name⟩

omit [Host] hanswers in
/-- An alias points at a name that is no alias. -/
theorem exists_target_of_isDirect {target : Value}
    (hentry : registry.get? (.text name) = some (.aliasTo target)) :
    ∃ next, target = .str next ∧ ∀ other, registry.get? (.text next) ≠ some (.aliasTo other) := by
  have hdirect := isDirectEntry_of_get? h hentry
  cases target with
  | str next =>
      refine ⟨next, rfl, ?_⟩
      intro other hnext
      simp [isDirectEntry, hnext] at hdirect
  | _ => cases hdirect

theorem exists_chain_of_isDirect (name : String) :
    ∃ hops resolution, hops < lookupLimit ∧ registry.AliasChain hops (.str name) resolution ∧
      resolution.matcher.Answers ∧ resolution.name.Writable := by
  -- The chain has one alias or none, far from the limit.
  by_cases hends : ∀ target, registry.get? (.text name) ≠ some (.aliasTo target)
  · obtain ⟨resolution, hchain, hreliable⟩ := exists_end_of_isDirect h hanswers hends
    exact ⟨0, resolution, by decide, hchain, hreliable⟩
  · obtain ⟨target, hentry⟩ : ∃ target, registry.get? (.text name) = some (.aliasTo target) := by
      simpa using hends
    obtain ⟨next, rfl, hnext⟩ := exists_target_of_isDirect h hentry
    obtain ⟨resolution, hchain, hreliable⟩ := exists_end_of_isDirect h hanswers hnext
    have hlookup := lookup_of_isDirect h hanswers name
    rw [hentry] at hlookup
    exact ⟨1, resolution, by decide, .hop hlookup hchain, hreliable⟩

/-- A direct registry in which the name of arrays keeps its meaning is reliable. -/
theorem reliable_of_isDirect
    (harray : registry.get? (.text TypeExpr.arrayName) = some (standardEntry .isArray)) :
    registry.Reliable := by
  intro names
  constructor
  case resolves =>
    intro name _
    obtain ⟨hops, resolution, hlt, hchain, hreliable⟩ := exists_chain_of_isDirect h hanswers name
    exact ⟨resolution, resolve_eq_ok_iff.mpr ⟨hops, hlt, hchain⟩, hreliable⟩
  case walkable =>
    rintro - value ⟨hops, resolution, hchain, haccepts⟩
    have hlookup := lookup_of_isDirect h hanswers TypeExpr.arrayName
    rw [harray] at hlookup
    obtain rfl := hchain.unique (.held hlookup)
    cases value with
    | seq kind items => exact ⟨items, rfl⟩
    | _ => cases haccepts

end Direct

theorem reliable_standard : standard.Reliable :=
  reliable_of_isDirect (by cbv : standard.isDirect Value.isLibraryMatcher = true)
    (fun _ => Value.answers_of_isLibraryMatcher) (by cbv)

end Registry
end CallSchema
