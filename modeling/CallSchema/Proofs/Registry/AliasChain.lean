import CallSchema.Registry.Resolve

/-!
# Chains of aliases

`AliasChain` follows aliases one by one and counts them, without a limit: it ends at a name that holds a
matcher or is unknown.  A name has at most one chain (`AliasChain.unique`), and resolving the name finds
the end of it when the chain has fewer aliases than there are look-ups (`resolve_eq_ok_iff`).
-/

namespace CallSchema
namespace Registry

/-- A name leads over a number of aliases to the name and the matcher at their end. -/
inductive AliasChain (registry : Registry) : Nat → Value → Resolution → Prop where
  /-- The name holds a matcher. -/
  | held {name matcher : Value} (h : registry.lookup name = .ok (some (.matcher matcher))) :
      AliasChain registry 0 name ⟨name, matcher⟩
  /-- The name is unknown, so the default matcher stands in. -/
  | unknown {name : Value} (h : registry.lookup name = .ok none) :
      AliasChain registry 0 name ⟨name, registry.fallback⟩
  /-- The name is an alias of the next one. -/
  | hop {hops : Nat} {name target : Value} {resolution : Resolution}
      (h : registry.lookup name = .ok (some (.aliasTo target)))
      (hrest : AliasChain registry hops target resolution) :
      AliasChain registry (hops + 1) name resolution

variable {registry : Registry} {first name : Value} {resolution : Resolution} {hops lookups : Nat}

/-! ## One look-up -/

section LookUp

variable (first : Value) (lookups : Nat)

theorem follow_of_held {matcher : Value}
    (h : registry.lookup name = .ok (some (.matcher matcher))) :
    registry.follow first (lookups + 1) name = .ok ⟨name, matcher⟩ := by
  rw [follow, h]
  rfl

theorem follow_of_unknown (h : registry.lookup name = .ok none) :
    registry.follow first (lookups + 1) name = .ok ⟨name, registry.fallback⟩ := by
  rw [follow, h]
  rfl

theorem follow_of_alias {target : Value}
    (h : registry.lookup name = .ok (some (.aliasTo target))) :
    registry.follow first (lookups + 1) name = registry.follow first lookups target := by
  rw [follow, h]
  rfl

theorem follow_of_fault {fault : Fault} (h : registry.lookup name = .error fault) :
    registry.follow first (lookups + 1) name = .error fault := by
  rw [follow, h]
  rfl

end LookUp

/-! ## Whole chains -/

/-- Following aliases finds the end of every chain that has fewer aliases than there are look-ups. -/
theorem AliasChain.follow_eq (h : registry.AliasChain hops name resolution) (hlt : hops < lookups) :
    registry.follow first lookups name = .ok resolution := by
  induction h generalizing lookups with
  | held hlookup =>
      obtain ⟨lookups, rfl⟩ := Nat.exists_eq_add_one_of_ne_zero (Nat.ne_of_gt hlt)
      exact follow_of_held first lookups hlookup
  | unknown hlookup =>
      obtain ⟨lookups, rfl⟩ := Nat.exists_eq_add_one_of_ne_zero (Nat.ne_of_gt hlt)
      exact follow_of_unknown first lookups hlookup
  | hop hlookup hrest ih =>
      obtain ⟨lookups, rfl⟩ := Nat.exists_eq_add_one_of_ne_zero (Nat.ne_of_gt (Nat.zero_lt_of_lt hlt))
      rw [follow_of_alias first lookups hlookup]
      exact ih (Nat.lt_of_succ_lt_succ hlt)

/-- What following aliases finds is the end of a chain. -/
theorem exists_chain_of_follow (h : registry.follow first lookups name = .ok resolution) :
    ∃ hops, hops < lookups ∧ registry.AliasChain hops name resolution := by
  induction lookups generalizing name with
  | zero => cases h
  | succ lookups ih =>
      cases hlookup : registry.lookup name with
      | error fault =>
          rw [follow_of_fault first lookups hlookup] at h
          cases h
      | ok found =>
          cases found with
          | none =>
              rw [follow_of_unknown first lookups hlookup] at h
              cases h
              exact ⟨0, Nat.succ_pos lookups, .unknown hlookup⟩
          | some entry =>
              cases entry with
              | matcher value =>
                  rw [follow_of_held first lookups hlookup] at h
                  cases h
                  exact ⟨0, Nat.succ_pos lookups, .held hlookup⟩
              | aliasTo target =>
                  rw [follow_of_alias first lookups hlookup] at h
                  obtain ⟨hops, hlt, hchain⟩ := ih h
                  exact ⟨hops + 1, Nat.succ_lt_succ hlt, .hop hlookup hchain⟩

/-- A name resolves to the end of its chain when the chain has fewer aliases than the limit. -/
theorem resolve_eq_ok_iff :
    registry.resolve name = .ok resolution ↔
      ∃ hops, hops < lookupLimit ∧ registry.AliasChain hops name resolution := by
  constructor
  · exact exists_chain_of_follow
  · rintro ⟨hops, hlt, hchain⟩
    exact hchain.follow_eq hlt

/-- The end of a chain is determined by the name that it begins with. -/
theorem AliasChain.unique {other : Nat} {found : Resolution}
    (h : registry.AliasChain hops name resolution) (hother : registry.AliasChain other name found) :
    resolution = found := by
  have hfirst : registry.follow name (hops + other + 1) name = .ok resolution :=
    h.follow_eq (by omega)
  have hsecond : registry.follow name (hops + other + 1) name = .ok found :=
    hother.follow_eq (by omega)
  rw [hfirst] at hsecond
  exact Except.ok.inj hsecond

end Registry
end CallSchema
