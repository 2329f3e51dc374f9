import CallSchema.Proofs.Registry.AliasChain

/-!
# Names that aliases lead to

`Leads` follows aliases from name to name and counts them.  Aliases lead on from a name in at most one
way, so they come to an end (`IsEnd`), run into a cycle, or come to a value that is no name.
Resolving a name finds the end for every name on the way there, and on the way into a cycle it ends in a
fault that cites the name it began with (`resolve_finds_end_of_aliases`).
-/

namespace CallSchema
namespace Registry

/-- A number of aliases lead from a name to another one. -/
inductive Leads (registry : Registry) : Nat → Value → Value → Prop where
  | refl (name : Value) : Leads registry 0 name name
  | hop {hops : Nat} {name target last : Value}
      (h : registry.lookup name = .ok (some (.aliasTo target)))
      (hrest : Leads registry hops target last) : Leads registry (hops + 1) name last

/-- A name that is no alias, with its own matcher or, if it has none, the default one: the matcher of the
default name, or the one that accepts nothing if the default name has no matcher either. -/
inductive IsEnd (registry : Registry) : Resolution → Prop where
  | held {name matcher : Value} (h : registry.lookup name = .ok (some (.matcher matcher))) :
      IsEnd registry ⟨name, matcher⟩
  | default {name matcher : Value} (h : registry.lookup name = .ok none)
      (hdefault : registry.lookup (.str defaultName) = .ok (some (.matcher matcher))) :
      IsEnd registry ⟨name, matcher⟩
  | never {name : Value} (h : registry.lookup name = .ok none)
      (hdefault : ∀ matcher, registry.lookup (.str defaultName) ≠ .ok (some (.matcher matcher))) :
      IsEnd registry ⟨name, .callable .never⟩

variable {registry : Registry} {first name between last : Value} {resolution : Resolution}
  {hops more lookups : Nat}

/-! ## Paths -/

theorem leads_succ_iff : registry.Leads (hops + 1) name last ↔
    ∃ target, registry.lookup name = .ok (some (.aliasTo target)) ∧
      registry.Leads hops target last := by
  constructor
  · rintro ⟨⟩
    rename_i target hlookup hrest
    exact ⟨target, hlookup, hrest⟩
  · rintro ⟨target, hlookup, hrest⟩
    exact .hop hlookup hrest

theorem Leads.trans (h : registry.Leads hops name between)
    (hmore : registry.Leads more between last) : registry.Leads (hops + more) name last := by
  induction h with
  | refl name => rwa [Nat.zero_add]
  | hop hlookup _ ih =>
      rw [Nat.add_right_comm]
      exact .hop hlookup (ih hmore)

/-- On the way over some aliases there is a name behind each smaller number of them. -/
theorem Leads.exists_of_le (h : registry.Leads hops name last) (hle : more ≤ hops) :
    ∃ between, registry.Leads more name between := by
  induction h generalizing more with
  | refl name =>
      obtain rfl := Nat.le_zero.mp hle
      exact ⟨name, .refl name⟩
  | @hop hops name target last hlookup _ ih =>
      cases more with
      | zero => exact ⟨name, .refl name⟩
      | succ more =>
          obtain ⟨between, hbetween⟩ := ih (Nat.le_of_succ_le_succ hle)
          exact ⟨between, .hop hlookup hbetween⟩

/-- Around a cycle any number of aliases lead on. -/
theorem Leads.exists_of_cycle (h : registry.Leads (hops + 1) name name) (more : Nat) :
    ∃ last, registry.Leads more name last := by
  have hrounds : ∀ rounds, registry.Leads (rounds * (hops + 1)) name name := by
    intro rounds
    induction rounds with
    | zero => rw [Nat.zero_mul]; exact .refl name
    | succ rounds ih => rw [Nat.succ_mul]; exact ih.trans h
  exact (hrounds more).exists_of_le (Nat.le_mul_of_pos_right more (Nat.succ_pos hops))

/-! ## Ends -/

theorem fallback_of_held {matcher : Value}
    (h : registry.lookup (.str defaultName) = .ok (some (.matcher matcher))) :
    registry.fallback = matcher := by
  have hpresent : present (registry.get? (.text defaultName)) = some (.matcher matcher) :=
    Except.ok.inj h
  rw [fallback, hpresent]

theorem fallback_of_not_held
    (h : ∀ matcher, registry.lookup (.str defaultName) ≠ .ok (some (.matcher matcher))) :
    registry.fallback = .callable .never := by
  unfold fallback
  split
  · rename_i matcher hpresent
    exact absurd (congrArg Except.ok hpresent) (h matcher)
  · rfl

/-- A chain of aliases leads to its end. -/
theorem AliasChain.leads (h : registry.AliasChain hops name resolution) :
    registry.Leads hops name resolution.name := by
  induction h with
  | held _ => exact .refl _
  | unknown _ => exact .refl _
  | hop hlookup _ ih => exact .hop hlookup ih

theorem AliasChain.isEnd (h : registry.AliasChain hops name resolution) :
    registry.IsEnd resolution := by
  induction h with
  | held hlookup => exact .held hlookup
  | unknown hlookup =>
      by_cases hdefault : ∃ matcher,
          registry.lookup (.str defaultName) = .ok (some (.matcher matcher))
      · obtain ⟨matcher, hmatcher⟩ := hdefault
        rw [fallback_of_held hmatcher]
        exact .default hlookup hmatcher
      · have hnone := not_exists.mp hdefault
        rw [fallback_of_not_held hnone]
        exact .never hlookup hnone
  | hop _ _ ih => exact ih

/-- Every name that the aliases of a chain lead to is on the chain, and has the rest of it. -/
theorem AliasChain.of_leads (h : registry.AliasChain hops name resolution)
    (hleads : registry.Leads more name between) :
    ∃ rest, hops = more + rest ∧ registry.AliasChain rest between resolution := by
  induction hleads generalizing hops with
  | refl name => exact ⟨hops, (Nat.zero_add hops).symm, h⟩
  | hop hlookup _ ih =>
      cases h with
      | held hheld => cases hlookup.symm.trans hheld
      | unknown hunknown => cases hlookup.symm.trans hunknown
      | hop hnext hchain =>
          cases hlookup.symm.trans hnext
          obtain ⟨rest, rfl, hrest⟩ := ih hchain
          exact ⟨rest, Nat.add_right_comm _ _ _, hrest⟩

/-! ## Running out of look-ups -/

/-- Only a value that is no name can fail to be looked up, and that is not the fault of a cycle. -/
theorem ofValue?_eq_none_of_lookup {fault : Fault} (h : registry.lookup name = .error fault) :
    EntryName.ofValue? name = none ∧ ∀ cited limit, fault ≠ .aliasCycle cited limit := by
  unfold lookup entryOf at h
  split at h
  · cases h
  · rename_i hname _
    cases h
    exact ⟨hname, nofun⟩
  · cases h

/-- Following aliases runs out of look-ups exactly when there are at least as many aliases to follow. -/
theorem follow_eq_aliasCycle_iff {limit : Nat} {cited : Value} :
    registry.follow first lookups name = .error (.aliasCycle cited limit) ↔
      cited = first ∧ limit = lookupLimit ∧ ∃ last, registry.Leads lookups name last := by
  induction lookups generalizing name with
  | zero =>
      rw [follow]
      constructor
      · rintro ⟨⟩
        exact ⟨rfl, rfl, name, .refl name⟩
      · rintro ⟨rfl, rfl, -⟩
        rfl
  | succ lookups ih =>
      simp only [leads_succ_iff]
      cases hlookup : registry.lookup name with
      | error fault =>
          rw [follow_of_fault first lookups hlookup]
          refine iff_of_false ?_ (by simp)
          rintro ⟨⟩
          exact (ofValue?_eq_none_of_lookup hlookup).2 cited limit rfl
      | ok found =>
          cases found with
          | none =>
              rw [follow_of_unknown first lookups hlookup]
              simp
          | some entry =>
              cases entry with
              | matcher value =>
                  rw [follow_of_held first lookups hlookup]
                  simp
              | aliasTo target =>
                  rw [follow_of_alias first lookups hlookup, ih]
                  simp

/-- Following aliases ends in a fault when it runs out of look-ups or comes to a value that is no name and
cannot be looked up. -/
theorem fault_of_follow {fault : Fault} (h : registry.follow first lookups name = .error fault) :
    fault = .aliasCycle first lookupLimit ∨
      ∃ hops last, registry.Leads hops name last ∧ EntryName.ofValue? last = none ∧
        registry.lookup last = .error fault := by
  induction lookups generalizing name with
  | zero =>
      cases h
      exact Or.inl rfl
  | succ lookups ih =>
      cases hlookup : registry.lookup name with
      | error other =>
          rw [follow_of_fault first lookups hlookup] at h
          cases h
          exact Or.inr ⟨0, name, .refl name, (ofValue?_eq_none_of_lookup hlookup).1, hlookup⟩
      | ok found =>
          cases found with
          | none =>
              rw [follow_of_unknown first lookups hlookup] at h
              cases h
          | some entry =>
              cases entry with
              | matcher value =>
                  rw [follow_of_held first lookups hlookup] at h
                  cases h
              | aliasTo target =>
                  rw [follow_of_alias first lookups hlookup] at h
                  rcases ih h with hcycle | ⟨hops, last, hleads, hlast⟩
                  · exact Or.inl hcycle
                  · exact Or.inr ⟨hops + 1, last, .hop hlookup hleads, hlast⟩

/-- What resolving a name finds is the end of its aliases: a name that is no alias, with its own matcher
or the default one, and every name on the way there resolves to the same.  When the aliases run into a
cycle, however late, the fault cites the name they began with.  There is no other fault, unless the
aliases come to a value that is no name and cannot be looked up. -/
theorem resolve_finds_end_of_aliases (registry : Registry) (name : Value) :
    (∀ resolution, registry.resolve name = .ok resolution →
      (∃ hops, registry.Leads hops name resolution.name) ∧ registry.IsEnd resolution ∧
        ∀ hops between, registry.Leads hops name between →
          registry.resolve between = .ok resolution) ∧
    (∀ hops back between, registry.Leads hops name between →
      registry.Leads (back + 1) between between →
        registry.resolve name = .error (.aliasCycle name lookupLimit)) ∧
    ∀ fault, registry.resolve name = .error fault →
      fault = .aliasCycle name lookupLimit ∨
        ∃ hops last, registry.Leads hops name last ∧ EntryName.ofValue? last = none ∧
          registry.lookup last = .error fault := by
  refine ⟨?_, ?_, fun fault => fault_of_follow⟩
  · intro resolution hresolve
    obtain ⟨hops, hlt, hchain⟩ := resolve_eq_ok_iff.mp hresolve
    refine ⟨⟨hops, hchain.leads⟩, hchain.isEnd, fun more between hbetween => ?_⟩
    -- A name on the way has fewer aliases ahead of it, so the look-ups suffice for it too.
    obtain ⟨rest, rfl, hrest⟩ := hchain.of_leads hbetween
    exact resolve_eq_ok_iff.mpr ⟨rest, by omega, hrest⟩
  · intro hops back between hleads hcycle
    obtain ⟨round, hround⟩ := hcycle.exists_of_cycle lookupLimit
    obtain ⟨last, hlast⟩ := (hleads.trans hround).exists_of_le (Nat.le_add_left lookupLimit hops)
    exact follow_eq_aliasCycle_iff.mpr ⟨rfl, rfl, last, hlast⟩

end Registry
end CallSchema
