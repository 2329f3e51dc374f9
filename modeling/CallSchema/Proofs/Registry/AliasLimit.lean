import CallSchema.Proofs.Registry.AliasPath
import CallSchema.Registry.Standard
import Mathlib

/-!
# How many aliases can be followed

Looking up the name at the end of a chain takes a look-up like any other, so a limit of look-ups is a limit
of one alias less: a name resolves when fewer aliases than `lookupLimit` lead to its end, and a chain of
exactly that many already ends in the fault of a cycle (`cycle_fault_iff_limit_reached`,
`chain_of_limit_does_not_resolve`).
-/

namespace CallSchema
namespace Registry

/-- The name is an alias of another one. -/
def IsAlias (registry : Registry) (name : Value) : Prop :=
  ∃ target, registry.lookup name = .ok (some (.aliasTo target))

variable {registry : Registry} {name last other : Value} {resolution : Resolution} {hops : Nat}

/-- One more alias leads on exactly from a name that is one. -/
theorem exists_leads_succ_iff :
    (∃ last, registry.Leads (hops + 1) name last) ↔
      ∃ between, registry.Leads hops name between ∧ registry.IsAlias between := by
  induction hops generalizing name with
  | zero =>
      constructor
      · rintro ⟨last, hleads⟩
        obtain ⟨target, hlookup, -⟩ := leads_succ_iff.mp hleads
        exact ⟨name, .refl name, target, hlookup⟩
      · rintro ⟨between, ⟨⟩, target, hlookup⟩
        exact ⟨target, .hop hlookup (.refl target)⟩
  | succ hops ih =>
      constructor
      · rintro ⟨last, hleads⟩
        obtain ⟨target, hlookup, hrest⟩ := leads_succ_iff.mp hleads
        obtain ⟨between, hbetween, halias⟩ := ih.mp ⟨last, hrest⟩
        exact ⟨between, .hop hlookup hbetween, halias⟩
      · rintro ⟨between, hleads, halias⟩
        obtain ⟨target, hlookup, hrest⟩ := leads_succ_iff.mp hleads
        obtain ⟨last, hlast⟩ := ih.mpr ⟨between, hrest, halias⟩
        exact ⟨last, .hop hlookup hlast⟩

/-- A number of aliases lead from a name to at most one other. -/
theorem Leads.unique (h : registry.Leads hops name last) (hother : registry.Leads hops name other) :
    last = other := by
  induction h with
  | refl name =>
      cases hother
      rfl
  | hop hlookup _ ih =>
      obtain ⟨target, hnext, hrest⟩ := leads_succ_iff.mp hother
      cases hlookup.symm.trans hnext
      exact ih hrest

/-- When a name has a chain, it leads over as many aliases as the chain has, and no more. -/
theorem AliasChain.exists_leads_iff {more : Nat} (h : registry.AliasChain hops name resolution) :
    (∃ last, registry.Leads more name last) ↔ more ≤ hops := by
  constructor
  · rintro ⟨last, hleads⟩
    obtain ⟨rest, rfl, -⟩ := h.of_leads hleads
    exact Nat.le_add_right more rest
  · intro hle
    exact h.leads.exists_of_le hle

theorem resolve_eq_aliasCycle_iff {cited : Value} {limit : Nat} :
    registry.resolve name = .error (.aliasCycle cited limit) ↔
      cited = name ∧ limit = lookupLimit ∧ ∃ last, registry.Leads lookupLimit name last :=
  follow_eq_aliasCycle_iff

/-- When the aliases of a name are too many.  The fault of a cycle arises exactly when as many aliases as
the limit lead on from the name, endlessly or to an end: a chain resolves when it has fewer aliases than
the limit.  So the rule that only more aliases than the limit are a fault holds of every name but those
from which exactly as many lead to a name that is no alias. -/
theorem cycle_fault_iff_limit_reached (registry : Registry) (name : Value) :
    (∀ cited limit, registry.resolve name = .error (.aliasCycle cited limit) ↔
      cited = name ∧ limit = lookupLimit ∧ ∃ last, registry.Leads lookupLimit name last) ∧
    (∀ hops resolution, registry.AliasChain hops name resolution →
      (registry.resolve name = .ok resolution ↔ hops < lookupLimit) ∧
      (registry.resolve name = .error (.aliasCycle name lookupLimit) ↔ lookupLimit ≤ hops)) ∧
    ((registry.resolve name = .error (.aliasCycle name lookupLimit) ↔
        ∃ last, registry.Leads (lookupLimit + 1) name last) ↔
      ¬ ∃ last, registry.Leads lookupLimit name last ∧ ¬ registry.IsAlias last) := by
  have hfault : registry.resolve name = .error (.aliasCycle name lookupLimit) ↔
      ∃ last, registry.Leads lookupLimit name last := by
    simp [resolve_eq_aliasCycle_iff]
  refine ⟨fun cited limit => resolve_eq_aliasCycle_iff, fun hops resolution hchain => ⟨?_, ?_⟩, ?_⟩
  · rw [resolve_eq_ok_iff]
    constructor
    · rintro ⟨other, hlt, hother⟩
      exact Nat.lt_of_le_of_lt (hother.exists_leads_iff.mp ⟨_, hchain.leads⟩) hlt
    · intro hlt
      exact ⟨hops, hlt, hchain⟩
  · rw [hfault, hchain.exists_leads_iff]
  · rw [hfault, exists_leads_succ_iff]
    constructor
    · rintro hrule ⟨last, hlast, hend⟩
      obtain ⟨between, hbetween, halias⟩ := hrule.mp ⟨last, hlast⟩
      rw [hbetween.unique hlast] at halias
      exact hend halias
    · intro hnone
      constructor
      · rintro ⟨last, hlast⟩
        exact ⟨last, hlast, not_not.mp fun hend => hnone ⟨last, hlast, hend⟩⟩
      · rintro ⟨between, hbetween, -⟩
        exact ⟨between, hbetween⟩

/-! ## A ladder of aliases -/

/-- The names of a ladder: a standard name at the bottom, and a number on each rung above it. -/
def rung : Nat → String
  | 0 => "string"
  | height + 1 => "t" ++ toString (height + 1)

/-- The standard registry with a ladder, on which each name is an alias of the one below. -/
def ladder (height : Nat) : Registry :=
  standard.putAll ((List.range height).map fun below =>
    (.text (rung (below + 1)), .aliasTo (.str (rung below))))

theorem rung_succ_ne_zero (height : Nat) : rung (height + 1) ≠ rung 0 := by
  intro h
  have hletters := congrArg String.toList h
  simp [rung] at hletters

theorem rung_injective : Function.Injective rung := by
  intro height other h
  cases height with
  | zero =>
      cases other with
      | zero => rfl
      | succ other => exact absurd h.symm (rung_succ_ne_zero other)
  | succ height =>
      cases other with
      | zero => exact absurd h (rung_succ_ne_zero height)
      | succ other => exact Nat.repr_injective ((String.append_right_inj "t").mp h)

theorem ladder_succ (height : Nat) : ladder (height + 1) =
    (ladder height).put (.text (rung (height + 1))) (.aliasTo (.str (rung height))) := by
  rw [ladder, ladder, List.range_succ, List.map_append, Table.putAll_append]
  rfl

/-- The names on a ladder stand for the same when it is made higher. -/
theorem get?_ladder_succ {height below : Nat} (h : below ≤ height) :
    (ladder (height + 1)).get? (.text (rung below)) =
      (ladder height).get? (.text (rung below)) := by
  rw [ladder_succ, Table.get?_put, if_neg]
  intro hname
  have hsame := rung_injective (EntryName.text.inj hname)
  omega

theorem get?_ladder_bottom (height : Nat) :
    (ladder height).get? (.text (rung 0)) = some (standardEntry .isString) := by
  induction height with
  | zero => cbv
  | succ height ih => rw [get?_ladder_succ (Nat.zero_le height), ih]

theorem get?_ladder_rung {height below : Nat} (h : below < height) :
    (ladder height).get? (.text (rung (below + 1))) = some (.aliasTo (.str (rung below))) := by
  induction height with
  | zero => exact absurd h (Nat.not_lt_zero below)
  | succ height ih =>
      rcases Nat.lt_succ_iff_lt_or_eq.mp h with hlt | rfl
      · rw [get?_ladder_succ hlt, ih hlt]
      · rw [ladder_succ, Table.get?_put, if_pos rfl]

/-- From each rung of a ladder as many aliases lead to the bottom as there are rungs below it. -/
theorem aliasChain_ladder {height above : Nat} (h : above ≤ height) :
    (ladder height).AliasChain above (.str (rung above))
      ⟨.str "string", .callable (.standard .isString)⟩ := by
  induction above with
  | zero =>
      have hlookup : (ladder height).lookup (.str "string") =
          .ok (some (standardEntry .isString)) :=
        congrArg (Except.ok ∘ present) (get?_ladder_bottom height)
      exact .held hlookup
  | succ above ih =>
      have hlookup : (ladder height).lookup (.str (rung (above + 1))) =
          .ok (some (.aliasTo (.str (rung above)))) :=
        congrArg (Except.ok ∘ present) (get?_ladder_rung h)
      exact .hop hlookup (ih (Nat.le_of_succ_le h))

/-- From the rung at the height of the limit exactly as many aliases lead down to a standard matcher, and
still the name does not resolve, while the name below it does.  So it is not only for more aliases than
the limit that resolving ends in the fault of a cycle. -/
theorem chain_of_limit_does_not_resolve :
    (ladder lookupLimit).AliasChain lookupLimit (.str (rung lookupLimit))
      ⟨.str "string", .callable (.standard .isString)⟩ ∧
    (ladder lookupLimit).resolve (.str (rung lookupLimit)) =
      .error (.aliasCycle (.str (rung lookupLimit)) lookupLimit) ∧
    (ladder lookupLimit).resolve (.str (rung (lookupLimit - 1))) =
      .ok ⟨.str "string", .callable (.standard .isString)⟩ ∧
    ¬ ∀ (registry : Registry) (name : Value),
      registry.resolve name = .error (.aliasCycle name lookupLimit) ↔
        ∃ last, registry.Leads (lookupLimit + 1) name last := by
  have hchain := aliasChain_ladder (Nat.le_refl lookupLimit)
  have hfault : (ladder lookupLimit).resolve (.str (rung lookupLimit)) =
      .error (.aliasCycle (.str (rung lookupLimit)) lookupLimit) :=
    resolve_eq_aliasCycle_iff.mpr ⟨rfl, rfl, _, hchain.leads⟩
  have hbelow : (ladder lookupLimit).resolve (.str (rung (lookupLimit - 1))) =
      .ok ⟨.str "string", .callable (.standard .isString)⟩ :=
    resolve_eq_ok_iff.mpr ⟨lookupLimit - 1, by decide, aliasChain_ladder (Nat.sub_le _ _)⟩
  refine ⟨hchain, hfault, hbelow, fun hrule => ?_⟩
  have hmore := hchain.exists_leads_iff.mp ((hrule _ _).mp hfault)
  omega

end Registry
end CallSchema
