import CallSchema.Call.View

/-!
# The values of a bound call

A bound call is spread out into values passed by position and values passed by name.  Where no parameter
collects others, these are the values of the bound parameters in the order of the signature, whichever
way they were passed (`values_of_bound`): a parameter that was left out leaves no gap.
-/

namespace CallSchema
namespace Signature

/-- No parameter collects the arguments that are left. -/
def Plain (signature : Signature) : Prop :=
  ∀ p ∈ signature, p.kind ≠ .restPositional ∧ p.kind ≠ .restKeyword

instance (signature : Signature) : Decidable signature.Plain :=
  inferInstanceAs (Decidable (∀ p ∈ signature, p.kind ≠ .restPositional ∧ p.kind ≠ .restKeyword))

/-- The values of the bound parameters, in the order of the signature. -/
def boundValues (bound : List (String × Value)) (signature : Signature) : List Value :=
  signature.filterMap fun p => bound.lookup p.name

variable {bound : List (String × Value)} {signature : Signature} {p : Parameter} {value : Value}

theorem boundValues_cons_of_none (h : bound.lookup p.name = none) :
    boundValues bound (p :: signature) = boundValues bound signature :=
  List.filterMap_cons_none h

theorem boundValues_cons_of_some (h : bound.lookup p.name = some value) :
    boundValues bound (p :: signature) = value :: boundValues bound signature :=
  List.filterMap_cons_some h

theorem Plain.tail (h : Plain (p :: signature)) : Plain signature :=
  fun other hmem => h other (List.mem_cons_of_mem p hmem)

theorem map_snd_allNamed (h : Plain signature) :
    (allNamed bound signature).map Prod.snd = boundValues bound signature := by
  induction signature with
  | nil => rfl
  | cons p signature ih =>
      have hrest := ih h.tail
      have hkind := (h p List.mem_cons_self).2
      cases hlookup : bound.lookup p.name with
      | none => simp [allNamed, hlookup, hrest, boundValues_cons_of_none hlookup]
      | some value =>
          simp [allNamed, namedOf, hkind, hlookup, hrest, boundValues_cons_of_some hlookup]

/-- What is passed by position and by name are the values of the bound parameters. -/
theorem positionalPart_append_namedPart (h : Plain signature) :
    positionalPart bound signature ++ (namedPart bound signature).map Prod.snd =
      boundValues bound signature := by
  induction signature with
  | nil => rfl
  | cons p signature ih =>
      have hall : (allNamed bound (p :: signature)).map Prod.snd =
          boundValues bound (p :: signature) := map_snd_allNamed h
      have hkind := (h p List.mem_cons_self).1
      -- From the first parameter on that is unbound or only has a name, all are passed by name.
      cases hname : isByName p with
      | true => simpa [positionalPart, namedPart, hname] using hall
      | false =>
          cases hlookup : bound.lookup p.name with
          | none => simpa [positionalPart, namedPart, hname, hlookup] using hall
          | some value =>
              simp [positionalPart, namedPart, positionalOf, hkind, hname, hlookup, ih h.tail,
                boundValues_cons_of_some hlookup]

theorem length_boundValues (h : ∀ p ∈ signature, (bound.lookup p.name).isSome) :
    (boundValues bound signature).length = signature.length :=
  List.filterMap_length_eq_length.mpr h

/-- When all parameters before one are bound, its value stands at its own index. -/
theorem boundValues_getElem? {before after : Signature}
    (h : ∀ p ∈ before, (bound.lookup p.name).isSome) (hvalue : bound.lookup p.name = some value) :
    (boundValues bound (before ++ p :: after))[before.length]? = some value := by
  have hvalues : boundValues bound (before ++ p :: after) =
      boundValues bound before ++ value :: boundValues bound after := by
    rw [← boundValues_cons_of_some hvalue]
    exact List.filterMap_append
  rw [hvalues, ← length_boundValues h, List.getElem?_append_right (Nat.le_refl _), Nat.sub_self]
  rfl

end Signature

/-- The view of a bound call holds the values of the bound parameters. -/
theorem CallView.values_of_bound [Host] {bound : List (String × Value)} {signature : Signature}
    {view : CallView} (h : signature.Plain)
    (hview : CallView.ofValue (.bound signature bound) = .ok view) :
    view.values = signature.boundValues bound := by
  cases hview
  exact Signature.positionalPart_append_namedPart h

end CallSchema
