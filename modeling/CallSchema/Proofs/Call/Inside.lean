import CallSchema.Call.View
import Mathlib.Logic.Relation

/-!
# What stands inside a value

A value holds its items, the values of its entries and its arguments, and whatever is reached that way
stands inside it.  Every value of a view stands inside the value that was viewed
(`CallView.inside_of_mem_ofValue`); the arguments that a bound call collected stand inside the tuple or
the record that collects them.
-/

namespace CallSchema

open Relation (ReflTransGen TransGen)

namespace Value

/-- The values that a value holds. -/
inductive Holds : Value → Value → Prop where
  | item {kind : SequenceKind} {items : List Value} {value : Value} (h : value ∈ items) :
      Holds (.seq kind items) value
  | number {start stop step : Int} {value : Value} (h : value ∈ rangeItems start stop step) :
      Holds (.range start stop step) value
  | entry {kind : RecordKind} {entries : List (Value × Value)} {key value : Value}
      (h : (key, value) ∈ entries) : Holds (.record kind entries) value
  | viewed {keys values : List Value} {value : Value} (h : value ∈ values) :
      Holds (.view keys values) value
  | argument {parameters : List Parameter} {arguments : List (String × Value)} {name : String}
      {value : Value} (h : (name, value) ∈ arguments) : Holds (.bound parameters arguments) value

/-- A value stands strictly inside another one, at some depth. -/
def Inside (inner outer : Value) : Prop := TransGen Holds outer inner

end Value

namespace CallView

open Value (Holds)

variable {p : Parameter} {argument value : Value} {entry : Value × Value}
  {bound : List (String × Value)} {parameters : Signature}

/-- A value passed by position is the argument it comes from, or stands inside it. -/
theorem reaches_of_mem_positionalOf (h : value ∈ Signature.positionalOf p argument) :
    ReflTransGen Holds argument value := by
  unfold Signature.positionalOf Signature.collectedItems at h
  split at h
  · split at h
    · exact .single (.item h)
    · rw [List.mem_singleton.mp h]
  · rw [List.mem_singleton.mp h]

/-- A value passed by name is the argument it comes from, or stands inside it. -/
theorem reaches_of_mem_namedOf (h : entry ∈ Signature.namedOf p argument) :
    ReflTransGen Holds argument entry.2 := by
  unfold Signature.namedOf Signature.collectedEntries at h
  split at h
  · split at h
    · exact .single (.entry h)
    · cases h
  · rw [List.mem_singleton.mp h]

/-- What an argument reaches stands inside the bound call. -/
theorem inside_of_lookup {name : String} (hlookup : bound.lookup name = some argument)
    (h : ReflTransGen Holds argument value) : value.Inside (.bound parameters bound) := by
  obtain ⟨before, after, heq, -⟩ := List.lookup_eq_some_iff.mp hlookup
  have hmem : (name, argument) ∈ bound := by rw [heq]; simp
  exact TransGen.head' (.argument hmem) h

theorem inside_of_mem_positionalPart {all : Signature}
    (h : value ∈ Signature.positionalPart bound parameters) : value.Inside (.bound all bound) := by
  induction parameters with
  | nil => cases h
  | cons p parameters ih =>
      unfold Signature.positionalPart at h
      split at h
      · cases h
      · split at h
        · cases h
        · rename_i argument hlookup
          rcases List.mem_append.mp h with hmem | hmem
          · exact inside_of_lookup hlookup (reaches_of_mem_positionalOf hmem)
          · exact ih hmem

theorem inside_of_mem_allNamed {all : Signature}
    (h : entry ∈ Signature.allNamed bound parameters) : entry.2.Inside (.bound all bound) := by
  induction parameters with
  | nil => cases h
  | cons p parameters ih =>
      unfold Signature.allNamed at h
      split at h
      · exact ih h
      · rename_i argument hlookup
        rcases List.mem_append.mp h with hmem | hmem
        · exact inside_of_lookup hlookup (reaches_of_mem_namedOf hmem)
        · exact ih hmem

theorem inside_of_mem_namedPart {all : Signature}
    (h : entry ∈ Signature.namedPart bound parameters) : entry.2.Inside (.bound all bound) := by
  induction parameters with
  | nil => cases h
  | cons p parameters ih =>
      unfold Signature.namedPart at h
      split at h
      · exact inside_of_mem_allNamed h
      · exact ih h

/-- Every value of a view stands inside the value that was viewed. -/
theorem inside_of_mem_ofValue [Host] {values : Value} {view : CallView} (h : ofValue values = .ok view)
    (hmem : value ∈ view.values) : value.Inside values := by
  cases values with
  | view keys held =>
      cases h
      exact .single (.viewed hmem)
  | bound parameters arguments =>
      cases h
      rcases List.mem_append.mp hmem with hpositional | hnamed
      · exact inside_of_mem_positionalPart hpositional
      · obtain ⟨entry, hentry, rfl⟩ := List.mem_map.mp hnamed
        exact inside_of_mem_namedPart hentry
  | seq kind items =>
      cases h
      exact .single (.item hmem)
  | range start stop step =>
      rw [eq_of_ofRange h] at hmem
      exact .single (.number hmem)
  | record kind entries =>
      cases h
      obtain ⟨⟨key, held⟩, hentry, rfl⟩ := List.mem_map.mp hmem
      exact .single (.entry hentry)
  | _ => cases h

end CallView
end CallSchema
