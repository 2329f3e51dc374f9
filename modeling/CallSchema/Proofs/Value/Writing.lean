import CallSchema.Proofs.Run
import CallSchema.Value.Display

/-!
# Values that cannot be written

Writing a value ends in a fault when an integer in it has too many digits or when an object in it ends in
an error, and for no other reason (`fromText_of_quoted`).  Neither is a fault of the library's own.
-/

namespace CallSchema

/-- What comes of writing a value that cannot be written. -/
inductive Fault.FromText : Fault → Prop where
  | tooManyDigits : FromText .tooManyDigits
  | raised (error : Raised) : FromText (.raised error)

theorem Fault.FromText.family?_eq_none {fault : Fault} (h : fault.FromText) :
    fault.family? = none := by
  cases h with
  | tooManyDigits => rfl
  | raised error => rfl

theorem intText_eq_error {n : Int} (h : digitBound ≤ n.natAbs) :
    intText n = .error .tooManyDigits :=
  if_neg (Nat.not_lt.mpr h)

/-- The least integer that is not written out. -/
theorem intText_digitBound : intText digitBound = .error .tooManyDigits :=
  intText_eq_error (Nat.le_of_eq (Int.natAbs_natCast digitBound).symm)

theorem fromText_of_intText {n : Int} {fault : Fault} (h : intText n = .error fault) :
    fault.FromText := by
  unfold intText at h
  split at h
  · cases h
  · cases h
    exact .tooManyDigits

theorem Object.fromText_of_quoted {object : Object} {fault : Fault}
    (h : object.quoted = .error fault) : fault.FromText := by
  unfold Object.quoted at h
  cases htext : object.text with
  | ok text =>
      rw [htext] at h
      cases h
  | error raised =>
      rw [htext] at h
      cases h
      exact .raised raised

namespace Value

variable {fault : Fault}

theorem fromText_of_stepTexts {step : Int} (h : stepTexts step = .error fault) : fault.FromText := by
  unfold stepTexts at h
  split at h
  · cases h
  exact fromText_of_intText (eq_error_of_bind_pure h)

theorem fromText_of_rangeText {start stop step : Int}
    (h : rangeText start stop step = .error fault) : fault.FromText := by
  rcases bind_eq_error_iff.mp h with h | ⟨first, -, h⟩
  · exact fromText_of_intText h
  rcases bind_eq_error_iff.mp h with h | ⟨last, -, h⟩
  · exact fromText_of_intText h
  exact fromText_of_stepTexts (eq_error_of_bind_pure h)

theorem fromText_of_atomText {value : Value} (h : value.atomText = .error fault) :
    fault.FromText := by
  cases value with
  | int n => exact fromText_of_intText h
  | range start stop step => exact fromText_of_rangeText h
  | callable c =>
      cases c with
      | supplied callee =>
          cases callee with
          | object object => exact object.fromText_of_quoted h
          | _ => cases h
      | _ => cases h
  | object object => exact object.fromText_of_quoted h
  | _ => cases h

mutual

/-- A value that cannot be quoted holds an integer of too many digits or an object that ends in an error.
-/
theorem fromText_of_quoted : ∀ (value : Value), value.quoted = .error fault → fault.FromText
  | seq kind items, h => by
      rw [quoted] at h
      exact fromText_of_quotedItems items (eq_error_of_bind_pure h)
  | set kind items, h => by
      rw [quoted] at h
      exact fromText_of_quotedItems items (eq_error_of_bind_pure h)
  | record kind entries, h => by
      rw [quoted] at h
      exact fromText_of_quotedEntries entries (eq_error_of_bind_pure h)
  | aliasTo target, h => by
      rw [quoted] at h
      exact fromText_of_quoted target (eq_error_of_bind_pure h)
  | view keys values, h => by
      rw [quoted] at h
      rcases bind_eq_error_iff.mp h with h | ⟨texts, -, h⟩
      · exact fromText_of_quotedItems keys h
      exact fromText_of_quotedItems values (eq_error_of_bind_pure h)
  | bound parameters arguments, h => by
      rw [quoted] at h
      exact fromText_of_quotedArguments arguments (eq_error_of_bind_pure h)
  | null, h => fromText_of_atomText h
  | bool b, h => fromText_of_atomText h
  | int n, h => fromText_of_atomText h
  | float text, h => fromText_of_atomText h
  | complex re im, h => fromText_of_atomText h
  | decimal text, h => fromText_of_atomText h
  | str text, h => fromText_of_atomText h
  | bytes kind data, h => fromText_of_atomText h
  | range start stop step, h => fromText_of_atomText h
  | date year month day, h => fromText_of_atomText h
  | dateTime year month day hour minute second, h => fromText_of_atomText h
  | pattern p, h => fromText_of_atomText h
  | ellipsis, h => fromText_of_atomText h
  | callable c, h => fromText_of_atomText h
  | object o, h => fromText_of_atomText h

theorem fromText_of_quotedItems : ∀ (items : List Value),
    quotedItems items = .error fault → fault.FromText
  | [], h => by cases h
  | item :: items, h => by
      rw [quotedItems] at h
      rcases bind_eq_error_iff.mp h with h | ⟨text, -, h⟩
      · exact fromText_of_quoted item h
      exact fromText_of_quotedItems items (eq_error_of_bind_pure h)

theorem fromText_of_quotedEntries : ∀ (entries : List (Value × Value)),
    quotedEntries entries = .error fault → fault.FromText
  | [], h => by cases h
  | (key, value) :: entries, h => by
      rw [quotedEntries] at h
      rcases bind_eq_error_iff.mp h with h | ⟨text, -, h⟩
      · exact fromText_of_quoted key h
      rcases bind_eq_error_iff.mp h with h | ⟨text, -, h⟩
      · exact fromText_of_quoted value h
      exact fromText_of_quotedEntries entries (eq_error_of_bind_pure h)

theorem fromText_of_quotedArguments : ∀ (arguments : List (String × Value)),
    quotedArguments arguments = .error fault → fault.FromText
  | [], h => by cases h
  | (name, value) :: arguments, h => by
      rw [quotedArguments] at h
      rcases bind_eq_error_iff.mp h with h | ⟨text, -, h⟩
      · exact fromText_of_quoted value h
      exact fromText_of_quotedArguments arguments (eq_error_of_bind_pure h)

end

theorem fromText_of_shown {value : Value} (h : value.shown = .error fault) : fault.FromText := by
  unfold shown at h
  split at h
  · cases h
  · cases h
  · cases h
  · cases h
  · rename_i entries
    refine fromText_of_quoted (record .plain entries) ?_
    rw [quoted]
    exact h
  · exact fromText_of_quoted _ h

theorem fromText_of_preview {value : Value} (h : value.preview = .error fault) : fault.FromText := by
  exact fromText_of_shown (eq_error_of_bind_pure h)

theorem preview_digitBound : (int digitBound).preview = .error .tooManyDigits := by
  rw [preview, show (int digitBound).shown = .error .tooManyDigits from intText_digitBound]
  rfl

/-- A value that has a text of its own. -/
def Writable (value : Value) : Prop := ∃ text, value.shown = .ok text

theorem writable_str (text : String) : (str text).Writable := ⟨text, rfl⟩

end Value
end CallSchema
