import CallSchema.Call.Signature
import CallSchema.Host
import CallSchema.Value.Depth
import CallSchema.Value.Measure

/-!
# Views of a call

The values of a call in one indexed list, each with the key it came under: its position, or the name
of a field.  Bound calls, sequences and records have such a view, and a view is one already.  Text and
bytes are no calls.  Every value of a view is nested inside the value that was viewed
(`depth_lt_of_mem_ofValue`).
-/

namespace CallSchema

/-- The values of a call, and the keys they came under. -/
structure CallView where
  keys : List Value
  values : List Value

namespace CallView

/-- The first `count` positions, as keys. -/
def positions (count : Nat) : List Value :=
  (List.range count).map fun (i : Nat) => .int i

/-- The view of values passed by position. -/
def ofPositional (values : List Value) : CallView :=
  ⟨positions values.length, values⟩

/-- The view of values with keys of their own. -/
def ofEntries (entries : List (Value × Value)) : CallView :=
  ⟨entries.map Prod.fst, entries.map Prod.snd⟩

/-- Two views, one after the other. -/
def append (first second : CallView) : CallView :=
  ⟨first.keys ++ second.keys, first.values ++ second.values⟩

/-- A value passed by position is no deeper than the argument it comes from. -/
theorem depth_le_of_mem_positionalOf {p : Parameter} {argument value : Value}
    (h : value ∈ Signature.positionalOf p argument) : value.depth ≤ argument.depth := by
  unfold Signature.positionalOf Signature.collectedItems at h
  split at h
  · split at h
    · have := Value.depth_le_of_mem_items h
      rw [Value.depth]
      omega
    · exact Nat.le_of_eq (congrArg Value.depth (List.mem_singleton.mp h))
  · exact Nat.le_of_eq (congrArg Value.depth (List.mem_singleton.mp h))

/-- A value passed by name is no deeper than the argument it comes from. -/
theorem depth_le_of_mem_namedOf {p : Parameter} {argument : Value} {entry : Value × Value}
    (h : entry ∈ Signature.namedOf p argument) : entry.2.depth ≤ argument.depth := by
  unfold Signature.namedOf Signature.collectedEntries at h
  split at h
  · split at h
    · have := Value.depth_le_of_mem_entries h
      rw [Value.depth]
      omega
    · cases h
  · exact Nat.le_of_eq (congrArg (fun entry => entry.2.depth) (List.mem_singleton.mp h))

theorem depth_le_of_mem_positionalPart {bound : List (String × Value)} {value : Value}
    {parameters : Signature} (h : value ∈ Signature.positionalPart bound parameters) :
    value.depth ≤ Value.depthOfArguments bound := by
  induction parameters with
  | nil => cases h
  | cons p parameters ih =>
      unfold Signature.positionalPart at h
      split at h
      · cases h
      · split at h
        · cases h
        · rename_i argument hlookup
          rcases List.mem_append.mp h with hmem | hmem
          · exact Nat.le_trans (depth_le_of_mem_positionalOf hmem)
              (Value.depth_le_of_lookup hlookup)
          · exact ih hmem

theorem depth_le_of_mem_allNamed {bound : List (String × Value)} {entry : Value × Value}
    {parameters : Signature} (h : entry ∈ Signature.allNamed bound parameters) :
    entry.2.depth ≤ Value.depthOfArguments bound := by
  induction parameters with
  | nil => cases h
  | cons p parameters ih =>
      unfold Signature.allNamed at h
      split at h
      · exact ih h
      · rename_i argument hlookup
        rcases List.mem_append.mp h with hmem | hmem
        · exact Nat.le_trans (depth_le_of_mem_namedOf hmem) (Value.depth_le_of_lookup hlookup)
        · exact ih hmem

theorem depth_le_of_mem_namedPart {bound : List (String × Value)} {entry : Value × Value}
    {parameters : Signature} (h : entry ∈ Signature.namedPart bound parameters) :
    entry.2.depth ≤ Value.depthOfArguments bound := by
  induction parameters with
  | nil => cases h
  | cons p parameters ih =>
      unfold Signature.namedPart at h
      split at h
      · exact depth_le_of_mem_allNamed h
      · exact ih h

section

variable [Host]

/-- The view of a range: its items are listed, if they can be counted and there is room for them. -/
def ofRange (start stop step : Int) : Except Fault CallView := do
  let length ← (Value.range start stop step).measured
  if length < Host.room then
    return ofPositional (Value.rangeItems start stop step)
  else
    .error .outOfMemory

/-- The view of call values. -/
def ofValue : Value → Except Fault CallView
  | .view keys values => .ok ⟨keys, values⟩
  | .bound parameters bound =>
      .ok ((ofPositional (Signature.positionalPart bound parameters)).append
        (ofEntries (Signature.namedPart bound parameters)))
  | .seq _ items => .ok (ofPositional items)
  | .range start stop step => ofRange start stop step
  | .record _ entries => .ok (ofEntries entries)
  | value => .error (.callShape value.kind)

/-- What lists a range are its items. -/
theorem eq_of_ofRange {start stop step : Int} {view : CallView}
    (h : ofRange start stop step = .ok view) :
    view = ofPositional (Value.rangeItems start stop step) := by
  unfold ofRange at h
  cases hlength : (Value.range start stop step).measured with
  | error fault =>
      rw [hlength] at h
      cases h
  | ok length =>
      rw [hlength] at h
      by_cases hroom : length < Host.room
      · simp only [bind, Except.bind, hroom, if_true] at h
        cases h
        rfl
      · simp only [bind, Except.bind, hroom, if_false] at h
        cases h

/-- Every value of a view is less deep than the value that was viewed. -/
theorem depth_lt_of_mem_ofValue {values value : Value} {view : CallView}
    (h : ofValue values = .ok view) (hmem : value ∈ view.values) : value.depth < values.depth := by
  unfold ofValue at h
  split at h
  · rename_i keys held
    cases h
    have := Value.depth_le_of_mem_items (show value ∈ held from hmem)
    rw [Value.depth]
    omega
  · cases h
    rw [Value.depth]
    rcases List.mem_append.mp hmem with hpos | hnamed
    · have := depth_le_of_mem_positionalPart hpos
      omega
    · obtain ⟨entry, hentry, rfl⟩ := List.mem_map.mp hnamed
      have := depth_le_of_mem_namedPart hentry
      omega
  · rename_i items
    cases h
    have := Value.depth_le_of_mem_items (show value ∈ items from hmem)
    rw [Value.depth]
    omega
  · rw [eq_of_ofRange h] at hmem
    obtain ⟨i, -, rfl⟩ := List.mem_map.mp hmem
    simp [Value.depth]
  · cases h
    obtain ⟨entry, hentry, rfl⟩ := List.mem_map.mp hmem
    have := Value.depth_le_of_mem_entries hentry
    rw [Value.depth]
    omega
  · cases h

/-- What has a view is a container. -/
theorem depth_pos_of_ofValue {values : Value} {view : CallView} (h : ofValue values = .ok view) :
    0 < values.depth := by
  unfold ofValue at h
  split at h
  · simp [Value.depth]
  · simp [Value.depth]
  · simp [Value.depth]
  · simp [Value.depth]
  · simp [Value.depth]
  · cases h

end

/-- How many values the call has. -/
def size (view : CallView) : Nat := view.values.length

/-- The value at an index; past the end it is null. -/
def valueAt (view : CallView) (index : Nat) : Value := view.values.getD index .null

/-- What stands at an index is null or one of the values. -/
theorem valueAt_eq_null_or_mem (view : CallView) (index : Nat) :
    view.valueAt index = .null ∨ view.valueAt index ∈ view.values := by
  unfold valueAt
  rw [List.getD_eq_getElem?_getD]
  cases h : view.values[index]? with
  | none => exact Or.inl rfl
  | some value => exact Or.inr (List.mem_of_getElem? h)

/-- The key at an index; past the end it is null. -/
def keyAt (view : CallView) (index : Nat) : Value := view.keys.getD index .null

/-- The item at an index that may count from the end: past the end it is null, before the start there
is none, and an index that no word holds is a fault of its own. -/
def slotAt (items : List Value) (index : Int) : Except Fault Value :=
  if 0 ≤ index then .ok (items.getD index.toNat .null)
  else if 0 ≤ index + items.length then .ok (items.getD (index + items.length).toNat .null)
  else if 0 ≤ index + Value.wordBound then .error .indexOutOfRange
  else .error .indexTooLow

/-- The view without its first `count` keys and values. -/
def drop (count : Nat) (view : CallView) : CallView :=
  ⟨view.keys.drop count, view.values.drop count⟩

end CallView
end CallSchema
