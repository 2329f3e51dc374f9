import CallSchema.Value.Basic

/-!
# How deeply values nest

The depth of a value bounds every walk into it: what a container holds is less deep than the container,
so `depth_lt_of_mem` and its companions are what makes such walks end.  Values that hold no other value
have depth zero, null among them.
-/

namespace CallSchema
namespace Value

mutual

/-- How deeply call values nest: a value that holds no other value has depth zero, and each
container is one deeper than the deepest value in it. -/
def depth : Value → Nat
  | seq _ items => depthOfItems items + 1
  | set _ items => depthOfItems items + 1
  | record _ entries => depthOfEntries entries + 1
  | aliasTo target => depth target + 1
  | view keys values => max (depthOfItems keys) (depthOfItems values) + 1
  | bound _ arguments => depthOfArguments arguments + 1
  | range _ _ _ => 1
  | _ => 0

/-- The depth of the deepest item. -/
def depthOfItems : List Value → Nat
  | [] => 0
  | item :: items => max (depth item) (depthOfItems items)

/-- The depth of the deepest key or value. -/
def depthOfEntries : List (Value × Value) → Nat
  | [] => 0
  | (key, value) :: entries => max (max (depth key) (depth value)) (depthOfEntries entries)

/-- The depth of the deepest argument. -/
def depthOfArguments : List (String × Value) → Nat
  | [] => 0
  | (_, value) :: arguments => max (depth value) (depthOfArguments arguments)

end

theorem depth_le_of_mem_items {value : Value} {items : List Value} (h : value ∈ items) :
    value.depth ≤ depthOfItems items := by
  induction items with
  | nil => cases h
  | cons item items ih =>
      rw [depthOfItems]
      rcases List.mem_cons.mp h with rfl | hmem
      · omega
      · have := ih hmem
        omega

theorem depth_le_of_mem_entries {entry : Value × Value} {entries : List (Value × Value)}
    (h : entry ∈ entries) : entry.2.depth ≤ depthOfEntries entries := by
  induction entries with
  | nil => cases h
  | cons first entries ih =>
      rw [depthOfEntries]
      rcases List.mem_cons.mp h with rfl | hmem
      · omega
      · have := ih hmem
        omega

theorem depth_le_of_lookup {name : String} {value : Value} {arguments : List (String × Value)}
    (h : arguments.lookup name = some value) : value.depth ≤ depthOfArguments arguments := by
  induction arguments with
  | nil => simp at h
  | cons first arguments ih =>
      obtain ⟨other, held⟩ := first
      rw [depthOfArguments]
      rw [List.lookup_cons] at h
      split at h
      · cases h
        omega
      · have := ih h
        omega

end Value
end CallSchema
