/-!
# Tables

A table maps names to values and remembers the order in which the names first came.  Setting a name
again keeps its place.  Names are texts in most tables; a table says of which type its names are.
-/

namespace CallSchema

/-- The entries with `name` set to `a`: in its place if it is there, at the end otherwise. -/
def putEntry {κ α : Type} [DecidableEq κ] (name : κ) (a : α) : List (κ × α) → List (κ × α)
  | [] => [(name, a)]
  | (other, b) :: entries =>
      if other = name then (name, a) :: entries else (other, b) :: putEntry name a entries

/-- The names after setting one. -/
theorem map_fst_putEntry {κ α : Type} [DecidableEq κ] (name : κ) (a : α) (entries : List (κ × α)) :
    (putEntry name a entries).map Prod.fst =
      if name ∈ entries.map Prod.fst then entries.map Prod.fst
      else entries.map Prod.fst ++ [name] := by
  induction entries with
  | nil => rfl
  | cons entry entries ih =>
      obtain ⟨other, b⟩ := entry
      by_cases h : other = name
      · subst h
        simp [putEntry]
      · have hne : name ≠ other := fun e => h e.symm
        simp only [putEntry, h, if_false, List.map_cons, ih, List.mem_cons, hne, false_or]
        split <;> simp

/-- Looking up a name after one was set. -/
theorem lookup_putEntry {κ α : Type} [DecidableEq κ] (name other : κ) (a : α)
    (entries : List (κ × α)) :
    (putEntry name a entries).lookup other =
      if other = name then some a else entries.lookup other := by
  induction entries with
  | nil =>
      by_cases h : other = name
      · simp [putEntry, h]
      · have hb : (other == name) = false := by simp [h]
        simp [putEntry, List.lookup_cons, hb, h]
  | cons entry entries ih =>
      obtain ⟨first, b⟩ := entry
      by_cases h : first = name
      · subst h
        by_cases ho : other = first
        · simp [putEntry, ho]
        · have hb : (other == first) = false := by simp [ho]
          simp [putEntry, List.lookup_cons, hb, ho]
      · by_cases ho : other = first
        · subst ho
          simp [putEntry, h]
        · have hb : (other == first) = false := by simp [ho]
          simp only [putEntry, h, if_false, List.lookup_cons, hb, ih]

/-- A table from names to values: entries in order of first appearance, each name once. -/
structure Table (κ α : Type) where
  entries : List (κ × α)
  nodup_names : (entries.map Prod.fst).Nodup

namespace Table

variable {κ α : Type}

/-- The table without entries. -/
def empty : Table κ α := ⟨[], List.nodup_nil⟩

instance : Inhabited (Table κ α) := ⟨empty⟩

/-- The names of a table, in order of first appearance. -/
def names (table : Table κ α) : List κ := table.entries.map Prod.fst

/-- How many names the table has. -/
def size (table : Table κ α) : Nat := table.entries.length

variable [DecidableEq κ]

/-- The value of a name. -/
def get? (table : Table κ α) (name : κ) : Option α := table.entries.lookup name

/-- Whether a name is in the table. -/
def contains (table : Table κ α) (name : κ) : Bool := (table.get? name).isSome

/-- Sets a name. -/
def put (table : Table κ α) (name : κ) (a : α) : Table κ α where
  entries := putEntry name a table.entries
  nodup_names := by
    rw [map_fst_putEntry]
    split
    · exact table.nodup_names
    · rename_i h
      exact List.nodup_append.mpr ⟨table.nodup_names, by simp, by
        intro x hx y hy hxy
        rw [List.mem_singleton] at hy
        subst hy; subst hxy
        exact h hx⟩

/-- Sets names one after another. -/
def putAll (table : Table κ α) (entries : List (κ × α)) : Table κ α :=
  entries.foldl (fun table entry => table.put entry.1 entry.2) table

@[simp] theorem get?_put (table : Table κ α) (name other : κ) (a : α) :
    (table.put name a).get? other = if other = name then some a else table.get? other :=
  lookup_putEntry name other a table.entries

@[simp] theorem names_put (table : Table κ α) (name : κ) (a : α) :
    (table.put name a).names =
      if name ∈ table.names then table.names else table.names ++ [name] :=
  map_fst_putEntry name a table.entries

@[simp] theorem putAll_nil (table : Table κ α) : table.putAll [] = table := rfl

@[simp] theorem putAll_cons (table : Table κ α) (entry : κ × α)
    (entries : List (κ × α)) :
    table.putAll (entry :: entries) = (table.put entry.1 entry.2).putAll entries := rfl

theorem putAll_append (table : Table κ α) (first second : List (κ × α)) :
    table.putAll (first ++ second) = (table.putAll first).putAll second := by
  simp [putAll, List.foldl_append]

/-- Names that are not set keep their values. -/
theorem get?_putAll_of_not_mem (table : Table κ α) {name : κ} {entries : List (κ × α)}
    (h : name ∉ entries.map Prod.fst) : (table.putAll entries).get? name = table.get? name := by
  induction entries generalizing table with
  | nil => rfl
  | cons entry entries ih =>
      rw [List.map_cons, List.mem_cons, not_or] at h
      rw [putAll_cons, ih _ h.2, get?_put, if_neg h.1]

end Table
end CallSchema
