import CallSchema.Table.Held
import Mathlib.Data.List.Induction
import Mathlib.Data.List.Nodup

/-!
# Laws of tables

A name holds what it was set to last (`get?_putAll`), names are only ever added behind the others
(`names_prefix_putAll`), and a table is told by the order of its names and what they hold (`ext_get?`).
So entries can be gathered in a table of their own before they are set: what is overwritten on the way
leaves no trace (`putAll_entries_putAll`).
-/

namespace CallSchema

section Entries

variable {κ α : Type} [DecidableEq κ] {entries others : List (κ × α)} {name : κ}

theorem isSome_lookup_iff : (entries.lookup name).isSome = true ↔ name ∈ entries.map Prod.fst := by
  induction entries with
  | nil => simp
  | cons entry entries ih =>
      by_cases h : name = entry.1
      · simp [h]
      · have hb : (name == entry.1) = false := by simp [h]
        rw [List.lookup_cons, hb, List.map_cons, List.mem_cons, ← ih]
        simp [h]

/-- When names come once, it does not matter from which end they are looked up. -/
theorem lookup_reverse_of_nodup (h : (entries.map Prod.fst).Nodup) :
    entries.reverse.lookup name = entries.lookup name := by
  induction entries with
  | nil => rfl
  | cons entry entries ih =>
      obtain ⟨hfirst, hrest⟩ := List.nodup_cons.mp h
      rw [List.reverse_cons, List.lookup_append, ih hrest, List.lookup_cons, List.lookup_cons]
      by_cases hname : name = entry.1
      · have hnone : entries.lookup name = none := by
          rw [← Option.not_isSome_iff_eq_none, isSome_lookup_iff, hname]
          exact hfirst
        rw [hnone, Option.none_or]
        rfl
      · have hb : (name == entry.1) = false := by simp [hname]
        rw [hb, List.lookup_nil, Option.or_none]

/-- Entries are told by the order of their names and what these hold. -/
theorem eq_of_lookup_eq (hnodup : (entries.map Prod.fst).Nodup)
    (hnames : entries.map Prod.fst = others.map Prod.fst)
    (hlookup : ∀ name ∈ entries.map Prod.fst, entries.lookup name = others.lookup name) :
    entries = others := by
  induction entries generalizing others with
  | nil => exact (List.map_eq_nil_iff.mp hnames.symm).symm
  | cons entry entries ih =>
      obtain ⟨name, a⟩ := entry
      obtain ⟨⟨name', b⟩, rest, rfl, hname, hrest⟩ := List.map_eq_cons_iff.mp hnames.symm
      obtain rfl : name' = name := hname
      obtain ⟨hfirst, hnodup⟩ := List.nodup_cons.mp hnodup
      have hvalue : some a = some b := by
        have hhead := hlookup name' List.mem_cons_self
        rwa [List.lookup_cons_self, List.lookup_cons_self] at hhead
      rw [Option.some.inj hvalue, ih hnodup hrest.symm]
      intro other hother
      have hb : (other == name') = false := by
        rw [beq_eq_false_iff_ne]
        rintro rfl
        exact hfirst hother
      have htail := hlookup other (List.mem_cons_of_mem _ hother)
      rwa [List.lookup_cons, List.lookup_cons, hb] at htail

/-- When names come once, no other entry has the name of one. -/
theorem ne_of_nodup_middle {ν : Type} {name : ν} {a : α} {before after : List (ν × α)}
    (h : ((before ++ (name, a) :: after).map Prod.fst).Nodup) {entry : ν × α}
    (hentry : entry ∈ before ++ after) : entry.1 ≠ name := by
  rw [List.map_append, List.map_cons, List.nodup_middle, ← List.map_append] at h
  rintro rfl
  exact h.notMem (List.mem_map.mpr ⟨entry, hentry, rfl⟩)

/-- When names come once, a name holds what stands beside it. -/
theorem lookup_eq_some_iff_mem (h : (entries.map Prod.fst).Nodup) {a : α} :
    entries.lookup name = some a ↔ (name, a) ∈ entries := by
  constructor
  · intro hlookup
    obtain ⟨before, after, rfl, -⟩ := List.lookup_eq_some_iff.mp hlookup
    simp
  · intro hmem
    obtain ⟨before, after, rfl⟩ := List.append_of_mem hmem
    refine List.lookup_eq_some_iff.mpr ⟨before, after, rfl, ?_⟩
    intro entry hentry
    exact bne_iff_ne.mpr (ne_of_nodup_middle h (List.mem_append_left _ hentry)).symm

theorem lookup_eq_of_perm (h : entries.Perm others) (hnodup : (entries.map Prod.fst).Nodup) :
    entries.lookup name = others.lookup name := by
  have hothers : (others.map Prod.fst).Nodup := (h.map Prod.fst).nodup_iff.mp hnodup
  apply Option.ext
  intro a
  rw [lookup_eq_some_iff_mem hnodup, lookup_eq_some_iff_mem hothers, h.mem_iff]

/-- When names come once, an entry can be taken out and put in front. -/
theorem perm_cons_filter_of_lookup (hnodup : (entries.map Prod.fst).Nodup) {a : α}
    (h : entries.lookup name = some a) :
    entries.Perm ((name, a) :: entries.filter fun entry => entry.1 != name) := by
  obtain ⟨before, after, rfl, -⟩ := List.lookup_eq_some_iff.mp h
  have hothers : ∀ entry ∈ before ++ after, (entry.1 != name) = true := fun entry hentry =>
    bne_iff_ne.mpr (ne_of_nodup_middle hnodup hentry)
  have hfilter : (before ++ (name, a) :: after).filter (fun entry => entry.1 != name) =
      before ++ after := by
    rw [List.filter_append, List.filter_cons_of_neg (by simp), ← List.filter_append,
      List.filter_eq_self.mpr hothers]
  rw [hfilter]
  exact List.perm_middle

end Entries

namespace Table

variable {κ α : Type} [DecidableEq κ]

theorem contains_iff_mem_names {table : Table κ α} {name : κ} :
    table.contains name = true ↔ name ∈ table.names := isSome_lookup_iff

theorem held_eq_ok_iff {table : Table String α} {name : String} {a : α} :
    table.held name = .ok a ↔ table.get? name = some a := by
  unfold held
  split
  · rename_i found hfound
    simp [hfound]
  · rename_i hnone
    simp [hnone]

/-- After a name was set, a name holds what that one was set to, or what it held before. -/
theorem eq_or_of_get?_put {table : Table κ α} {name other : κ} {a b : α}
    (h : (table.put name a).get? other = some b) : b = a ∨ table.get? other = some b := by
  rw [get?_put] at h
  split at h
  · cases h
    exact Or.inl rfl
  · exact Or.inr h

/-- A table is told by the order of its names and what they hold. -/
theorem ext_get? {table other : Table κ α} (hnames : table.names = other.names)
    (hget : ∀ name, table.get? name = other.get? name) : table = other := by
  obtain ⟨entries, hnodup⟩ := table
  obtain ⟨others, _⟩ := other
  obtain rfl : entries = others := eq_of_lookup_eq hnodup hnames fun name _ => hget name
  rfl

/-- A name holds what it was set to last. -/
theorem get?_putAll (table : Table κ α) (entries : List (κ × α)) (name : κ) :
    (table.putAll entries).get? name = (entries.reverse.lookup name).or (table.get? name) := by
  induction entries generalizing table with
  | nil => rfl
  | cons entry entries ih =>
      rw [putAll_cons, ih, get?_put, List.reverse_cons, List.lookup_append, Option.or_assoc,
        List.lookup_cons]
      by_cases h : name = entry.1
      · simp [h]
      · have hb : (name == entry.1) = false := by simp [h]
        rw [if_neg h, hb, List.lookup_nil, Option.none_or]

/-- Setting the entries of a table. -/
theorem get?_putAll_entries (table layer : Table κ α) (name : κ) :
    (table.putAll layer.entries).get? name = (layer.get? name).or (table.get? name) := by
  rw [get?_putAll, lookup_reverse_of_nodup layer.nodup_names]
  rfl

/-- The names are those that were set and those that were there. -/
theorem mem_names_putAll {table : Table κ α} {entries : List (κ × α)} {name : κ} :
    name ∈ (table.putAll entries).names ↔ name ∈ entries.map Prod.fst ∨ name ∈ table.names := by
  rw [← contains_iff_mem_names, ← contains_iff_mem_names, contains, contains, get?_putAll,
    Option.isSome_or, Bool.or_eq_true, isSome_lookup_iff, List.map_reverse, List.mem_reverse]

/-- Which names a table has, and in which order, depends on the names that are set, not on what they
are set to. -/
theorem names_putAll (table : Table κ α) (entries : List (κ × α)) :
    (table.putAll entries).names = (entries.map Prod.fst).foldl
      (fun names name => if name ∈ names then names else names ++ [name]) table.names := by
  induction entries generalizing table with
  | nil => rfl
  | cons entry entries ih => rw [putAll_cons, ih, names_put, List.map_cons, List.foldl_cons]

/-- Names keep their places; new ones come behind them. -/
theorem names_prefix_putAll (table : Table κ α) (entries : List (κ × α)) :
    table.names <+: (table.putAll entries).names := by
  induction entries generalizing table with
  | nil => exact List.prefix_refl _
  | cons entry entries ih =>
      refine List.IsPrefix.trans ?_ (ih (table.put entry.1 entry.2))
      rw [names_put]
      split
      · exact List.prefix_refl _
      · exact List.prefix_append _ _

theorem size_le_size_putAll (table : Table κ α) (entries : List (κ × α)) :
    table.size ≤ (table.putAll entries).size := by
  have hlength := (table.names_prefix_putAll entries).length_le
  rwa [names, names, List.length_map, List.length_map] at hlength

/-- Setting one more name in a layer, or behind it. -/
theorem putAll_put (table layer : Table κ α) (name : κ) (a : α) :
    table.putAll (layer.put name a).entries = (table.putAll layer.entries).put name a := by
  refine ext_get? ?_ ?_
  · have hlayer : (layer.put name a).entries.map Prod.fst = _ := names_put layer name a
    rw [names_putAll, hlayer, names_put]
    by_cases hname : name ∈ layer.names
    · rw [if_pos hname, if_pos (mem_names_putAll.mpr (Or.inl hname)), names_putAll]
      rfl
    · rw [if_neg hname, List.foldl_append, List.foldl_cons, List.foldl_nil, names_putAll]
      rfl
  · intro other
    rw [get?_putAll_entries, get?_put, get?_put, get?_putAll_entries]
    split <;> rfl

/-- Entries may be gathered in a table of their own before they are set. -/
theorem putAll_entries_putAll (table : Table κ α) (entries : List (κ × α)) :
    table.putAll (empty.putAll entries).entries = table.putAll entries := by
  induction entries using List.reverseRecOn with
  | nil => rfl
  | append_singleton entries entry ih =>
      rw [putAll_append, putAll_append, putAll_cons, putAll_cons, putAll_nil, putAll_nil,
        putAll_put, ih]

end Table
end CallSchema
