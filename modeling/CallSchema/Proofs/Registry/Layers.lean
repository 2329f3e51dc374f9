import CallSchema.Proofs.Table
import CallSchema.Registry.Basic
import Mathlib

/-!
# Layers of registrations

A layer registers entries under names, some of them compound.  What it registers comes apart into one
entry per variant (`variantEntries`), and layering is setting these entries one after another, whatever
the layers they came in (`extendAll_layers`).  So the account of the layers over a registry
(`LayeredOver`) speaks of registrations only: each name holds what was registered for it last.
-/

namespace CallSchema

theorem EntryName.text?_eq_some_iff {name : EntryName} {text : String} :
    name.text? = some text ↔ name = .text text := by
  cases name <;> simp [text?]

namespace Registry

/-- A table of matchers whose names are texts. -/
structure Layer where
  kind : RecordKind
  pairs : List (String × Value)

namespace Layer

/-- The raw table of a layer. -/
def toValue (layer : Layer) : Value :=
  .record layer.kind (layer.pairs.map fun pair => (.str pair.1, pair.2))

/-- What a layer registers, in order: names, each with the entry of its value. -/
def registrations (layer : Layer) : List (String × Entry) :=
  layer.pairs.map fun pair => (pair.1, Entry.ofValue pair.2)

end Layer

/-- A text is a variant of a name: it stands between two marks of the name, or before the first or
behind the last one. -/
def IsVariant (name text : String) : Prop := text.toList ∈ name.toList.splitOn variantMark

instance (name text : String) : Decidable (IsVariant name text) :=
  inferInstanceAs (Decidable (text.toList ∈ name.toList.splitOn variantMark))

/-- The entry that was registered last for a name. -/
def lastRegistered? (registrations : List (String × Entry)) (text : String) : Option Entry :=
  (registrations.reverse.find? fun registration =>
    decide (IsVariant registration.1 text)).map Prod.snd

/-- The account of a registry that registrations made out of another one. -/
structure LayeredOver (base : Registry) (registrations : List (String × Entry)) (final : Registry) :
    Prop where
  /-- A name holds what was registered for it last, or else what it held before. -/
  get?_text : ∀ text, final.get? (.text text) =
    (lastRegistered? registrations text).or (base.get? (.text text))
  get?_null : final.get? .null = base.get? .null
  contains_iff : ∀ text, final.contains (.text text) = true ↔
    base.contains (.text text) = true ∨
      ∃ registration ∈ registrations, IsVariant registration.1 text
  /-- Names keep their places, and none is lost. -/
  names_prefix : base.names <+: final.names
  size_le : base.size ≤ final.size
  /-- The names of a registry are listed once each, in the order of their code points. -/
  sortedNames : base.contains .null = false →
    ∃ names, final.sortedNames = .ok names ∧ names.Pairwise (· < ·) ∧
      ∀ text, text ∈ names ↔ final.contains (.text text) = true

/-! ## Variants -/

theorem splitAtMarks_eq_splitOn (cs : List Char) : splitAtMarks cs = cs.splitOn variantMark := by
  induction cs with
  | nil => rfl
  | cons c cs ih =>
      rw [List.splitOn, List.splitOnP_cons_eq_if_modifyHead, ← List.splitOn, splitAtMarks, ih]
      by_cases hmark : c = variantMark
      · simp [hmark]
      · rw [if_neg hmark, if_neg (by simpa using hmark)]
        obtain ⟨piece, pieces, hpieces⟩ :=
          List.exists_cons_of_ne_nil (List.splitOnP_ne_nil (· == variantMark) cs)
        rw [List.splitOn, hpieces]
        rfl

theorem mem_variants_iff {name text : String} : text ∈ variants name ↔ IsVariant name text := by
  rw [variants, splitAtMarks_eq_splitOn, IsVariant, List.mem_map]
  constructor
  · rintro ⟨piece, hpiece, rfl⟩
    rwa [String.toList_ofList]
  · intro h
    exact ⟨text.toList, h, String.ofList_toList⟩

/-- Registrations, one entry per variant. -/
def variantEntries (registrations : List (String × Entry)) : List (EntryName × Entry) :=
  registrations.flatMap fun registration =>
    (variants registration.1).map fun text => (.text text, registration.2)

theorem variantEntries_append (first second : List (String × Entry)) :
    variantEntries (first ++ second) = variantEntries first ++ variantEntries second :=
  List.flatMap_append

theorem variantEntries_cons (registration : String × Entry) (registrations : List (String × Entry)) :
    variantEntries (registration :: registrations) =
      variantEntries [registration] ++ variantEntries registrations :=
  variantEntries_append [registration] registrations

theorem null_not_mem_variantEntries (registrations : List (String × Entry)) :
    EntryName.null ∉ (variantEntries registrations).map Prod.fst := by
  simp [variantEntries]

theorem mem_variantEntries_iff {registrations : List (String × Entry)} {text : String} :
    EntryName.text text ∈ (variantEntries registrations).map Prod.fst ↔
      ∃ registration ∈ registrations, IsVariant registration.1 text := by
  simp only [variantEntries, List.map_flatMap, List.mem_flatMap, List.map_map, List.mem_map,
    Function.comp_apply, EntryName.text.injEq, exists_eq_right, mem_variants_iff]

/-- All names that are given one entry hold it. -/
theorem lookup_map_text (texts : List String) (entry : Entry) (text : String) :
    (texts.map fun name => (EntryName.text name, entry)).lookup (.text text) =
      if text ∈ texts then some entry else none := by
  induction texts with
  | nil => rfl
  | cons first texts ih =>
      rw [List.map_cons, List.lookup_cons, ih]
      by_cases h : text = first
      · simp [h]
      · have hb : (EntryName.text text == EntryName.text first) = false := by simp [h]
        simp [hb, h]

/-- The last entry under a name is the one registered last for it. -/
theorem lookup_variantEntries (registrations : List (String × Entry)) (text : String) :
    (variantEntries registrations).reverse.lookup (.text text) = lastRegistered? registrations text := by
  induction registrations using List.reverseRecOn with
  | nil => rfl
  | append_singleton registrations registration ih =>
      have hlast : variantEntries [registration] =
          (variants registration.1).map fun text => (.text text, registration.2) :=
        List.flatMap_singleton _ _
      have hvariant : text ∈ (variants registration.1).reverse ↔ IsVariant registration.1 text :=
        List.mem_reverse.trans mem_variants_iff
      rw [variantEntries_append, hlast, List.reverse_append, List.lookup_append, ih,
        ← List.map_reverse, lookup_map_text, lastRegistered?, lastRegistered?, List.reverse_append,
        List.reverse_singleton, List.singleton_append, List.find?_cons]
      by_cases h : IsVariant registration.1 text
      · rw [if_pos (hvariant.mpr h), decide_eq_true h]
        rfl
      · rw [if_neg (mt hvariant.mp h), decide_eq_false h, Option.none_or]

/-! ## Layers -/

/-- A layer whose names are texts sets its entries one after another. -/
theorem putRaw_text (registry : Registry) (pairs : List (String × Value)) :
    putRaw registry (pairs.map fun pair => (.str pair.1, pair.2)) =
      .ok (registry.putAll
        (variantEntries (pairs.map fun pair => (pair.1, Entry.ofValue pair.2)))) := by
  induction pairs generalizing registry with
  | nil => rfl
  | cons pair pairs ih =>
      rw [List.map_cons, putRaw]
      simp only [variantsOf, bind, Except.bind]
      rw [ih, putVariants, ← Table.putAll_append, List.map_cons, List.map_map]
      rfl

theorem extend_layer (registry : Registry) (layer : Layer) :
    registry.extend layer.toValue =
      .ok (registry.putAll (variantEntries layer.registrations)) := by
  rw [extend, Layer.toValue, unfold, putRaw_text]
  show Except.ok (registry.putAll _) = _
  rw [Table.putAll_entries_putAll]
  rfl

theorem addMatcher_text (registry : Registry) (names : String) (matcher : Value) :
    registry.addMatcher (.str names) matcher =
      .ok (registry.putAll (variantEntries [(names, Entry.ofValue matcher)])) :=
  extend_layer registry ⟨.plain, [(names, matcher)]⟩

theorem addAlias_text (registry : Registry) (names : String) (target : Value) :
    registry.addAlias (.str names) target =
      .ok (registry.putAll (variantEntries [(names, .aliasTo target)])) :=
  extend_layer registry ⟨.plain, [(names, .aliasTo target)]⟩

/-- Layers set their entries one after another, as if they were one. -/
theorem extendAll_layers (registry : Registry) (layers : List Layer) :
    registry.extendAll (layers.map Layer.toValue) =
      .ok (registry.putAll (variantEntries (layers.flatMap Layer.registrations))) := by
  induction layers generalizing registry with
  | nil => rfl
  | cons layer layers ih =>
      rw [List.map_cons, extendAll, extend_layer, List.flatMap_cons, variantEntries_append,
        Table.putAll_append]
      exact ih _

/-! ## The account of layers -/

/-- Without the null name, the names of a registry can be listed in order. -/
theorem sortedNames_of_not_null {registry : Registry} (h : registry.contains .null = false) :
    ∃ names, registry.sortedNames = .ok names ∧ names.Pairwise (· < ·) ∧
      ∀ text, text ∈ names ↔ registry.contains (.text text) = true := by
  refine ⟨_, if_neg (by rw [h]; exact Bool.false_ne_true), ?_, ?_⟩
  · have hnodup : (registry.names.filterMap EntryName.text?).mergeSort.Nodup := by
      rw [(List.mergeSort_perm _ _).nodup_iff]
      refine registry.nodup_names.filterMap fun name other text hname hother => ?_
      rw [EntryName.text?_eq_some_iff.mp hname, EntryName.text?_eq_some_iff.mp hother]
    have hsorted := (registry.names.filterMap EntryName.text?).pairwise_mergeSort' (· ≤ ·)
    exact hsorted.imp₂ (fun _ _ hle hne => lt_of_le_of_ne hle hne) hnodup
  · intro text
    rw [List.mem_mergeSort, List.mem_filterMap, Table.contains_iff_mem_names]
    simp [EntryName.text?_eq_some_iff]

theorem layeredOver_putAll (base : Registry) (registrations : List (String × Entry)) :
    LayeredOver base registrations (base.putAll (variantEntries registrations)) where
  get?_text text := by rw [Table.get?_putAll, lookup_variantEntries]
  get?_null := Table.get?_putAll_of_not_mem base (null_not_mem_variantEntries registrations)
  contains_iff text := by
    rw [Table.contains_iff_mem_names, Table.contains_iff_mem_names, Table.mem_names_putAll,
      mem_variantEntries_iff, or_comm]
  names_prefix := base.names_prefix_putAll _
  size_le := base.size_le_size_putAll _
  sortedNames hnull := by
    refine sortedNames_of_not_null ?_
    rwa [Table.contains, Table.get?_putAll_of_not_mem base
      (null_not_mem_variantEntries registrations)]

/-- A compound name can be overwritten in part; behind its last mark stands the empty variant. -/
example : ["a", "b", ""].map
    (lastRegistered? [("a|b|", .aliasTo (.str "x")), ("b", .aliasTo (.str "y"))]) =
      [some (.aliasTo (.str "x")), some (.aliasTo (.str "y")), some (.aliasTo (.str "x"))] := by cbv

end Registry
end CallSchema
