import CallSchema.Proofs.Registry.AliasPath
import CallSchema.Proofs.Registry.Consulted
import CallSchema.Proofs.Registry.Reliable
import CallSchema.Proofs.Run

/-!
# What registries refuse

Null is refused under every name where every registered matcher refuses it, as in the standard registry
(`refusesNull_of_entries`, `refusesNull_standard`).  A name whose aliases lead to an unknown one stands for
no value at all where the default matcher accepts nothing (`LeadsNowhere.not_accepts`).  Layers over the
standard registry keep that, and the meaning of arrays, unless they bind one of the two names
(`keepsDefaults_of_layers`).
-/

namespace CallSchema
namespace Registry

variable {registry extended : Registry} {name : String} {resolution : Resolution}

/-! ## Look-ups -/

theorem eq_some_of_present {found : Option Entry} {entry : Entry}
    (h : present found = some entry) : found = some entry := by
  unfold present at h
  split at h
  · cases h
  · exact h

/-- What a look-up finds is an entry of the registry. -/
theorem mem_entries_of_lookup {start : Value} {entry : Entry}
    (h : registry.lookup start = .ok (some entry)) :
    ∃ entryName, (entryName, entry) ∈ registry.entries := by
  unfold lookup entryOf at h
  split at h
  · rename_i entryName _
    have hfound : registry.get? entryName = some entry := eq_some_of_present (Except.ok.inj h)
    obtain ⟨before, after, hentries, -⟩ := List.lookup_eq_some_iff.mp hfound
    exact ⟨entryName, by rw [hentries]; simp⟩
  · cases h
  · cases h

/-! ## Unknown names -/

/-- The aliases of a name lead to one that is unknown. -/
def LeadsNowhere (registry : Registry) (name : String) : Prop :=
  ∃ hops last, registry.Leads hops (.str name) last ∧ registry.lookup last = .ok none

/-- The default matcher stands in for an unknown name, over however many aliases it is reached. -/
theorem LeadsNowhere.matcher_eq {hops : Nat} (h : registry.LeadsNowhere name)
    (hchain : registry.AliasChain hops (.str name) resolution) :
    resolution.matcher = registry.fallback := by
  obtain ⟨more, last, hleads, hunknown⟩ := h
  obtain ⟨rest, -, hrest⟩ := hchain.of_leads hleads
  rw [hrest.unique (.unknown hunknown)]

/-! ## Layers -/

/-- A raw table of matchers has an entry for a name. -/
def Binds (raw : Value) (name : String) : Prop :=
  ∃ layer, unfold raw = .ok layer ∧ EntryName.text name ∈ layer.names

/-- Layers leave the entry of a name that none of them binds as it is. -/
theorem get?_extendAll_of_not_binds {layers : List Value}
    (h : registry.extendAll layers = .ok extended) (hbinds : ∀ raw ∈ layers, ¬ Binds raw name) :
    extended.get? (.text name) = registry.get? (.text name) := by
  induction layers generalizing registry with
  | nil =>
      cases h
      rfl
  | cons raw layers ih =>
      obtain ⟨hraw, hlayers⟩ := List.forall_mem_cons.mp hbinds
      rw [extendAll] at h
      obtain ⟨next, hnext, h⟩ := bind_eq_ok_iff.mp h
      obtain ⟨layer, hlayer, -⟩ := bind_eq_ok_iff.mp hnext
      rw [extend_of_unfold hlayer] at hnext
      obtain rfl := Except.ok.inj hnext
      rw [ih h hlayers]
      exact registry.get?_putAll_of_not_mem fun hmem => hraw ⟨layer, hlayer, hmem⟩

/-- Unknown names stand for nothing, and the name of arrays keeps its standard meaning. -/
structure KeepsDefaults (registry : Registry) : Prop where
  fallback : registry.fallback = .callable .never
  array : registry.get? (.text TypeExpr.arrayName) = some (standardEntry .isArray)

theorem keepsDefaults_of_layers {layers : List Value} (h : standard.extendAll layers = .ok registry)
    (hdefault : ∀ raw ∈ layers, ¬ Binds raw defaultName)
    (harray : ∀ raw ∈ layers, ¬ Binds raw TypeExpr.arrayName) : registry.KeepsDefaults where
  fallback := by
    rw [Registry.fallback, get?_extendAll_of_not_binds h hdefault]
    cbv
  array := by
    rw [get?_extendAll_of_not_binds h harray]
    cbv

theorem KeepsDefaults.lookup_array (h : registry.KeepsDefaults) :
    registry.lookup (.str TypeExpr.arrayName) = .ok (some (standardEntry .isArray)) := by
  show Except.ok (present (registry.get? (.text TypeExpr.arrayName))) = _
  rw [h.array]
  rfl

/-! ## What is refused -/

variable [Host]

/-- Unknown names stand for no value where the default matcher is the one that accepts nothing. -/
theorem LeadsNowhere.not_accepts (h : registry.LeadsNowhere name)
    (hfallback : registry.fallback = .callable .never) (value : Value) :
    ¬ registry.Accepts name value := by
  rintro ⟨hops, resolution, hchain, haccepts⟩
  rw [h.matcher_eq hchain, hfallback] at haccepts
  cases haccepts

/-- Lists and tuples are the arrays, and nothing else is. -/
theorem KeepsDefaults.accepts_array_iff (h : registry.KeepsDefaults) {value : Value} :
    registry.Accepts TypeExpr.arrayName value ↔
      ∃ kind items, (kind = .list ∨ kind = .tuple) ∧ value = .seq kind items := by
  constructor
  · rintro ⟨hops, resolution, hchain, haccepts⟩
    obtain rfl := hchain.unique (.held h.lookup_array)
    cases value with
    | seq kind items =>
        cases kind with
        | list => exact ⟨_, items, Or.inl rfl, rfl⟩
        | tuple => exact ⟨_, items, Or.inr rfl, rfl⟩
        | deque => cases haccepts
    | _ => cases haccepts
  · rintro ⟨kind, items, rfl | rfl, rfl⟩
    · exact ⟨0, _, .held h.lookup_array, rfl⟩
    · exact ⟨0, _, .held h.lookup_array, rfl⟩

/-- Every name resolves, to a matcher that refuses null without a fault and to a last name that can be
written. -/
def RefusesNull (registry : Registry) : Prop :=
  ∀ name : String, ∃ resolution, registry.resolve (.str name) = .ok resolution ∧
    (resolution.matcher.ask .null).outcome = .ok false ∧ resolution.name.Writable

/-- Where names resolve and every matcher that is registered refuses null, so does what a name resolves
to; the matcher that stands in for unknown names is registered too, or accepts nothing. -/
theorem refusesNull_of_entries
    (hresolves : ∀ name : String, ∃ resolution, registry.resolve (.str name) = .ok resolution ∧
      resolution.name.Writable)
    (hentries : ∀ entry ∈ registry.entries, ∀ matcher, entry.2 = .matcher matcher →
      (matcher.ask .null).outcome = .ok false) : registry.RefusesNull := by
  intro name
  obtain ⟨resolution, hresolve, hwritable⟩ := hresolves name
  obtain ⟨hops, -, hchain⟩ := resolve_eq_ok_iff.mp hresolve
  refine ⟨resolution, hresolve, ?_, hwritable⟩
  cases hchain.isEnd with
  | held hheld =>
      obtain ⟨entryName, hmem⟩ := mem_entries_of_lookup hheld
      exact hentries _ hmem _ rfl
  | default _ hdefault =>
      obtain ⟨entryName, hmem⟩ := mem_entries_of_lookup hdefault
      exact hentries _ hmem _ rfl
  | never _ _ => rfl

/-- Whether what an entry holds, if it is no alias, refuses null. -/
def entryRefusesNull : Entry → Bool
  | .matcher matcher =>
      match (matcher.ask .null).outcome with
      | .ok answer => !answer
      | .error _ => false
  | .aliasTo _ => true

theorem ask_null_of_entryRefusesNull {matcher : Value}
    (h : entryRefusesNull (.matcher matcher) = true) :
    (matcher.ask .null).outcome = .ok false := by
  rw [entryRefusesNull] at h
  cases houtcome : (matcher.ask .null).outcome with
  | error fault => simp [houtcome] at h
  | ok answer =>
      rw [houtcome, Bool.not_eq_true'] at h
      rw [h]

theorem refusesNull_standard : standard.RefusesNull := by
  have hall : (standard.entries.all fun entry => entryRefusesNull entry.2) = true := by cbv
  have hresolves : ∀ name : String, ∃ resolution,
      standard.resolve (.str name) = .ok resolution ∧ resolution.name.Writable := by
    intro name
    obtain ⟨resolution, hresolve, -, hwritable⟩ :=
      (reliable_standard [name]).resolves name List.mem_cons_self
    exact ⟨resolution, hresolve, hwritable⟩
  refine refusesNull_of_entries hresolves ?_
  rintro ⟨entryName, entry⟩ hmem matcher rfl
  exact ask_null_of_entryRefusesNull (List.all_eq_true.mp hall _ hmem)

end Registry
end CallSchema
