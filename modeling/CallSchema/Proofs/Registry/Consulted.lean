import CallSchema.Proofs.Table
import CallSchema.Registry.Resolve
import Mathlib.Logic.Relation

/-!
# Which entries resolving a name looks at

To resolve a name is to look at the entries of the names that its aliases lead to, and at the entry of the
default name where an unknown name turns up.  `Consults` names these entries for several names at once,
without a limit on the aliases.  Registries that hold the same under them resolve the names alike
(`resolvesAlike_of_holdsAlike`), and a list of names that no alias leads out of has them all
(`mem_of_consults`).
-/

namespace CallSchema
namespace Registry

open Relation (ReflTransGen)

/-- The entry of a name is an alias of another name. -/
def PointsTo (registry : Registry) (name next : EntryName) : Prop :=
  ∃ target, registry.get? name = some (.aliasTo target) ∧ EntryName.ofValue? target = some next

/-- A name whose entry matters to what some names resolve to: their aliases lead to it, or it is the name
of the default matcher. -/
def Consults (registry : Registry) (names : List String) (name : EntryName) : Prop :=
  name = .text defaultName ∨ ∃ first ∈ names, ReflTransGen registry.PointsTo (.text first) name

/-- The other registry holds the same under every name that the first one consults. -/
def HoldsAlike (registry other : Registry) (names : List String) : Prop :=
  ∀ name, registry.Consults names name → other.get? name = registry.get? name

/-- Names resolve alike in two registries, or end in the same fault. -/
def ResolvesAlike (registry other : Registry) (names : List String) : Prop :=
  ∀ name ∈ names, other.resolve (.str name) = registry.resolve (.str name)

variable {registry other : Registry} {names : List String}

theorem ResolvesAlike.mono {fewer : List String} (h : ResolvesAlike registry other names)
    (hsubset : fewer ⊆ names) : ResolvesAlike registry other fewer :=
  fun name hname => h name (hsubset hname)

/-! ## Following aliases -/

theorem entryOf_congr {name : Value}
    (h : ∀ start, EntryName.ofValue? name = some start → other.get? start = registry.get? start) :
    other.entryOf name = registry.entryOf name := by
  unfold entryOf
  cases hname : EntryName.ofValue? name with
  | none => cases name.hashFault? <;> rfl
  | some start =>
      show Except.ok (other.get? start) = Except.ok (registry.get? start)
      rw [h start hname]

theorem fallback_congr
    (h : other.get? (.text defaultName) = registry.get? (.text defaultName)) :
    other.fallback = registry.fallback := by
  rw [fallback, fallback, h]

theorem present_eq_alias_iff {found : Option Entry} {target : Value} :
    present found = some (.aliasTo target) ↔ found = some (.aliasTo target) := by
  unfold present
  split
  · simp
  · rfl

/-- Where a look-up finds an alias, the name is one that has entries, and its entry is the alias. -/
theorem exists_get?_of_lookup {name target : Value}
    (h : registry.lookup name = .ok (some (.aliasTo target))) :
    ∃ start, EntryName.ofValue? name = some start ∧
      registry.get? start = some (.aliasTo target) := by
  unfold lookup entryOf at h
  split at h
  · rename_i start hname
    refine ⟨start, hname, present_eq_alias_iff.mp ?_⟩
    exact Except.ok.inj h
  · cases h
  · cases h

/-- Following aliases looks at the names that they lead to, and at the default name. -/
theorem follow_congr {first name : Value} {lookups : Nat}
    (hdefault : other.get? (.text defaultName) = registry.get? (.text defaultName))
    (h : ∀ start, EntryName.ofValue? name = some start →
      ∀ next, ReflTransGen registry.PointsTo start next → other.get? next = registry.get? next) :
    other.follow first lookups name = registry.follow first lookups name := by
  induction lookups generalizing name with
  | zero => rfl
  | succ lookups ih =>
      have hlookup : other.lookup name = registry.lookup name := by
        rw [lookup, lookup, entryOf_congr fun start hstart => h start hstart start .refl]
      rw [follow, follow, hlookup]
      cases hfound : registry.lookup name with
      | error fault => rfl
      | ok found =>
          cases found with
          | none =>
              show Except.ok _ = Except.ok _
              rw [fallback_congr hdefault]
          | some entry =>
              cases entry with
              | matcher value => rfl
              | aliasTo target =>
                  obtain ⟨start, hstart, hentry⟩ := exists_get?_of_lookup hfound
                  refine ih fun next hnext later hlater => ?_
                  exact h start hstart later (hlater.head ⟨target, hentry, hnext⟩)

/-- Registries that hold the same under all consulted names resolve the names alike. -/
theorem resolvesAlike_of_holdsAlike (h : HoldsAlike registry other names) :
    ResolvesAlike registry other names := by
  intro name hname
  refine follow_congr (h _ (Or.inl rfl)) ?_
  rintro start ⟨⟩ next hnext
  exact h next (Or.inr ⟨name, hname, hnext⟩)

/-! ## Layers -/

/-- Extending a registry sets the entries that the raw table stands for. -/
theorem extend_of_unfold {raw : Value} {layer : Registry} (h : unfold raw = .ok layer) :
    registry.extend raw = .ok (registry.putAll layer.entries) := by
  rw [extend, h]
  rfl

/-- A layer without consulted names leaves the entries of these as they were. -/
theorem holdsAlike_putAll {layer : Registry}
    (h : ∀ name ∈ layer.names, ¬ registry.Consults names name) :
    HoldsAlike registry (registry.putAll layer.entries) names :=
  fun name hname => registry.get?_putAll_of_not_mem fun hmem => h name hmem hname

/-! ## Finding the consulted names -/

/-- Whether no alias leads from some names to one that is not among them. -/
def isClosed (registry : Registry) (names : List EntryName) : Bool :=
  names.all fun name =>
    match registry.get? name with
    | some (.aliasTo target) => (EntryName.ofValue? target).all fun next => next ∈ names
    | _ => true

theorem mem_of_pointsTo {closed : List EntryName} (h : registry.isClosed closed = true)
    {name next : EntryName} (hname : name ∈ closed) (hnext : registry.PointsTo name next) :
    next ∈ closed := by
  obtain ⟨target, hentry, htarget⟩ := hnext
  have hclosed := List.all_eq_true.mp h name hname
  simpa [hentry, htarget] using hclosed

/-- A list of names that no alias leads out of has every consulted name, if it begins with them. -/
theorem mem_of_consults {closed : List EntryName} {name : EntryName}
    (hclosed : registry.isClosed closed = true) (hdefault : .text defaultName ∈ closed)
    (hnames : ∀ first ∈ names, .text first ∈ closed) (h : registry.Consults names name) :
    name ∈ closed := by
  rcases h with rfl | ⟨first, hfirst, hleads⟩
  · exact hdefault
  · induction hleads with
    | refl => exact hnames first hfirst
    | tail _ hnext ih => exact mem_of_pointsTo hclosed ih hnext

end Registry
end CallSchema
