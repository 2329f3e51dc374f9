import CallSchema.Guard.Basic
import CallSchema.Proofs.Registry.Consulted
import CallSchema.Proofs.Registry.Layers
import CallSchema.Proofs.Schema.Leaves
import CallSchema.Proofs.Schema.Walk

/-!
# What a guard reads of its registry

A check resolves the names of the leaves of an expression, and the name of arrays around the members of an
array; a resolution of a call resolves those of all expressions of the schema.  Registries in which these
names resolve alike cannot be told apart by checks, resolutions and guard calls
(`check_of_resolvesAlike` and its companions), so entries that are not consulted are invisible, whatever
they hold (`unconsulted_entries_are_invisible`).
-/

namespace CallSchema

open Registry (ResolvesAlike)

/-- The names that checks of a field resolve; a type that is not text is never checked. -/
def Field.typeNames (field : Field) : List String :=
  match field.type with
  | .str text => (TypeExpr.parse text).typeNames
  | _ => []

/-- The names that resolutions against a schema resolve. -/
def Schema.typeNames (schema : Schema) : List String :=
  schema.leaves.flatMap fun fields => fields.flatMap Field.typeNames

variable [Host]

/-- Two registries cannot be told apart by what is resolved or guarded with a schema. -/
structure Schema.Indistinguishable (schema : Value) (registry other : Registry) : Prop where
  resolve : ∀ values strict,
    (Schema.ofValue schema).resolve other values strict =
      (Schema.ofValue schema).resolve registry values strict
  call : ∀ pinned active values strict,
    Guard.call ⟨other, pinned⟩ active values schema strict =
      Guard.call ⟨registry, pinned⟩ active values schema strict

variable {registry other : Registry}

/-! ## Checks -/

namespace TypeExpr

variable {argument : Value}

theorem checkLeaf_of_resolve_eq {name : String}
    (h : other.resolve (.str name) = registry.resolve (.str name)) :
    checkLeaf other argument name = checkLeaf registry argument name := by
  funext value
  rw [checkLeaf, checkLeaf, h]

/-- A check reads a registry through the names that it resolves. -/
theorem check_of_resolvesAlike {expr : TypeExpr}
    (h : ResolvesAlike registry other expr.typeNames) :
    expr.check other argument = expr.check registry argument := by
  -- As functions of the value, since an array checks its member on the elements.
  induction expr with
  | leaf name => exact checkLeaf_of_resolve_eq (h name List.mem_cons_self)
  | optional inner ih =>
      funext value
      rw [check, check, ih h]
  | union left right leftText rightText ihleft ihright =>
      funext value
      rw [check, check, ihleft (h.mono (List.subset_append_left _ _)),
        ihright (h.mono (List.subset_append_right _ _))]
  | array member memberText ih =>
      funext value
      rw [check, check, ih (h.mono (List.subset_cons_self _ _)),
        checkLeaf_of_resolve_eq (h arrayName List.mem_cons_self)]
  | foreign held => rfl

end TypeExpr

/-! ## Resolutions -/

namespace Schema

variable {view : CallView} {strict : Bool}

theorem walk_of_resolvesAlike {fields : List Field}
    (h : ResolvesAlike registry other (fields.flatMap Field.typeNames)) (cursor : Nat) :
    walk other view cursor fields = walk registry view cursor fields := by
  induction fields generalizing cursor with
  | nil => rfl
  | cons field fields ih =>
      rw [List.flatMap_cons] at h
      have hfields := ih (h.mono (List.subset_append_right _ _))
      rw [walk, walk]
      cases htext : field.typeText with
      | error fault => rfl
      | ok text =>
          have hfield : ResolvesAlike registry other (TypeExpr.parse text).typeNames := by
            have hnames : field.typeNames = (TypeExpr.parse text).typeNames := by
              rw [Field.typeNames, type_eq_of_typeText htext]
            exact hnames ▸ h.mono (List.subset_append_left _ _)
          show (pure text >>= _) = (pure text >>= _)
          rw [pure_bind, pure_bind, TypeExpr.check_of_resolvesAlike hfield]
          simp only [hfields]

theorem matchFields_of_resolvesAlike {fields : List Field}
    (h : ResolvesAlike registry other (fields.flatMap Field.typeNames)) :
    matchFields other view strict fields = matchFields registry view strict fields := by
  rw [matchFields, matchFields, walk_of_resolvesAlike h]

mutual

theorem resolveView_of_resolvesAlike (schema : Schema)
    (h : ResolvesAlike registry other schema.typeNames) :
    resolveView other view strict schema = resolveView registry view strict schema := by
  cases schema with
  | flat fields =>
      rw [resolveView, resolveView]
      refine matchFields_of_resolvesAlike (h.mono ?_)
      rw [typeNames, leaves, List.flatMap_singleton]
      exact List.Subset.refl _
  | oneOf candidates =>
      rw [resolveView, resolveView, resolveEach_of_resolvesAlike candidates h]
  | malformed got => rw [resolveView, resolveView]

theorem resolveEach_of_resolvesAlike (candidates : List Schema)
    (h : ResolvesAlike registry other (oneOf candidates).typeNames) :
    resolveEach other view strict candidates = resolveEach registry view strict candidates := by
  cases candidates with
  | nil => rw [resolveEach, resolveEach]
  | cons candidate candidates =>
      have hnames : (oneOf (candidate :: candidates)).typeNames =
          candidate.typeNames ++ (oneOf candidates).typeNames := by
        simp only [typeNames, leaves, leavesOf, List.flatMap_append]
      rw [hnames] at h
      rw [resolveEach, resolveEach,
        resolveView_of_resolvesAlike candidate (h.mono (List.subset_append_left _ _)),
        resolveEach_of_resolvesAlike candidates (h.mono (List.subset_append_right _ _))]

end

/-- A resolution reads a registry through the names that the schema resolves. -/
theorem resolve_of_resolvesAlike {schema : Schema}
    (h : ResolvesAlike registry other schema.typeNames) (values : Value) (strict : Bool) :
    schema.resolve other values strict = schema.resolve registry values strict := by
  unfold resolve
  cases schema.shapeFault? with
  | some fault => rfl
  | none => simp only [resolveView_of_resolvesAlike schema h]

end Schema

/-! ## Guard calls -/

namespace Guard

/-- A call is settled through resolutions only. -/
theorem settle_of_resolve_eq {schema : Schema} {strict : Bool}
    (h : ∀ values, schema.resolve other values strict = schema.resolve registry values strict)
    (values : Value) : settle other schema strict values = settle registry schema strict values := by
  -- Every re-run is on a value nested inside the values before it.
  induction hdepth : values.depth using Nat.strongRecOn generalizing values with
  | ind depth ih =>
      subst hdepth
      have hattempt : attempt other schema strict values = attempt registry schema strict values := by
        rw [attempt, attempt, h]
      rw [settle_eq, settle_eq, hattempt]
      cases hfound : (attempt registry schema strict values).outcome with
      | error fault => rw [Run.bind_of_error hfound, Run.bind_of_error hfound]
      | ok found =>
          rw [Run.bind_of_ok hfound, Run.bind_of_ok hfound]
          cases hobject : found.argumentsObject? with
          | none => rfl
          | some object =>
              obtain ⟨entry, hentry, rfl⟩ := Match.mem_of_argumentsObject? hobject
              simp only [ih _ (Schema.depth_lt_of_resolve hfound hentry) entry.2 rfl]

theorem call_of_resolve_eq {schema : Value} {strict : Bool}
    (h : ∀ values, (Schema.ofValue schema).resolve other values strict =
      (Schema.ofValue schema).resolve registry values strict)
    (pinned : Option Strategy) (active : Strategy) (values : Value) :
    call ⟨other, pinned⟩ active values schema strict =
      call ⟨registry, pinned⟩ active values schema strict := by
  unfold call
  simp only [settle_of_resolve_eq h]
  rfl

end Guard

theorem Schema.indistinguishable_of_resolvesAlike {schema : Value}
    (h : ResolvesAlike registry other (Schema.ofValue schema).typeNames) :
    Schema.Indistinguishable schema registry other where
  resolve := Schema.resolve_of_resolvesAlike h
  call pinned active values strict :=
    Guard.call_of_resolve_eq (fun values => Schema.resolve_of_resolvesAlike h values strict)
      pinned active values

namespace Guard

open Registry (HoldsAlike resolvesAlike_of_holdsAlike holdsAlike_putAll extend_of_unfold)

/-- Entries that are not consulted are invisible.  A registry that holds the same under the names that an
expression consults gives the same checks, with the same faults and the same matcher calls in the same
order; one that holds the same under the names that a schema consults gives the same resolutions and the
same guard calls.  In particular a layer without such names changes nothing. -/
theorem unconsulted_entries_are_invisible (registry : Registry) :
    (∀ (expr : TypeExpr) (other : Registry),
      (∀ name, registry.Consults expr.typeNames name → other.get? name = registry.get? name) →
        ∀ argument value, expr.check other argument value = expr.check registry argument value) ∧
    (∀ (schema : Value) (other : Registry),
      (∀ name, registry.Consults (Schema.ofValue schema).typeNames name →
        other.get? name = registry.get? name) →
          Schema.Indistinguishable schema registry other) ∧
    ∀ raw layer, Registry.unfold raw = .ok layer →
      ∃ extended, registry.extend raw = .ok extended ∧
        (∀ expr : TypeExpr, (∀ name ∈ layer.names, ¬ registry.Consults expr.typeNames name) →
          ∀ argument value,
            expr.check extended argument value = expr.check registry argument value) ∧
        ∀ schema : Value,
          (∀ name ∈ layer.names, ¬ registry.Consults (Schema.ofValue schema).typeNames name) →
            Schema.Indistinguishable schema registry extended := by
  have hcheck : ∀ (expr : TypeExpr) (other : Registry), HoldsAlike registry other expr.typeNames →
      ∀ argument value, expr.check other argument value = expr.check registry argument value := by
    intro expr other h argument value
    rw [TypeExpr.check_of_resolvesAlike (resolvesAlike_of_holdsAlike h)]
  have hschema : ∀ (schema : Value) (other : Registry),
      HoldsAlike registry other (Schema.ofValue schema).typeNames →
        Schema.Indistinguishable schema registry other :=
    fun schema other h => Schema.indistinguishable_of_resolvesAlike (resolvesAlike_of_holdsAlike h)
  refine ⟨hcheck, hschema, ?_⟩
  intro raw layer hunfold
  refine ⟨_, extend_of_unfold hunfold, ?_, ?_⟩
  · exact fun expr hunread => hcheck expr _ (holdsAlike_putAll hunread)
  · exact fun schema hunread => hschema schema _ (holdsAlike_putAll hunread)

/-- A schema of one field, whose type names an unknown leaf, too. -/
def tagSchema : Value := .record .plain [(.str "tags", .str "opt str arr or Tag")]

/-- A layer that lets only even numbers be numbers. -/
def evenLayer : Registry.Layer := ⟨.plain, [("num|even", .callable (.supplied (.function "is_even" 0)))]⟩

omit [Host] in
/-- Nothing that is resolved with tags tells the even numbers from the others. -/
theorem unconsulted_entries_are_invisible_to_tags :
    letI := Host.quiet
    ∃ layer, Registry.unfold evenLayer.toValue = .ok layer ∧
      (∀ name ∈ layer.names,
        ¬ Registry.standard.Consults (Schema.ofValue tagSchema).typeNames name) ∧
      ∃ extended, Registry.standard.extend evenLayer.toValue = .ok extended ∧
        Schema.Indistinguishable tagSchema Registry.standard extended := by
  let _ := Host.quiet
  obtain ⟨-, -, hlayers⟩ := unconsulted_entries_are_invisible Registry.standard
  have hunfold : Registry.unfold evenLayer.toValue =
      .ok (Table.empty.putAll (Registry.variantEntries evenLayer.registrations)) :=
    Registry.putRaw_text Table.empty evenLayer.pairs
  -- Aliases lead from the names of the schema to that of texts and to no other.
  let closed : List EntryName :=
    [.text Registry.defaultName, .text "array", .text "str", .text "string", .text "Tag"]
  have hclosed : Registry.standard.isClosed closed = true := by cbv
  have hnames : ∀ first ∈ (Schema.ofValue tagSchema).typeNames, .text first ∈ closed := by
    rw [show (Schema.ofValue tagSchema).typeNames = ["array", "str", "Tag"] by cbv]
    decide
  have hlayer : (Registry.variantEntries evenLayer.registrations).map Prod.fst =
      [.text "num", .text "even"] := by cbv
  have hdisjoint : ∀ name ∈ [EntryName.text "num", .text "even"], name ∉ closed := by decide
  have hunread : ∀ name ∈ (Table.empty.putAll
      (Registry.variantEntries evenLayer.registrations)).names,
        ¬ Registry.standard.Consults (Schema.ofValue tagSchema).typeNames name := by
    intro name hname hconsults
    have hmem := Registry.mem_of_consults hclosed List.mem_cons_self hnames hconsults
    rcases Table.mem_names_putAll.mp hname with hset | hheld
    · exact hdisjoint name (hlayer ▸ hset) hmem
    · cases hheld
  obtain ⟨extended, hextend, -, hschemas⟩ := hlayers _ _ hunfold
  exact ⟨_, hunfold, hunread, extended, hextend, hschemas tagSchema hunread⟩

/-- The name of arrays is consulted although no leaf bears it, and so is the default name: other matchers
there do show. -/
example : ((TypeExpr.parse "num arr").check
      (Registry.standard.put (.text "array") (.matcher (.callable .never))) (.str "x")
      (.seq .list [])).outcome = .ok (.refused "`x` is not array" false) ∧
    ((TypeExpr.parse "Tag").check (Registry.standard.put (.text Registry.defaultName)
      (.matcher (.callable (.standard .isString)))) (.str "x") (.str "t")).outcome = .ok .accepted :=
  ⟨by cbv, by cbv⟩

end Guard
end CallSchema
