import CallSchema.Proofs.Run
import CallSchema.Proofs.Schema.Ranking
import CallSchema.Registry.Standard
import CallSchema.Schema.Nesting
import Mathlib

/-!
# Schemas are resolved by their leaves

The leaves of a schema are its flat parts, in the order of their declaration.  Resolving a tree of
candidates, however they are nested, is matching each leaf in that order and keeping the best match
(`resolveView_eq_leaves`): nesting has no effect, and no leaf is left out, also after one that accepts.
-/

namespace CallSchema
namespace Schema

/-! ## Trees and their leaves -/

mutual

/-- The fields of the flat parts of a schema, in the order of their declaration. -/
def leaves : Schema → List (List Field)
  | flat fields => [fields]
  | oneOf candidates => leavesOf candidates
  | malformed _ => []

/-- The leaves of several schemas, one schema after another. -/
def leavesOf : List Schema → List (List Field)
  | [] => []
  | candidate :: candidates => leaves candidate ++ leavesOf candidates

end

/-- Schemas without malformed parts and without empty lists. -/
inductive IsTree : Schema → Prop where
  | leaf (fields : List Field) : IsTree (flat fields)
  | node {candidates : List Schema} (hne : candidates ≠ [])
      (h : ∀ candidate ∈ candidates, IsTree candidate) : IsTree (oneOf candidates)

/-- A tree has a leaf. -/
theorem IsTree.exists_leaves_eq_cons {schema : Schema} (h : schema.IsTree) :
    ∃ fields others, schema.leaves = fields :: others := by
  induction h with
  | leaf fields => exact ⟨fields, [], rfl⟩
  | @node candidates hne hcandidates ih =>
      cases candidates with
      | nil => exact absurd rfl hne
      | cons candidate candidates =>
          obtain ⟨fields, others, hleaves⟩ := ih candidate List.mem_cons_self
          refine ⟨fields, others ++ leavesOf candidates, ?_⟩
          rw [leaves, leavesOf, hleaves, List.cons_append]

theorem leavesOf_map_flat (groups : List (List Field)) :
    leavesOf (groups.map flat) = groups := by
  induction groups with
  | nil => rfl
  | cons fields groups ih =>
      rw [List.map_cons, leavesOf, ih, leaves, List.singleton_append]

/-- The flat list of the leaves of a tree is a tree with the same leaves. -/
theorem IsTree.flatten {schema : Schema} (h : schema.IsTree) :
    (oneOf (schema.leaves.map flat)).IsTree ∧
      (oneOf (schema.leaves.map flat)).leaves = schema.leaves := by
  obtain ⟨fields, others, hleaves⟩ := h.exists_leaves_eq_cons
  constructor
  · apply IsTree.node
    · rw [hleaves]
      exact List.cons_ne_nil _ _
    · intro candidate hmem
      obtain ⟨fields, -, rfl⟩ := List.mem_map.mp hmem
      exact IsTree.leaf fields
  · rw [leaves, leavesOf_map_flat]

/-- A list of one tree is a tree with the same leaves. -/
theorem IsTree.singleton {schema : Schema} (h : schema.IsTree) :
    (oneOf [schema]).IsTree ∧ (oneOf [schema]).leaves = schema.leaves := by
  constructor
  · apply IsTree.node (List.cons_ne_nil _ _)
    intro candidate hmem
    rw [List.mem_singleton.mp hmem]
    exact h
  · rw [leaves, leavesOf, leavesOf, List.append_nil]

theorem IsTree.shapeFault?_eq_none {schema : Schema} (h : schema.IsTree) :
    schema.shapeFault? = none := by
  cases h with
  | leaf fields => rfl
  | @node candidates hne hcandidates =>
      cases candidates with
      | nil => exact absurd rfl hne
      | cons candidate candidates => rfl

/-! ## Matching the leaves -/

variable [Host]

section Matching

variable (registry : Registry) (view : CallView) (strict : Bool)

/-- Keeps the best of several matches; of none there is no best. -/
def keepBest : List Match → Run MatcherCall Match
  | [] => Run.fail .noCandidates
  | first :: others => pure (Match.best first others)

/-- Matches each of several leaves, in order, and keeps the best match. -/
def matchLeaves (groups : List (List Field)) : Run MatcherCall Match :=
  groups.mapM (matchFields registry view strict) >>= keepBest

theorem resolveEach_eq_mapM (candidates : List Schema) :
    resolveEach registry view strict candidates =
      candidates.mapM (resolveView registry view strict) := by
  induction candidates with
  | nil =>
      rw [resolveEach, List.mapM_nil]
  | cons candidate candidates ih =>
      rw [resolveEach, List.mapM_cons, ih]

theorem resolveView_oneOf (candidates : List Schema) :
    resolveView registry view strict (oneOf candidates) =
      candidates.mapM (resolveView registry view strict) >>= keepBest := by
  rw [resolveView, resolveEach_eq_mapM]
  rfl

/-- Matching leaves group by group, with the best match so far at hand, comes to the same as matching
them all in one go. -/
theorem best_of_groups (first : Match) {candidates : List Schema}
    (h : ∀ candidate ∈ candidates, ∃ fields others, candidate.leaves = fields :: others ∧
      resolveView registry view strict candidate =
        matchLeaves registry view strict candidate.leaves) :
    (candidates.mapM (resolveView registry view strict) >>= fun results =>
        pure (Match.best first results)) =
      (leavesOf candidates).mapM (matchFields registry view strict) >>= fun results =>
        pure (Match.best first results) := by
  induction candidates generalizing first with
  | nil => rfl
  | cons candidate candidates ih =>
      obtain ⟨fields, others, hleaves, hresolve⟩ := h candidate List.mem_cons_self
      have hothers := fun chosen => ih chosen fun other hmem => h other (List.mem_cons_of_mem _ hmem)
      rw [hleaves] at hresolve
      rw [List.mapM_cons, leavesOf, hleaves, List.mapM_append, List.mapM_cons, hresolve, matchLeaves,
        List.mapM_cons]
      simp only [bind_assoc, pure_bind, keepBest, Match.best_cons, hothers]
      simp only [Match.better_best, ← Match.best_append]

end Matching

variable {registry : Registry} {view : CallView} {strict : Bool} {schema other : Schema}
  {values : Value}

/-- Resolving a tree is matching its leaves and keeping the best match. -/
theorem resolveView_eq_leaves (h : schema.IsTree) :
    resolveView registry view strict schema = matchLeaves registry view strict schema.leaves := by
  induction h with
  | leaf fields =>
      rw [resolveView, leaves, matchLeaves, List.mapM_cons, List.mapM_nil]
      simp [keepBest]
  | @node candidates hne hcandidates ih =>
      cases candidates with
      | nil => exact absurd rfl hne
      | cons candidate candidates =>
          obtain ⟨fields, others, hleaves⟩ :=
            (hcandidates candidate List.mem_cons_self).exists_leaves_eq_cons
          have hresolve := ih candidate List.mem_cons_self
          have hothers : ∀ other ∈ candidates, ∃ fields others, other.leaves = fields :: others ∧
              resolveView registry view strict other =
                matchLeaves registry view strict other.leaves := by
            intro other hmem
            have htail := List.mem_cons_of_mem candidate hmem
            obtain ⟨fields, others, hother⟩ := (hcandidates other htail).exists_leaves_eq_cons
            exact ⟨fields, others, hother, ih other htail⟩
          have hgroups := fun first => best_of_groups registry view strict first hothers
          -- The first leaf of the first candidate is the match that all others are measured against.
          rw [hleaves] at hresolve
          rw [resolveView_oneOf, List.mapM_cons, hresolve, leaves, leavesOf, hleaves, matchLeaves,
            matchLeaves, List.mapM_append, List.mapM_cons]
          simp only [bind_assoc, pure_bind, keepBest, hgroups, List.cons_append, Match.best_append]

/-- Resolving call values against a tree is taking their view and matching the leaves. -/
theorem resolve_eq_leaves (h : schema.IsTree) :
    schema.resolve registry values strict =
      Run.ofExcept (CallView.ofValue values) >>= fun view =>
        matchLeaves registry view strict schema.leaves := by
  unfold resolve
  rw [h.shapeFault?_eq_none]
  simp only [resolveView_eq_leaves h]

/-- Trees with the same leaves resolve every call alike, faults and matcher calls included. -/
theorem resolve_eq_of_leaves_eq (h : schema.IsTree) (hother : other.IsTree)
    (hleaves : schema.leaves = other.leaves) :
    schema.resolve registry values strict = other.resolve registry values strict := by
  rw [resolve_eq_leaves h, resolve_eq_leaves hother, hleaves]

/-- A flat schema resolves call values by matching the view of them. -/
theorem resolve_flat (fields : List Field) :
    (flat fields).resolve registry values strict =
      Run.ofExcept (CallView.ofValue values) >>= fun view =>
        matchFields registry view strict fields := by
  rfl

/-- Call values are resolved when the schema has a shape and their view is resolved. -/
theorem resolve_eq_ok_iff {result : Match} :
    (schema.resolve registry values strict).outcome = .ok result ↔
      schema.shapeFault? = none ∧ ∃ view, CallView.ofValue values = .ok view ∧
        (schema.resolveView registry view strict).outcome = .ok result := by
  unfold resolve
  cases schema.shapeFault? with
  | some fault => simp
  | none => simp [Run.outcome_bind_eq_ok_iff]

/-- When every leaf is matched without a fault, the best of the matches is kept, and what happens is
what happens in the matches of all leaves, in order. -/
theorem matchLeaves_of_forall₂ {groups : List (List Field)} {first : Match} {others : List Match}
    (h : List.Forall₂ (fun fields result =>
      (matchFields registry view strict fields).outcome = .ok result) groups (first :: others)) :
    matchLeaves registry view strict groups =
      ⟨groups.flatMap fun fields => (matchFields registry view strict fields).events,
        .ok (Match.best first others)⟩ := by
  have houtcome := Run.outcome_mapM_eq_ok_iff.mpr h
  rw [matchLeaves, Run.bind_of_ok houtcome, Run.events_mapM_of_ok houtcome]
  simp [keepBest]

/-! ## The leaf whose match is kept -/

mutual

/-- The match of a view is the match of one of the leaves. -/
theorem exists_leaf_of_resolveView {result : Match} (schema : Schema)
    (h : (resolveView registry view strict schema).outcome = .ok result) :
    ∃ fields ∈ schema.leaves, (matchFields registry view strict fields).outcome = .ok result := by
  cases schema with
  | flat fields =>
      rw [resolveView] at h
      exact ⟨fields, List.mem_singleton.mpr rfl, h⟩
  | oneOf candidates =>
      rw [resolveView] at h
      obtain ⟨results, hresults, h⟩ := Run.outcome_bind_eq_ok_iff.mp h
      have hall := exists_leaf_of_resolveEach candidates hresults
      split at h
      · cases h
      · cases h
        exact hall _ (best_mem _ _)
  | malformed got =>
      rw [resolveView] at h
      cases h

/-- The matches of several candidates are matches of their leaves. -/
theorem exists_leaf_of_resolveEach {results : List Match} (candidates : List Schema)
    (h : (resolveEach registry view strict candidates).outcome = .ok results) :
    ∀ result ∈ results, ∃ fields ∈ leavesOf candidates,
      (matchFields registry view strict fields).outcome = .ok result := by
  cases candidates with
  | nil =>
      rw [resolveEach] at h
      cases h
      simp
  | cons candidate candidates =>
      rw [resolveEach] at h
      obtain ⟨first, hfirst, h⟩ := Run.outcome_bind_eq_ok_iff.mp h
      obtain ⟨others, hothers, h⟩ := Run.outcome_bind_eq_ok_iff.mp h
      cases h
      intro result hmem
      rw [leavesOf]
      rcases List.mem_cons.mp hmem with rfl | hmem
      · obtain ⟨fields, hfields, hmatch⟩ := exists_leaf_of_resolveView candidate hfirst
        exact ⟨fields, List.mem_append_left _ hfields, hmatch⟩
      · obtain ⟨fields, hfields, hmatch⟩ := exists_leaf_of_resolveEach candidates hothers result hmem
        exact ⟨fields, List.mem_append_right _ hfields, hmatch⟩

end

/-- A call is resolved against a tree as follows, when no leaf is matched with a fault.  Every leaf is
matched, in the order of declaration, also after one that accepts; the answer is the match of a leaf:
the accepting one that consumed most, if any accepts, and else the one that consumed most, the earliest
of several.  So the nesting of a tree has no effect, nor has a list around it. -/
theorem resolve_keeps_best_leaf (htree : schema.IsTree)
    (hleaves : ∀ fields ∈ schema.leaves,
      ∃ result, ((flat fields).resolve registry values strict).outcome = .ok result) :
    (∃ results chosen,
      List.Forall₂ (fun fields result =>
        ((flat fields).resolve registry values strict).outcome = .ok result)
        schema.leaves results ∧
      Match.pick? results = some chosen ∧
      schema.resolve registry values strict =
        ⟨schema.leaves.flatMap fun fields =>
          ((flat fields).resolve registry values strict).events, .ok chosen⟩) ∧
    (oneOf (schema.leaves.map flat)).resolve registry values strict =
      schema.resolve registry values strict ∧
    (oneOf [schema]).resolve registry values strict = schema.resolve registry values strict := by
  refine ⟨?_, resolve_eq_of_leaves_eq htree.flatten.1 htree htree.flatten.2,
    resolve_eq_of_leaves_eq htree.singleton.1 htree htree.singleton.2⟩
  obtain ⟨fields, groups, hcons⟩ := htree.exists_leaves_eq_cons
  -- A tree has a leaf, and the match of that leaf shows that the call values have a view.
  obtain ⟨view, hview⟩ : ∃ view, CallView.ofValue values = .ok view := by
    obtain ⟨result, hresult⟩ := hleaves fields (by rw [hcons]; exact List.mem_cons_self)
    obtain ⟨view, hview, -⟩ := Run.outcome_bind_eq_ok_iff.mp hresult
    exact ⟨view, hview⟩
  have hflat : ∀ fields : List Field, (flat fields).resolve registry values strict =
      matchFields registry view strict fields := by
    intro fields
    rw [resolve_flat, hview]
    rfl
  simp only [hflat] at hleaves ⊢
  obtain ⟨results, hresults⟩ := Run.exists_results_of_forall_ok hleaves
  cases results with
  | nil => cases hcons ▸ hresults
  | cons first others =>
      refine ⟨first :: others, Match.best first others, hresults, Match.pick?_cons first others, ?_⟩
      rw [resolve_eq_leaves htree, hview, ← matchLeaves_of_forall₂ hresults]
      rfl

/-- A leaf that refuses, and a list of two that accept; the last one consumes more. -/
def sampleTree : Schema :=
  oneOf [flat [⟨.str "a", .str "num"⟩],
    oneOf [flat [⟨.str "a", .str "str"⟩],
      flat [⟨.str "a", .str "str"⟩, ⟨.str "b", .str "opt num"⟩]]]

/-- A call with a single text. -/
def sampleCall : Value := .seq .list [.str "x"]

omit [Host] in
theorem isTree_sampleTree : sampleTree.IsTree := by
  have hinner : ∀ candidate ∈ [flat [⟨.str "a", .str "str"⟩],
      flat [⟨.str "a", .str "str"⟩, ⟨.str "b", .str "opt num"⟩]], candidate.IsTree := by
    intro candidate hmem
    simp only [List.mem_cons, List.not_mem_nil, or_false] at hmem
    rcases hmem with rfl | rfl
    · exact .leaf _
    · exact .leaf _
  apply IsTree.node (List.cons_ne_nil _ _)
  intro candidate hmem
  simp only [List.mem_cons, List.not_mem_nil, or_false] at hmem
  rcases hmem with rfl | rfl
  · exact .leaf _
  · exact .node (List.cons_ne_nil _ _) hinner

omit [Host] in
theorem resolve_keeps_best_leaf_sampleTree :
    letI := Host.quiet
    sampleTree.IsTree ∧
    (∀ fields ∈ sampleTree.leaves,
      ∃ result, ((flat fields).resolve Registry.standard sampleCall true).outcome = .ok result) ∧
    (∃ results chosen,
      List.Forall₂ (fun fields result =>
        ((flat fields).resolve Registry.standard sampleCall true).outcome = .ok result)
        sampleTree.leaves results ∧
      Match.pick? results = some chosen ∧
      sampleTree.resolve Registry.standard sampleCall true =
        ⟨sampleTree.leaves.flatMap fun fields =>
          ((flat fields).resolve Registry.standard sampleCall true).events, .ok chosen⟩) ∧
    (oneOf (sampleTree.leaves.map flat)).resolve Registry.standard sampleCall true =
      sampleTree.resolve Registry.standard sampleCall true ∧
    (oneOf [sampleTree]).resolve Registry.standard sampleCall true =
      sampleTree.resolve Registry.standard sampleCall true := by
  let _ := Host.quiet
  have hleaves : ∀ fields ∈ sampleTree.leaves,
      ∃ result, ((flat fields).resolve Registry.standard sampleCall true).outcome = .ok result := by
    intro fields hmem
    simp only [sampleTree, leaves, leavesOf, List.append_nil, List.cons_append, List.nil_append,
      List.mem_cons, List.not_mem_nil, or_false] at hmem
    rcases hmem with rfl | rfl | rfl
    · exact ⟨⟨[], some "`a` is not number", 0⟩, by cbv⟩
    · exact ⟨⟨[(.str "a", .str "x")], none, 1⟩, by cbv⟩
    · exact ⟨⟨[(.str "a", .str "x"), (.str "b", .null)], none, 2⟩, by cbv⟩
  exact ⟨isTree_sampleTree, hleaves, resolve_keeps_best_leaf isTree_sampleTree hleaves⟩

end Schema
end CallSchema
