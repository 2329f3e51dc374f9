import CallSchema.Proofs.Run
import CallSchema.Proofs.Schema.Ranking
import CallSchema.Proofs.Value.Writing
import CallSchema.Registry.Standard

/-!
# Strict and plain resolution

A strict resolution is compared with the plain one of the same call.  Refusing left-over values turns
some accepting matches into refusing ones, so inside a list of candidates the two resolutions may keep
different matches; what survives every choice is `Stricter`: the strict match accepts exactly when the
plain one accepts and consumed all values, and then the two are equal.  The relation holds of the
matches of one flat schema (`stricter_of_refuseLeftover`), keeping the better of two preserves it
(`Stricter.better`), and so it holds of whole schemas, however their candidates are nested.

A refusal quotes the value that was left over, unless the value came under a name.  Where that value
cannot be written the strict resolution breaks off, though the plain one does not
(`resolve_strict_of_unwritten_value`); there is no other way for the two to part
(`resolve_strict_agrees_with_plain`).
-/

namespace CallSchema
namespace Match

theorem ok_eq_true_iff {result : Match} : result.ok = true ↔ result.fail = none :=
  Option.isNone_iff_eq_none

/-! ## Refusing left-over values -/

/-- A left-over value cannot be refused when it came under no name and cannot be written. -/
theorem leftoverReason_eq_error_iff {view : CallView} {index : Nat} {fault : Fault} :
    leftoverReason view index = .error fault ↔
      (∀ key, view.keyAt index ≠ .str key) ∧ (view.valueAt index).preview = .error fault := by
  unfold leftoverReason
  split
  · rename_i key hkey
    simp [hkey]
  · rename_i hkey
    simp only [bind_eq_error_iff]
    constructor
    · rintro (h | ⟨text, -, h⟩)
      · exact ⟨fun key heq => hkey key heq, h⟩
      · cases h
    · rintro ⟨-, h⟩
      exact Or.inl h

section

variable {view : CallView} {result kept : Match}

theorem refuseLeftover_of_le (hle : view.size ≤ result.consumed) :
    result.refuseLeftover view = .ok result := by
  have hlt : ¬ result.consumed < view.size := by omega
  unfold refuseLeftover
  rw [decide_eq_false hlt, Bool.and_false, if_neg Bool.false_ne_true]

theorem refuseLeftover_of_refused {reason : String} (h : result.fail = some reason) :
    result.refuseLeftover view = .ok result := by
  have hok : result.ok = false := by simp [ok, h]
  unfold refuseLeftover
  rw [hok, Bool.false_and, if_neg Bool.false_ne_true]

theorem refuseLeftover_of_lt (hok : result.fail = none) (hlt : result.consumed < view.size) :
    result.refuseLeftover view =
      (leftoverReason view result.consumed).map fun reason =>
        { result with fail := some reason } := by
  unfold refuseLeftover
  rw [ok_eq_true_iff.mpr hok, Bool.true_and, if_pos (decide_eq_true hlt)]
  cases leftoverReason view result.consumed <;> rfl

/-- Refusing what is left over keeps a match as it was, or adds the refusal of the first value that was
left over. -/
theorem refuseLeftover_eq_ok_iff :
    result.refuseLeftover view = .ok kept ↔
      (kept = result ∧ (result.fail = none → view.size ≤ result.consumed)) ∨
        result.fail = none ∧ result.consumed < view.size ∧
          ∃ reason, leftoverReason view result.consumed = .ok reason ∧
            kept = { result with fail := some reason } := by
  cases hfail : result.fail with
  | some reason =>
      rw [refuseLeftover_of_refused hfail]
      simp [eq_comm]
  | none =>
      by_cases hle : view.size ≤ result.consumed
      · rw [refuseLeftover_of_le hle]
        simp [hle, Nat.not_lt.mpr hle, eq_comm]
      · rw [refuseLeftover_of_lt hfail (Nat.lt_of_not_le hle)]
        cases leftoverReason view result.consumed with
        | error fault => simp [Except.map, hle]
        | ok reason => simp [Except.map, hle, Nat.lt_of_not_le hle, eq_comm]

/-- What a walk comes to is its match, or the refusal of the first value that it left over. -/
theorem conclude_eq_ok_iff {strict : Bool} :
    result.conclude view strict = .ok kept ↔
      (kept = result ∧ (strict = true → result.fail = none → view.size ≤ result.consumed)) ∨
        strict = true ∧ result.fail = none ∧ result.consumed < view.size ∧
          ∃ reason, leftoverReason view result.consumed = .ok reason ∧
            kept = { result with fail := some reason } := by
  unfold conclude
  cases strict with
  | true =>
      rw [if_pos rfl, refuseLeftover_eq_ok_iff]
      simp
  | false => simp [eq_comm]

/-- Refusing what is left over fails only where the refusal cannot be written. -/
theorem leftoverReason_of_refuseLeftover_eq_error {fault : Fault}
    (h : result.refuseLeftover view = .error fault) :
    result.consumed < view.size ∧ leftoverReason view result.consumed = .error fault := by
  cases hfail : result.fail with
  | some reason =>
      rw [refuseLeftover_of_refused hfail] at h
      cases h
  | none =>
      by_cases hle : view.size ≤ result.consumed
      · rw [refuseLeftover_of_le hle] at h
        cases h
      · rw [refuseLeftover_of_lt hfail (Nat.lt_of_not_le hle)] at h
        refine ⟨Nat.lt_of_not_le hle, ?_⟩
        cases hreason : leftoverReason view result.consumed with
        | error other =>
            rw [hreason] at h
            cases h
            rfl
        | ok reason =>
            rw [hreason] at h
            cases h

theorem fromText_of_conclude {strict : Bool} {fault : Fault}
    (h : result.conclude view strict = .error fault) : fault.FromText := by
  cases strict with
  | true =>
      obtain ⟨-, hreason⟩ := leftoverReason_of_refuseLeftover_eq_error h
      exact Value.fromText_of_preview (leftoverReason_eq_error_iff.mp hreason).2
  | false => cases h

end

/-! ## Strict matches beside plain ones -/

/-- How a strict match of a call of `size` values stands to the plain one. -/
structure Stricter (size : Nat) (strict plain : Match) : Prop where
  ok_iff : strict.ok = true ↔ plain.ok = true ∧ size ≤ plain.consumed
  eq_of_ok : strict.ok = true → strict = plain

variable {size : Nat} {strict plain strict' plain' : Match}

/-- Refusing left-over values accepts what was accepted and left nothing over. -/
theorem stricter_of_refuseLeftover {view : CallView} (h : plain.refuseLeftover view = .ok strict) :
    Stricter view.size strict plain := by
  rcases refuseLeftover_eq_ok_iff.mp h with ⟨rfl, hle⟩ | ⟨-, hlt, reason, -, rfl⟩
  · exact ⟨⟨fun hok => ⟨hok, hle (ok_eq_true_iff.mp hok)⟩, And.left⟩, fun _ => rfl⟩
  · have hrefused : ¬ ({ plain with fail := some reason } : Match).ok = true := nofun
    exact ⟨iff_of_false hrefused fun hplain => Nat.not_lt.mpr hplain.2 hlt,
      fun hok => absurd hok hrefused⟩

/-- The better of two matches stays strict: an accepting strict match consumed all values, so no plain
match that is only plainly accepted can outrank it. -/
theorem Stricter.better (h : Stricter size strict plain) (h' : Stricter size strict' plain') :
    Stricter size (strict.better strict') (plain.better plain') := by
  have hok := h.ok_iff
  have hok' := h'.ok_iff
  by_cases haccepts : strict.ok = true
  · obtain ⟨-, hsize⟩ := hok.mp haccepts
    have heq := h.eq_of_ok haccepts
    subst heq
    by_cases haccepts' : strict'.ok = true
    · have heq' := h'.eq_of_ok haccepts'
      subst heq'
      exact better_of_both (P := fun kept => Stricter size kept kept) h h'
    · -- The plain match on the right consumed less than all values, or refuses.
      have hleft : strict.better strict' = strict :=
        better_eq_left (by rw [outranks_iff]; grind)
      have hleft' : strict.better plain' = strict :=
        better_eq_left (by rw [outranks_iff]; grind)
      rw [hleft, hleft']
      exact h
  · by_cases haccepts' : strict'.ok = true
    · obtain ⟨-, hsize'⟩ := hok'.mp haccepts'
      have heq' := h'.eq_of_ok haccepts'
      subst heq'
      have hright : strict.better strict' = strict' :=
        better_eq_right (by rw [outranks_iff]; grind)
      have hright' : plain.better strict' = strict' :=
        better_eq_right (by rw [outranks_iff]; grind)
      rw [hright, hright']
      exact h'
    · -- No strict match accepts; which two are kept may differ, but neither accepts all values.
      have hrefuses : ¬ (strict.better strict').ok = true :=
        better_of_both (P := fun kept => ¬ kept.ok = true) haccepts haccepts'
      have hshort : ¬ ((plain.better plain').ok = true ∧
          size ≤ (plain.better plain').consumed) :=
        better_of_both (P := fun kept => ¬ (kept.ok = true ∧ size ≤ kept.consumed))
          (fun hplain => haccepts (hok.mpr hplain)) fun hplain => haccepts' (hok'.mpr hplain)
      exact ⟨iff_of_false hrefuses hshort, fun hkept => absurd hkept hrefuses⟩

/-- The best of several matches stays strict. -/
theorem Stricter.best (h : Stricter size strict plain) {stricts plains : List Match}
    (hothers : List.Forall₂ (Stricter size) stricts plains) :
    Stricter size (Match.best strict stricts) (Match.best plain plains) := by
  induction hothers generalizing strict plain with
  | nil => exact h
  | cons hnext _ ih => exact ih (h.better hnext)

end Match

namespace Schema

/-- What comes of refusing a value of the call that was left over and cannot be written. -/
def UnwrittenLeftover (view : CallView) (fault : Fault) : Prop :=
  ∃ index < view.size, Match.leftoverReason view index = .error fault

variable [Host] (registry : Registry)

section

variable (view : CallView)

theorem agree_matchFields (fields : List Field) :
    Run.AgreeUnless (UnwrittenLeftover view) (Match.Stricter view.size)
      (matchFields registry view true fields) (matchFields registry view false fields) := by
  apply (Run.AgreeUnless.agree (Run.agree_refl (walk registry view 0 fields))).bind
  rintro plain _ rfl
  cases hstrict : plain.refuseLeftover view with
  | ok strict =>
      refine .agree (Run.agree_ofExcept ?_)
      rw [Match.conclude, Match.conclude, if_pos rfl, if_neg Bool.false_ne_true, hstrict]
      exact .ok (Match.stricter_of_refuseLeftover hstrict)
  | error fault =>
      obtain ⟨hlt, hreason⟩ := Match.leftoverReason_of_refuseLeftover_eq_error hstrict
      exact .brokenOff ⟨_, hlt, hreason⟩ hstrict (List.prefix_refl _)

mutual

/-- Strict and plain resolution of one view agree, unless the strict one breaks off. -/
theorem agree_resolveView (schema : Schema) :
    Run.AgreeUnless (UnwrittenLeftover view) (Match.Stricter view.size)
      (resolveView registry view true schema) (resolveView registry view false schema) := by
  cases schema with
  | flat fields =>
      rw [resolveView, resolveView]
      exact agree_matchFields registry view fields
  | oneOf candidates =>
      rw [resolveView, resolveView]
      apply (agree_resolveEach candidates).bind
      intro stricts plains hall
      cases hall with
      | nil => exact .agree (Run.agree_fail _)
      | cons hfirst hothers => exact .agree (Run.agree_pure (hfirst.best hothers))
  | malformed got =>
      rw [resolveView, resolveView]
      exact .agree (Run.agree_fail _)

/-- Strict and plain resolution of one view agree on each of several candidates, unless the strict one
breaks off. -/
theorem agree_resolveEach (candidates : List Schema) :
    Run.AgreeUnless (UnwrittenLeftover view) (List.Forall₂ (Match.Stricter view.size))
      (resolveEach registry view true candidates)
      (resolveEach registry view false candidates) := by
  cases candidates with
  | nil =>
      rw [resolveEach, resolveEach]
      exact .agree (Run.agree_pure .nil)
  | cons candidate candidates =>
      rw [resolveEach, resolveEach]
      apply (agree_resolveView candidate).bind
      intro first first' hfirst
      apply (agree_resolveEach candidates).bind
      intro others others' hothers
      exact .agree (Run.agree_pure (.cons hfirst hothers))

end

end

/-- How a strict resolution of a call stands to the plain one: the same matchers are called in both, and
both end in the same fault or both in a match.  The strict match accepts exactly when the plain one
accepts and consumed at least as many fields as the call has values, and then the two matches are
equal. -/
structure StrictAgrees (schema : Schema) (values : Value) : Prop where
  events : (schema.resolve registry values true).events =
    (schema.resolve registry values false).events
  outcomes : (∃ fault, (schema.resolve registry values true).outcome = .error fault ∧
      (schema.resolve registry values false).outcome = .error fault) ∨
    ∃ view strict plain, CallView.ofValue values = .ok view ∧
      (schema.resolve registry values true).outcome = .ok strict ∧
      (schema.resolve registry values false).outcome = .ok plain ∧
      (strict.ok = true ↔ plain.ok = true ∧ view.size ≤ plain.consumed) ∧
      (strict.ok = true → strict = plain)

variable {registry}

/-- Call values that have a view are resolved by it, unless the schema has no shape. -/
theorem resolve_of_view {values : Value} {view : CallView} (hview : CallView.ofValue values = .ok view)
    (strict : Bool) (schema : Schema) :
    schema.resolve registry values strict =
      match schema.shapeFault? with
      | some fault => Run.fail fault
      | none => resolveView registry view strict schema := by
  unfold resolve
  cases schema.shapeFault? with
  | some fault => rfl
  | none =>
      rw [hview]
      rfl

/-- Call values without a view are a fault, whatever the schema. -/
theorem exists_resolve_eq_fail {values : Value} {fault : Fault}
    (hview : CallView.ofValue values = .error fault) (schema : Schema) :
    ∃ fault, ∀ strict, schema.resolve registry values strict = Run.fail fault := by
  unfold resolve
  cases schema.shapeFault? with
  | some shapeFault => exact ⟨shapeFault, fun _ => rfl⟩
  | none =>
      rw [hview]
      exact ⟨fault, fun _ => rfl⟩

/-- A strict match that leaves over a value which cannot be refused is a fault. -/
theorem matchFields_of_unwritten {view : CallView} {fields : List Field} {walked : Match}
    {fault : Fault} (hwalked : (walk registry view 0 fields).outcome = .ok walked)
    (hok : walked.fail = none) (hlt : walked.consumed < view.size)
    (hreason : Match.leftoverReason view walked.consumed = .error fault) :
    (matchFields registry view true fields).outcome = .error fault := by
  rw [matchFields, Run.bind_of_ok hwalked]
  show walked.refuseLeftover view = _
  rw [Match.refuseLeftover_of_lt hok hlt, hreason]
  rfl

theorem strictAgrees_of_fail {schema : Schema} {values : Value} {fault : Fault}
    (h : ∀ strict, schema.resolve registry values strict = Run.fail fault) :
    StrictAgrees registry schema values where
  events := by rw [h, h]
  outcomes := Or.inl ⟨fault, congrArg Run.outcome (h true), congrArg Run.outcome (h false)⟩

variable (registry)

/-- Strict and plain resolution of a call agree, unless the strict one breaks off where it refuses a value
that came under no name and cannot be written.  Up to there the same matchers are called in both. -/
theorem resolve_strict_agrees_with_plain (schema : Schema) (values : Value) :
    StrictAgrees registry schema values ∨
      ∃ view index fault, CallView.ofValue values = .ok view ∧ index < view.size ∧
        (∀ key, view.keyAt index ≠ .str key) ∧ (view.valueAt index).preview = .error fault ∧
        fault.FromText ∧
        (schema.resolve registry values true).outcome = .error fault ∧
        (schema.resolve registry values true).events <+:
          (schema.resolve registry values false).events := by
  cases hview : CallView.ofValue values with
  | error fault =>
      obtain ⟨fault, hfail⟩ := exists_resolve_eq_fail hview schema
      exact Or.inl (strictAgrees_of_fail hfail)
  | ok view =>
      cases hshape : schema.shapeFault? with
      | some fault =>
          have hfail (strict : Bool) : schema.resolve registry values strict = Run.fail fault := by
            rw [resolve_of_view hview, hshape]
          exact Or.inl (strictAgrees_of_fail hfail)
      | none =>
          have hresolve : ∀ strict, schema.resolve registry values strict =
              resolveView registry view strict schema := by
            intro strict
            rw [resolve_of_view hview, hshape]
          rcases agree_resolveView registry view schema with hagree | ⟨hfault, houtcome, hevents⟩
          · refine Or.inl ⟨by rw [hresolve, hresolve, hagree.events], ?_⟩
            rw [hresolve, hresolve]
            generalize hstrict : (resolveView registry view true schema).outcome = strictOutcome
            generalize hplain : (resolveView registry view false schema).outcome = plainOutcome
            cases hstrict ▸ hplain ▸ hagree.outcomes with
            | ok hrel => exact Or.inr ⟨view, _, _, hview, rfl, rfl, hrel.ok_iff, hrel.eq_of_ok⟩
            | error fault => exact Or.inl ⟨fault, rfl, rfl⟩
          · obtain ⟨index, hlt, hreason⟩ := hfault
            obtain ⟨hkey, hpreview⟩ := Match.leftoverReason_eq_error_iff.mp hreason
            rw [hresolve, hresolve]
            exact Or.inr ⟨view, index, _, rfl, hlt, hkey, hpreview,
              Value.fromText_of_preview hpreview, houtcome, hevents⟩

omit [Host] in
/-- No fields, and the least integer that is not written out.  The plain resolution accepts the call and
leaves the integer over; the strict one does not refuse it, but ends in the fault of writing it. -/
theorem resolve_strict_of_unwritten_value :
    letI := Host.quiet
    ((flat []).resolve Registry.standard (.seq .list [.int digitBound]) false).outcome =
      .ok ⟨[], none, 0⟩ ∧
    ((flat []).resolve Registry.standard (.seq .list [.int digitBound]) true).outcome =
      .error .tooManyDigits ∧
    ¬ StrictAgrees Registry.standard (flat []) (.seq .list [.int digitBound]) := by
  let _ := Host.quiet
  have hreason : Match.leftoverReason ⟨[.int 0], [.int digitBound]⟩ 0 = .error .tooManyDigits :=
    Match.leftoverReason_eq_error_iff.mpr ⟨nofun, Value.preview_digitBound⟩
  have hplain : ((flat []).resolve Registry.standard (.seq .list [.int digitBound])
      false).outcome = .ok ⟨[], none, 0⟩ := rfl
  have hstrict : ((flat []).resolve Registry.standard (.seq .list [.int digitBound])
      true).outcome = .error .tooManyDigits := by
    have hview : CallView.ofValue (.seq .list [.int digitBound]) =
        .ok ⟨[.int 0], [.int digitBound]⟩ := rfl
    rw [resolve_of_view hview]
    exact matchFields_of_unwritten rfl rfl Nat.zero_lt_one hreason
  refine ⟨hplain, hstrict, ?_⟩
  intro hagrees
  rcases hagrees.outcomes with ⟨fault, -, hfault⟩ | ⟨view, strict, plain, -, hresult, -⟩
  · rw [hplain] at hfault
    cases hfault
  · rw [hstrict] at hresult
    cases hresult

end Schema
end CallSchema
