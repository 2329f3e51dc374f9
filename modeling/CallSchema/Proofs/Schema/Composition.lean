import CallSchema.Proofs.Schema.Account
import CallSchema.Proofs.Schema.Locality

/-!
# Matching fields in parts

A match against fields in two parts is the plain match against the first part and, when that accepts, the
match of the values behind its cursor against the second part (`matchFields_append`).  The walk goes on
from where the first part ended (`walk_append`), and it does not matter whether that is before the last
value, behind it or past the end: a walk over a call from which the first values were dropped is the walk
over the whole call from further on (`walk_drop`).  Fields that were passed over can be left out of the
schema (`exists_walked_sparing`).
-/

namespace CallSchema

namespace CallView

/-- A view is a value that can be viewed. -/
def toValue (view : CallView) : Value := .view view.keys view.values

@[simp] theorem ofValue_toValue [Host] (view : CallView) : ofValue view.toValue = .ok view := rfl

variable (view : CallView) (count index : Nat)

@[simp] theorem size_drop : (view.drop count).size = view.size - count := List.length_drop

@[simp] theorem valueAt_drop : (view.drop count).valueAt index = view.valueAt (count + index) := by
  rw [valueAt, valueAt, drop, List.getD_eq_getElem?_getD, List.getElem?_drop,
    List.getD_eq_getElem?_getD]

@[simp] theorem keyAt_drop : (view.drop count).keyAt index = view.keyAt (count + index) := by
  rw [keyAt, keyAt, drop, List.getD_eq_getElem?_getD, List.getElem?_drop,
    List.getD_eq_getElem?_getD]

end CallView

namespace Match

/-- A match of some fields, continued by a match of the fields behind them. -/
def followedBy (first second : Match) : Match :=
  ⟨first.parsed ++ second.parsed, second.fail, second.consumed⟩

/-- A match of the values behind the first `count` ones, with its cursor counted from the start. -/
def shifted (count : Nat) (result : Match) : Match :=
  { result with consumed := count + result.consumed }

/-- A match, continued by a match of the values behind its cursor. -/
def andThen (first rest : Match) : Match :=
  ⟨first.parsed ++ rest.parsed, rest.fail, first.consumed + rest.consumed⟩

theorem leftoverReason_drop (view : CallView) (count index : Nat) :
    leftoverReason (view.drop count) index = leftoverReason view (count + index) := by
  rw [leftoverReason, leftoverReason, CallView.keyAt_drop, CallView.valueAt_drop]

/-- A value that is left over behind two matches is left over behind the second one. -/
theorem refuseLeftover_andThen (view : CallView) (first rest : Match) :
    (first.andThen rest).refuseLeftover view =
      (rest.refuseLeftover (view.drop first.consumed)).map first.andThen := by
  cases hfail : rest.fail with
  | some reason =>
      rw [refuseLeftover_of_refused hfail,
        refuseLeftover_of_refused (show (first.andThen rest).fail = some reason from hfail)]
      rfl
  | none =>
      have hboth : (first.andThen rest).fail = none := hfail
      by_cases hle : view.size ≤ first.consumed + rest.consumed
      · have hrest : (view.drop first.consumed).size ≤ rest.consumed := by
          rw [CallView.size_drop]
          omega
        rw [refuseLeftover_of_le hrest, refuseLeftover_of_le (show _ ≤ _ from hle)]
        rfl
      · have hrest : rest.consumed < (view.drop first.consumed).size := by
          rw [CallView.size_drop]
          omega
        rw [refuseLeftover_of_lt hfail hrest, refuseLeftover_of_lt hboth (Nat.lt_of_not_le hle),
          leftoverReason_drop,
          show (first.andThen rest).consumed = first.consumed + rest.consumed from rfl]
        cases leftoverReason view (first.consumed + rest.consumed) <;> rfl

theorem conclude_andThen (view : CallView) (strict : Bool) (first rest : Match) :
    (first.andThen rest).conclude view strict =
      (rest.conclude (view.drop first.consumed) strict).map first.andThen := by
  cases strict with
  | true => exact refuseLeftover_andThen view first rest
  | false => rfl

/-- What refuses already is not refused once more. -/
theorem conclude_of_refused {view : CallView} {result : Match} (h : result.ok = false) (strict : Bool) :
    result.conclude view strict = .ok result := by
  cases strict with
  | true => simp [conclude, refuseLeftover, h]
  | false => rfl

end Match

namespace Schema

/-- The fields of a schema without some of those that a walk over them visited. -/
def keptFields (kept : Visit → Bool) (visits : List Visit) (fields : List Field) : List Field :=
  (visits.filter kept).map Visit.field ++ fields.drop visits.length

theorem keptFields_cons_of_kept {kept : Visit → Bool} {visit : Visit} (h : kept visit = true)
    (visits : List Visit) (fields : List Field) :
    keptFields kept (visit :: visits) (visit.field :: fields) =
      visit.field :: keptFields kept visits fields := by
  rw [keptFields, List.filter_cons_of_pos h]
  rfl

theorem keptFields_cons_of_not_kept {kept : Visit → Bool} {visit : Visit} (h : kept visit = false)
    (visits : List Visit) (fields : List Field) :
    keptFields kept (visit :: visits) (visit.field :: fields) = keptFields kept visits fields := by
  rw [keptFields, List.filter_cons_of_neg (by rw [h]; exact Bool.false_ne_true)]
  rfl

variable [Host] {registry : Registry} {view : CallView} {cursor : Nat} {strict : Bool}
  {before after fields : List Field} {field : Field} {values : Value} {result : Match}

/-! ## Two parts -/

/-- What becomes of the match of some fields: the fields behind them are walked, unless it refuses. -/
def walkBehind (registry : Registry) (view : CallView) (fields : List Field) (result : Match) :
    Run MatcherCall Match :=
  if result.ok then
    walk registry view result.consumed fields >>= fun rest => pure (result.followedBy rest)
  else pure result

theorem walkBehind_take (fields : List Field) (name value : Value) (result : Match) :
    walkBehind registry view fields (result.take name value) =
      walkBehind registry view fields result >>= fun rest => pure (rest.take name value) := by
  unfold walkBehind
  rw [show (result.take name value).ok = result.ok from rfl]
  cases result.ok with
  | true =>
      rw [if_pos rfl, if_pos rfl, bind_assoc]
      rfl
  | false => rfl

/-- A walk over fields in two parts is the walk over the first part, and over the second one unless the
first one refuses. -/
theorem walk_append (before after : List Field) (cursor : Nat) :
    walk registry view cursor (before ++ after) =
      walk registry view cursor before >>= walkBehind registry view after := by
  induction before generalizing cursor with
  | nil => exact (bind_pure (walk registry view cursor after)).symm
  | cons field before ih =>
      rw [List.cons_append, walk, walk]
      simp only [bind_assoc]
      congr 1
      funext text
      congr 1
      funext verdict
      -- The rest starts one further on where the field takes the value, and the taken value is kept.
      cases verdict with
      | accepted => simp only [ih, bind_assoc, pure_bind, walkBehind_take]
      | refused reason soft =>
          cases soft with
          | true => exact ih cursor
          | false => rfl

/-- A walk over a call without its first values is the walk over the whole call from further on. -/
theorem walk_drop (registry : Registry) (view : CallView) (count cursor : Nat)
    (fields : List Field) :
    walk registry view (count + cursor) fields =
      walk registry (view.drop count) cursor fields >>= fun result =>
        pure (result.shifted count) := by
  induction fields generalizing cursor with
  | nil => rfl
  | cons field fields ih =>
      rw [walk, walk]
      simp only [bind_assoc, CallView.valueAt_drop]
      congr 1
      funext text
      congr 1
      funext verdict
      cases verdict with
      | accepted =>
          have hnext := ih (cursor + 1)
          rw [← Nat.add_assoc] at hnext
          simp only [hnext, bind_assoc, pure_bind]
          rfl
      | refused reason soft =>
          cases soft with
          | true => exact ih cursor
          | false => rfl

/-- The second part of a walk is a walk of its own over the values behind the first part. -/
theorem walkBehind_eq (first : Match) (fields : List Field) :
    walkBehind registry view fields first =
      if first.ok then
        walk registry (view.drop first.consumed) 0 fields >>= fun rest => pure (first.andThen rest)
      else pure first := by
  have hdrop := walk_drop registry view first.consumed 0 fields
  rw [Nat.add_zero] at hdrop
  rw [walkBehind, hdrop, bind_assoc]
  rfl

theorem matchFields_append (registry : Registry) (view : CallView) (strict : Bool)
    (before after : List Field) :
    matchFields registry view strict (before ++ after) =
      matchFields registry view false before >>= fun first =>
        if first.ok then
          matchFields registry (view.drop first.consumed) strict after >>= fun rest =>
            pure (first.andThen rest)
        else pure first := by
  rw [matchFields_plain, matchFields, walk_append, bind_assoc]
  congr 1
  funext first
  rw [walkBehind_eq]
  cases hok : first.ok with
  | true =>
      simp only [if_true, matchFields, bind_assoc, pure_bind, Match.conclude_andThen]
      congr 1
      funext rest
      exact Run.ofExcept_map _ _
  | false =>
      -- What the first part refuses is refused for the same reason in a strict match.
      rw [if_neg Bool.false_ne_true, if_neg Bool.false_ne_true, pure_bind,
        Match.conclude_of_refused hok]
      rfl

/-! ## Fields that were passed over -/

/-- Where a field takes the value at the cursor, the walk goes on one further. -/
theorem outcome_walk_of_taken
    (h : Visit.Judged registry view ⟨field, cursor, .accepted⟩)
    (hrest : (walk registry view (cursor + 1) fields).outcome = .ok result) :
    (walk registry view cursor (field :: fields)).outcome =
      .ok (result.take field.name (view.valueAt cursor)) := by
  obtain ⟨text, htext, hcheck⟩ := h
  rw [walk]
  refine Run.outcome_bind_eq_ok_iff.mpr ⟨text, by rw [Field.typeText, htext]; rfl, ?_⟩
  refine Run.outcome_bind_eq_ok_iff.mpr ⟨.accepted, hcheck, ?_⟩
  exact Run.outcome_bind_eq_ok_iff.mpr ⟨result, hrest, rfl⟩

/-- Where a field is passed over, the walk goes on as if the field were not there. -/
theorem outcome_walk_of_passedOver {reason : String}
    (h : Visit.Judged registry view ⟨field, cursor, .refused reason true⟩)
    (hrest : (walk registry view cursor fields).outcome = .ok result) :
    (walk registry view cursor (field :: fields)).outcome = .ok result := by
  obtain ⟨text, htext, hcheck⟩ := h
  rw [walk]
  refine Run.outcome_bind_eq_ok_iff.mpr ⟨text, by rw [Field.typeText, htext]; rfl, ?_⟩
  exact Run.outcome_bind_eq_ok_iff.mpr ⟨.refused reason true, hcheck, hrest⟩

/-- Every walk that ends in a match keeps the invariant, and ends in the same match when fields that it
passed over are left out. -/
theorem exists_walked_sparing (h : (walk registry view cursor fields).outcome = .ok result) :
    ∃ visits, Walked registry view cursor fields visits result ∧
      ∀ kept : Visit → Bool,
        (∀ visit ∈ visits, kept visit = false → visit.takes = false ∧ visit.stops = false) →
        (walk registry view cursor (keptFields kept visits fields)).outcome = .ok result := by
  induction fields generalizing cursor result with
  | nil =>
      cases h
      exact ⟨[], walked_done, fun _ _ => rfl⟩
  | cons field fields ih =>
      have hwalk := h
      unfold walk at h
      obtain ⟨text, htext, h⟩ := Run.outcome_bind_eq_ok_iff.mp h
      obtain ⟨verdict, hverdict, h⟩ := Run.outcome_bind_eq_ok_iff.mp h
      have hjudged : Visit.Judged registry view ⟨field, cursor, verdict⟩ :=
        ⟨text, type_eq_of_typeText htext, hverdict⟩
      split at h
      · obtain ⟨rest, hrest, htake⟩ := Run.outcome_bind_eq_ok_iff.mp h
        obtain ⟨visits, hvisits, hspared⟩ := ih hrest
        cases htake
        refine ⟨_, hvisits.take hjudged, fun kept hkept => ?_⟩
        obtain ⟨hfirst, hothers⟩ := List.forall_mem_cons.mp hkept
        have htaken : kept ⟨field, cursor, .accepted⟩ = true := by
          by_contra hnot
          cases (hfirst (Bool.eq_false_of_not_eq_true hnot)).1
        rw [keptFields_cons_of_kept htaken]
        exact outcome_walk_of_taken hjudged (hspared kept hothers)
      · rename_i reason
        obtain ⟨visits, hvisits, hspared⟩ := ih h
        refine ⟨_, hvisits.passOver hjudged, fun kept hkept => ?_⟩
        obtain ⟨-, hothers⟩ := List.forall_mem_cons.mp hkept
        cases hfirst : kept ⟨field, cursor, .refused reason true⟩ with
        | true =>
            rw [keptFields_cons_of_kept hfirst]
            exact outcome_walk_of_passedOver hjudged (hspared kept hothers)
        | false =>
            rw [keptFields_cons_of_not_kept hfirst]
            exact hspared kept hothers
      · rename_i reason
        cases h
        refine ⟨_, walked_refused hjudged, fun kept hkept => ?_⟩
        obtain ⟨hlast, -⟩ := List.forall_mem_cons.mp hkept
        have hstopped : kept ⟨field, cursor, .refused reason false⟩ = true := by
          by_contra hnot
          cases (hlast (Bool.eq_false_of_not_eq_true hnot)).2
        rw [keptFields_cons_of_kept hstopped]
        exact hwalk

end Schema
end CallSchema
