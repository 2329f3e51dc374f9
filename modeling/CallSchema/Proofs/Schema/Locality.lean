import CallSchema.Proofs.Schema.Strictness
import CallSchema.Proofs.Schema.Walk
import CallSchema.Registry.Standard
import Mathlib

/-!
# What a resolution reads of a call

A plain resolution reads a call only through the values at its indices, where a null is as good as no
value: calls that have the same value everywhere are resolved alike (`resolveView_congr`), whatever
their keys are and however many nulls they end in.  A match against fields reads no value behind the
cursor at which it ended, so there the calls may differ (`resolve_reads_up_to_cursor`).  A strict
resolution reads the number of values too, but an accepting one only for whether it took them all
(`resolveView_strict_of_same_values`).
-/

namespace CallSchema

/-- Nulls at the end of a call are as good as no values. -/
theorem CallView.valueAt_of_padded {view other : CallView} {count : Nat}
    (h : other.values = view.values ++ List.replicate count .null) (index : Nat) :
    other.valueAt index = view.valueAt index := by
  unfold valueAt
  rw [h, List.getD_eq_getElem?_getD, List.getD_eq_getElem?_getD]
  by_cases hindex : index < view.values.length
  · rw [List.getElem?_append_left hindex]
  · rw [List.getElem?_append_right (by omega), List.getElem?_replicate,
      List.getElem?_eq_none (by omega)]
    split <;> rfl

namespace Schema

variable [Host] {registry : Registry} {view other : CallView}

theorem walk_congr (h : ∀ index, other.valueAt index = view.valueAt index) (fields : List Field)
    (cursor : Nat) : walk registry other cursor fields = walk registry view cursor fields := by
  induction fields generalizing cursor with
  | nil => rfl
  | cons field fields ih =>
      rw [walk, walk]
      simp only [h, ih]

theorem matchFields_congr (h : ∀ index, other.valueAt index = view.valueAt index)
    (fields : List Field) :
    matchFields registry other false fields = matchFields registry view false fields := by
  unfold matchFields
  rw [walk_congr h]
  rfl

mutual

/-- A plain resolution looks at values only. -/
theorem resolveView_congr (h : ∀ index, other.valueAt index = view.valueAt index)
    (schema : Schema) :
    resolveView registry other false schema = resolveView registry view false schema := by
  cases schema with
  | flat fields =>
      rw [resolveView, resolveView]
      exact matchFields_congr h fields
  | oneOf candidates => rw [resolveView, resolveView, resolveEach_congr h candidates]
  | malformed got => rw [resolveView, resolveView]

theorem resolveEach_congr (h : ∀ index, other.valueAt index = view.valueAt index)
    (candidates : List Schema) :
    resolveEach registry other false candidates = resolveEach registry view false candidates := by
  cases candidates with
  | nil => rw [resolveEach, resolveEach]
  | cons candidate candidates =>
      rw [resolveEach, resolveEach, resolveView_congr h candidate, resolveEach_congr h candidates]

end

/-- A call that is accepted strictly is accepted in the same match when it is padded or cut, as long as
it has the same value at each index and no more values than the match took; unless a value that another
candidate leaves over cannot be written. -/
theorem resolveView_strict_of_same_values {schema : Schema} {result : Match}
    (h : ∀ index, other.valueAt index = view.valueAt index)
    (hresult : (resolveView registry view true schema).outcome = .ok result)
    (hok : result.ok = true) (hsize : other.size ≤ result.consumed) :
    (resolveView registry other true schema).outcome = .ok result ∨
      ∃ fault, UnwrittenLeftover other fault ∧
        (resolveView registry other true schema).outcome = .error fault := by
  -- An accepting strict match is the plain one, and that is the same for both calls.
  obtain ⟨plain, hplain, hstricter⟩ := (agree_resolveView registry view schema).exists_right hresult
  obtain rfl : result = plain := hstricter.eq_of_ok hok
  rw [← resolveView_congr h] at hplain
  refine (agree_resolveView registry other schema).exists_left hplain |>.imp_left ?_
  rintro ⟨strict, hstrict, hother⟩
  obtain rfl : strict = result := hother.eq_of_ok (hother.ok_iff.mpr ⟨hok, hsize⟩)
  exact hstrict

/-! ## Values behind the cursor -/

/-- The cursor of a walk never goes back. -/
theorem cursor_le_consumed {fields : List Field} {cursor : Nat} {result : Match}
    (h : (walk registry view cursor fields).outcome = .ok result) : cursor ≤ result.consumed := by
  obtain ⟨visits, hvisits⟩ := exists_walked h
  rw [hvisits.consumed_eq]
  exact Nat.le_add_right _ _

/-- A walk that ends in a match goes the same way over every call that has the same values up to the
cursor at which it ended. -/
theorem walk_eq_of_consumed {fields : List Field} {cursor : Nat} {result : Match}
    (hresult : (walk registry view cursor fields).outcome = .ok result)
    (h : ∀ index ≤ result.consumed, other.valueAt index = view.valueAt index) :
    walk registry other cursor fields = walk registry view cursor fields := by
  induction fields generalizing cursor result with
  | nil => rfl
  | cons field fields ih =>
      -- The field at hand is judged at a cursor that the end of the walk is not before.
      have hvalue := h cursor (cursor_le_consumed hresult)
      rw [walk] at hresult
      obtain ⟨text, htext, hresult⟩ := Run.outcome_bind_eq_ok_iff.mp hresult
      obtain ⟨verdict, hverdict, hresult⟩ := Run.outcome_bind_eq_ok_iff.mp hresult
      rw [walk, walk, hvalue, Run.bind_of_ok htext, Run.bind_of_ok htext, Run.bind_of_ok hverdict,
        Run.bind_of_ok hverdict]
      cases verdict with
      | accepted =>
          obtain ⟨rest, hrest, htake⟩ := Run.outcome_bind_eq_ok_iff.mp hresult
          cases htake
          simp only [ih hrest h]
      | refused reason soft =>
          cases soft with
          | true => simp only [ih hresult h]
          | false => rfl

/-- A plain match against fields is the walk over them from the start. -/
theorem matchFields_plain (registry : Registry) (view : CallView) (fields : List Field) :
    matchFields registry view false fields = walk registry view 0 fields :=
  bind_pure (walk registry view 0 fields)

/-- Call values that have a view are matched against fields by it. -/
theorem resolve_flat_of_view {values : Value} (hview : CallView.ofValue values = .ok view)
    (strict : Bool) (fields : List Field) :
    (flat fields).resolve registry values strict = matchFields registry view strict fields := by
  rw [resolve_of_view hview, ← resolveView]
  rfl

/-- A plain match of a call against fields is the same match, made with the same calls of matchers, for
every call that has the same values up to the cursor at which it ended: what stands behind it, the keys
and the number of values have no influence.  For a schema of any shape, nulls at the end of a call are
as good as no values. -/
theorem resolve_reads_up_to_cursor {values others : Value}
    (hview : CallView.ofValue values = .ok view) (hother : CallView.ofValue others = .ok other) :
    (∀ (fields : List Field) (result : Match),
      ((flat fields).resolve registry values false).outcome = .ok result →
      (∀ index ≤ result.consumed, other.valueAt index = view.valueAt index) →
      (flat fields).resolve registry others false = (flat fields).resolve registry values false) ∧
    ∀ (schema : Schema) (count : Nat),
      other.values = view.values ++ List.replicate count .null →
      schema.resolve registry others false = schema.resolve registry values false := by
  constructor
  · intro fields result hresult h
    rw [resolve_flat_of_view hview, matchFields_plain] at hresult
    rw [resolve_flat_of_view hview, resolve_flat_of_view hother, matchFields_plain,
      matchFields_plain, walk_eq_of_consumed hresult h]
  · intro schema count hpadded
    rw [resolve_of_view hview, resolve_of_view hother,
      resolveView_congr (CallView.valueAt_of_padded hpadded)]

/-- An optional number, then a text. -/
def portAndHost : List Field :=
  [⟨.str "port", .str "opt num"⟩, ⟨.str "host", .str "str"⟩]

/-- A text, then an optional number; or the other way round. -/
def portAndHostInAnyOrder : Schema :=
  oneOf [flat portAndHost.reverse, oneOf [flat portAndHost]]

omit [Host] in
/-- A call with a text, and a record that has a null and a number behind it.  The match against the
fields takes the text and is the same for both, though a strict one would not be; and nulls behind the
text do not change which of two candidates is kept. -/
theorem resolve_reads_up_to_cursor_of_text :
    letI := Host.quiet
    CallView.ofValue (.seq .list [.str "x"]) = .ok ⟨[.int 0], [.str "x"]⟩ ∧
    CallView.ofValue (.record .plain [(.str "k", .str "x"), (.str "l", .null), (.str "m", .int 3)]) =
      .ok ⟨[.str "k", .str "l", .str "m"], [.str "x", .null, .int 3]⟩ ∧
    ((flat portAndHost).resolve Registry.standard (.seq .list [.str "x"]) false).outcome =
      .ok ⟨[(.str "host", .str "x")], none, 1⟩ ∧
    (flat portAndHost).resolve Registry.standard
        (.record .plain [(.str "k", .str "x"), (.str "l", .null), (.str "m", .int 3)]) false =
      (flat portAndHost).resolve Registry.standard (.seq .list [.str "x"]) false ∧
    portAndHostInAnyOrder.resolve Registry.standard (.seq .tuple [.str "x", .null, .null]) false =
      portAndHostInAnyOrder.resolve Registry.standard (.seq .list [.str "x"]) false := by
  let _ := Host.quiet
  have hresult : ((flat portAndHost).resolve Registry.standard (.seq .list [.str "x"])
      false).outcome = .ok ⟨[(.str "host", .str "x")], none, 1⟩ := by cbv
  refine ⟨rfl, rfl, hresult, (resolve_reads_up_to_cursor rfl rfl).1 portAndHost _ hresult ?_,
    (resolve_reads_up_to_cursor rfl rfl).2 portAndHostInAnyOrder 2 rfl⟩
  intro index hindex
  rcases Nat.le_one_iff_eq_zero_or_eq_one.mp hindex with rfl | rfl
  · rfl
  · rfl

end Schema
end CallSchema
