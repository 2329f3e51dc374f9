import CallSchema.Proofs.TypeExpr.Check
import CallSchema.Schema.Match
import Mathlib.Data.List.Infix

/-!
# What a walk over fields does

A walk visits fields in their order, from the first one on, and judges each on the value at the cursor.
A visit either takes the value, or passes the field over, or stops the walk.  `Walked` is the invariant
of the walk, with one lemma for each treatment of a field; every walk that ends in a match keeps it
(`exists_walked`).
-/

namespace CallSchema

/-- The field's type is optional at its root. -/
def Field.IsOptional (field : Field) : Prop :=
  ∃ text inner, field.type = .str text ∧ TypeExpr.parse text = .optional inner

/-- A field that a walk reached, the cursor at which it was reached, and the verdict on the value
there. -/
structure Visit where
  field : Field
  cursor : Nat
  verdict : Verdict

namespace Visit

/-- The value that stood at the cursor. -/
def value (view : CallView) (visit : Visit) : Value := view.valueAt visit.cursor

/-- The name of the field with the value at the cursor. -/
def pair (view : CallView) (visit : Visit) : Value × Value := (visit.field.name, visit.value view)

/-- Whether the field takes the value. -/
def takes (visit : Visit) : Bool := visit.verdict.isAccepted

/-- Whether the walk ends with a hard refusal. -/
def stops (visit : Visit) : Bool :=
  match visit.verdict with
  | .accepted => false
  | .refused _ soft => !soft

section

variable [Host]

/-- The verdict is that of the field's own expression on the value at the cursor. -/
def Judged (registry : Registry) (view : CallView) (visit : Visit) : Prop :=
  ∃ text, visit.field.type = .str text ∧
    ((TypeExpr.parse text).check registry visit.field.name (visit.value view)).outcome =
      .ok visit.verdict

/-- The field's expression is optional at its root, and it refuses the value at the cursor, which is
not null. -/
def PassedOver (registry : Registry) (view : CallView) (visit : Visit) : Prop :=
  ∃ text inner reason, visit.field.type = .str text ∧ TypeExpr.parse text = .optional inner ∧
    visit.value view ≠ .null ∧
    ((TypeExpr.optional inner).check registry visit.field.name (visit.value view)).outcome =
      .ok (.refused reason true)

end

variable {registry : Registry} {view : CallView} {visit : Visit}

theorem stops_of_verdict {reason : String} (h : visit.verdict = .refused reason false) :
    visit.stops = true := by
  rw [stops, h]
  rfl

/-- A visit that stops the walk does not take the value. -/
theorem takes_eq_false_of_stops (h : visit.stops = true) : visit.takes = false := by
  obtain ⟨field, cursor, verdict⟩ := visit
  cases verdict with
  | accepted => exact absurd h Bool.false_ne_true
  | refused reason soft => rfl

/-- A field that neither takes the value nor stops the walk is passed over. -/
theorem Judged.passedOver [Host] (h : visit.Judged registry view) (htakes : visit.takes = false)
    (hstops : visit.stops = false) : visit.PassedOver registry view := by
  obtain ⟨field, cursor, verdict⟩ := visit
  obtain ⟨text, htext, hcheck⟩ := h
  cases verdict with
  | accepted => exact absurd htakes.symm Bool.false_ne_true
  | refused reason soft =>
      have hsoft : soft = true := by simpa [stops] using hstops
      subst hsoft
      obtain ⟨⟨inner, hinner⟩, hvalue⟩ := TypeExpr.optional_of_soft hcheck
      exact ⟨text, inner, reason, htext, hinner, hvalue, hinner ▸ hcheck⟩

end Visit

namespace Schema

/-- How a walk over fields ends: every field was visited and none stopped it, or the last one visited
did, and gave the reason. -/
inductive Ending (fields : List Field) : List Visit → Option String → Prop where
  | complete {visits : List Visit} (hfields : visits.map Visit.field = fields)
      (hgoes : ∀ visit ∈ visits, visit.stops = false) : Ending fields visits none
  | stopped (before : List Visit) (last : Visit) (reason : String)
      (hreached : (before ++ [last]).map Visit.field <+: fields)
      (hgoes : ∀ visit ∈ before, visit.stops = false)
      (hverdict : last.verdict = .refused reason false) :
      Ending fields (before ++ [last]) (some reason)

variable {fields : List Field} {visits : List Visit} {cursor : Nat}

/-- A field that does not stop the walk is visited before the others. -/
theorem Ending.cons (visit : Visit) {fail : Option String} (h : Ending fields visits fail)
    (hgoes : visit.stops = false) : Ending (visit.field :: fields) (visit :: visits) fail := by
  cases h with
  | complete hfields hrest =>
      refine .complete (by rw [List.map_cons, hfields]) ?_
      intro other hmem
      rcases List.mem_cons.mp hmem with rfl | hmem
      · exact hgoes
      · exact hrest other hmem
  | stopped before last reason hreached hrest hverdict =>
      refine .stopped (visit :: before) last reason ?_ ?_ hverdict
      · rw [List.cons_append, List.map_cons]
        exact (List.prefix_cons_inj _).mpr hreached
      · intro other hmem
        rcases List.mem_cons.mp hmem with rfl | hmem
        · exact hgoes
        · exact hrest other hmem

theorem Ending.reached {fail : Option String} (h : Ending fields visits fail) :
    visits.map Visit.field <+: fields := by
  cases h with
  | complete hfields _ => exact hfields ▸ List.prefix_refl _
  | stopped before last reason hreached _ _ => exact hreached

/-- A walk accepts when it visited every field and none stopped it. -/
theorem Ending.fail_eq_none_iff {fail : Option String} (h : Ending fields visits fail) :
    fail = none ↔ visits.map Visit.field = fields ∧ ∀ visit ∈ visits, visit.stops = false := by
  cases h with
  | complete hfields hgoes => exact iff_of_true rfl ⟨hfields, hgoes⟩
  | stopped before last reason _ _ hverdict =>
      refine iff_of_false (by simp) ?_
      rintro ⟨-, hgoes⟩
      have hlast := hgoes last (by simp)
      rw [Visit.stops_of_verdict hverdict] at hlast
      cases hlast

/-- Where a walk that refuses stopped. -/
theorem Ending.eq_some {reason : String} (h : Ending fields visits (some reason)) :
    ∃ before last, visits = before ++ [last] ∧ (∀ visit ∈ before, visit.stops = false) ∧
      last.verdict = .refused reason false := by
  cases h with
  | stopped before last _ _ hgoes hverdict => exact ⟨before, last, rfl, hgoes, hverdict⟩

/-- The cursors at which values were taken follow one another without a gap. -/
theorem map_cursor_filter_takes (h : ∀ before visit after, visits = before ++ visit :: after →
      visit.cursor = cursor + before.countP Visit.takes) :
    (visits.filter Visit.takes).map Visit.cursor =
      List.range' cursor (visits.countP Visit.takes) := by
  induction visits generalizing cursor with
  | nil => rfl
  | cons first visits ih =>
      -- Behind the first visit the cursors are counted from where it left off.
      have hfirst : first.cursor = cursor := h [] first visits rfl
      have hrest : ∀ before visit after, visits = before ++ visit :: after →
          visit.cursor =
            cursor + (if first.takes then 1 else 0) + before.countP Visit.takes := by
        intro before visit after heq
        rw [h (first :: before) visit after (by rw [heq, List.cons_append]), List.countP_cons]
        omega
      have htail := ih hrest
      cases htakes : first.takes with
      | true =>
          rw [htakes, if_pos rfl] at htail
          rw [List.filter_cons_of_pos htakes, List.countP_cons_of_pos htakes, List.map_cons,
            htail, hfirst, List.range'_succ]
      | false =>
          have hneg : ¬ first.takes = true := by rw [htakes]; exact Bool.false_ne_true
          rw [htakes, if_neg Bool.false_ne_true, Nat.add_zero] at htail
          rw [List.filter_cons_of_neg hneg, List.countP_cons_of_neg hneg, htail]

theorem type_eq_of_typeText {field : Field} {text : String} (h : field.typeText = .ok text) :
    field.type = .str text := by
  unfold Field.typeText at h
  split at h
  · rename_i heq
    cases h
    exact heq
  · obtain ⟨name, -, h⟩ := bind_eq_ok_iff.mp h
    cases h

variable [Host]

/-- The invariant of a walk that began at a cursor. -/
structure Walked (registry : Registry) (view : CallView) (cursor : Nat) (fields : List Field)
    (visits : List Visit) (result : Match) : Prop where
  judged : ∀ visit ∈ visits, visit.Judged registry view
  /-- The cursor moves by one for each field that takes a value. -/
  cursor_eq : ∀ before visit after, visits = before ++ visit :: after →
    visit.cursor = cursor + before.countP Visit.takes
  parsed_eq : result.parsed = (visits.filter Visit.takes).map (Visit.pair view)
  consumed_eq : result.consumed = cursor + visits.countP Visit.takes
  ending : Ending fields visits result.fail

variable {registry : Registry} {view : CallView} {result : Match}

theorem walked_done : Walked registry view cursor [] [] (Match.done cursor) where
  judged := by simp
  cursor_eq := by simp
  parsed_eq := rfl
  consumed_eq := rfl
  ending := .complete rfl (by simp)

theorem walked_refused {field : Field} {reason : String}
    (h : Visit.Judged registry view ⟨field, cursor, .refused reason false⟩) :
    Walked registry view cursor (field :: fields) [⟨field, cursor, .refused reason false⟩]
      (Match.refused reason cursor) where
  judged := by
    intro visit hmem
    rw [List.mem_singleton.mp hmem]
    exact h
  cursor_eq := by
    intro before visit after heq
    cases before with
    | nil =>
        obtain ⟨rfl, -⟩ := List.cons.inj heq
        rfl
    | cons first before =>
        obtain ⟨-, hnil⟩ := List.cons.inj heq
        simp at hnil
  parsed_eq := rfl
  consumed_eq := rfl
  ending := .stopped [] ⟨field, cursor, .refused reason false⟩ reason ⟨fields, rfl⟩ (by simp) rfl

theorem Walked.cursor_eq_cons {visit : Visit} {next : Nat} (hcursor : visit.cursor = cursor)
    (hnext : next = cursor + if visit.takes then 1 else 0)
    (h : Walked registry view next fields visits result) (before : List Visit) (other : Visit)
    (after : List Visit) (heq : visit :: visits = before ++ other :: after) :
    other.cursor = cursor + before.countP Visit.takes := by
  cases before with
  | nil =>
      obtain ⟨rfl, -⟩ := List.cons.inj heq
      exact hcursor
  | cons first before =>
      obtain ⟨rfl, hvisits⟩ := List.cons.inj heq
      rw [h.cursor_eq before other after hvisits, hnext, List.countP_cons]
      omega

/-- A field takes the value at the cursor. -/
theorem Walked.take {field : Field}
    (hjudged : Visit.Judged registry view ⟨field, cursor, .accepted⟩)
    (h : Walked registry view (cursor + 1) fields visits result) :
    Walked registry view cursor (field :: fields) (⟨field, cursor, .accepted⟩ :: visits)
      (result.take field.name (view.valueAt cursor)) where
  judged := List.forall_mem_cons.mpr ⟨hjudged, h.judged⟩
  cursor_eq := Walked.cursor_eq_cons rfl rfl h
  parsed_eq := by
    rw [List.filter_cons_of_pos rfl, List.map_cons, ← h.parsed_eq]
    rfl
  consumed_eq := by
    rw [List.countP_cons_of_pos rfl]
    have hconsumed := h.consumed_eq
    show result.consumed = _
    omega
  ending := h.ending.cons ⟨field, cursor, .accepted⟩ rfl

/-- A field is passed over, and the value at the cursor is offered to the next one. -/
theorem Walked.passOver {field : Field} {reason : String}
    (hjudged : Visit.Judged registry view ⟨field, cursor, .refused reason true⟩)
    (h : Walked registry view cursor fields visits result) :
    Walked registry view cursor (field :: fields)
      (⟨field, cursor, .refused reason true⟩ :: visits) result where
  judged := List.forall_mem_cons.mpr ⟨hjudged, h.judged⟩
  cursor_eq := Walked.cursor_eq_cons rfl rfl h
  parsed_eq := by
    rw [List.filter_cons_of_neg Bool.false_ne_true]
    exact h.parsed_eq
  consumed_eq := by
    rw [List.countP_cons_of_neg Bool.false_ne_true]
    exact h.consumed_eq
  ending := h.ending.cons ⟨field, cursor, .refused reason true⟩ rfl

/-- Every walk that ends in a match keeps the invariant. -/
theorem exists_walked (h : (walk registry view cursor fields).outcome = .ok result) :
    ∃ visits, Walked registry view cursor fields visits result := by
  -- The rest of the walk starts one further on only when the field takes the value.
  induction fields generalizing cursor result with
  | nil =>
      cases h
      exact ⟨[], walked_done⟩
  | cons field fields ih =>
      unfold walk at h
      obtain ⟨text, htext, h⟩ := Run.outcome_bind_eq_ok_iff.mp h
      obtain ⟨verdict, hverdict, h⟩ := Run.outcome_bind_eq_ok_iff.mp h
      have hjudged : Visit.Judged registry view ⟨field, cursor, verdict⟩ :=
        ⟨text, type_eq_of_typeText htext, hverdict⟩
      split at h
      · obtain ⟨rest, hrest, htake⟩ := Run.outcome_bind_eq_ok_iff.mp h
        obtain ⟨visits, hvisits⟩ := ih hrest
        cases htake
        exact ⟨_, hvisits.take hjudged⟩
      · obtain ⟨visits, hvisits⟩ := ih h
        exact ⟨_, hvisits.passOver hjudged⟩
      · cases h
        exact ⟨_, walked_refused hjudged⟩

end Schema
end CallSchema
