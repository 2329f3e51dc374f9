import CallSchema.Proofs.TypeExpr.Check

/-!
# Expressions on null

An absent argument is checked as null.  An optional expression accepts null, but it asks its inner
expression first, and a fault of that ends the check.  `AnswersNull` says without reference to the check
which expressions answer on null, and what: nothing can be walked in null, so an array answers exactly
when the matcher under the name of arrays refuses null.  A refusal is written, also where null is accepted
in the end, so it needs names that can be.
-/

namespace CallSchema
namespace TypeExpr

variable [Host]

/-- What an expression answers on null, when nothing that is asked or written on the way ends in a
fault. -/
inductive AnswersNull (registry : Registry) (argument : Value) : TypeExpr → Bool → Prop where
  | leaf {name : String} {resolution : Registry.Resolution} {answer : Bool}
      (hresolve : registry.resolve (.str name) = .ok resolution)
      (hask : (resolution.matcher.ask .null).outcome = .ok answer)
      (hwritten : answer = false → argument.Writable ∧ resolution.name.Writable) :
      AnswersNull registry argument (leaf name) answer
  | optional {inner : TypeExpr} {answer : Bool} (h : AnswersNull registry argument inner answer) :
      AnswersNull registry argument (optional inner) true
  /-- The right part is not asked about what the left part accepts. -/
  | left {left : TypeExpr} (right : TypeExpr) (leftText rightText : String)
      (h : AnswersNull registry argument left true) :
      AnswersNull registry argument (union left right leftText rightText) true
  | right {left right : TypeExpr} {answer : Bool} (leftText rightText : String)
      (hleft : AnswersNull registry argument left false)
      (hright : AnswersNull registry argument right answer) :
      AnswersNull registry argument (union left right leftText rightText) answer
  | array (member : TypeExpr) (memberText : String) {resolution : Registry.Resolution}
      (hresolve : registry.resolve (.str arrayName) = .ok resolution)
      (hask : (resolution.matcher.ask .null).outcome = .ok false)
      (hargument : argument.Writable) (hname : resolution.name.Writable) :
      AnswersNull registry argument (array member memberText) false

variable {registry : Registry} {argument : Value} {expr inner : TypeExpr} {verdict : Verdict}

/-- A refusal of null has been written. -/
theorem AnswersNull.writable_of_refused (h : AnswersNull registry argument expr false) :
    argument.Writable := by
  generalize hanswer : false = answer at h
  induction h with
  | leaf hresolve hask hwritten => exact (hwritten hanswer.symm).1
  | optional h ih => cases hanswer
  | left right leftText rightText h ih => cases hanswer
  | right leftText rightText hleft hright ihleft ihright => exact ihleft rfl
  | array member memberText hresolve hask hargument hname => exact hargument

/-- What a check of null ends in is what the expression answers. -/
theorem answersNull_of_check
    (h : (expr.check registry argument .null).outcome = .ok verdict) :
    AnswersNull registry argument expr verdict.isAccepted := by
  -- The members of an array play no part: null has no elements to check them on.
  induction expr generalizing verdict with
  | leaf name =>
      obtain ⟨resolution, answer, hresolve, hask, hverdict⟩ := outcome_checkLeaf_eq_ok_iff.mp h
      rw [isAccepted_of_leafVerdict hverdict]
      exact .leaf hresolve hask (exists_leafVerdict_iff.mp ⟨verdict, hverdict⟩)
  | optional inner ih =>
      rw [check] at h
      obtain ⟨answer, hinner, h⟩ := Run.outcome_bind_eq_ok_iff.mp h
      cases answer with
      | accepted =>
          cases h
          exact .optional (ih hinner)
      | refused reason soft =>
          cases h
          exact .optional (ih hinner)
  | union left right leftText rightText ihleft ihright =>
      rw [check] at h
      obtain ⟨first, hfirst, h⟩ := Run.outcome_bind_eq_ok_iff.mp h
      cases first with
      | accepted =>
          cases h
          exact .left right leftText rightText (ihleft hfirst)
      | refused reason soft =>
          obtain ⟨second, hsecond, h⟩ := Run.outcome_bind_eq_ok_iff.mp h
          have hright := ihright hsecond
          cases second with
          | accepted =>
              cases h
              exact .right leftText rightText (ihleft hfirst) hright
          | refused reason soft =>
              obtain ⟨argumentText, -, h⟩ := Run.outcome_bind_eq_ok_iff.mp h
              cases h
              exact .right leftText rightText (ihleft hfirst) hright
  | array member memberText ih =>
      rw [check] at h
      obtain ⟨outer, houter, h⟩ := Run.outcome_bind_eq_ok_iff.mp h
      obtain ⟨resolution, answer, hresolve, hask, hverdict⟩ := outcome_checkLeaf_eq_ok_iff.mp houter
      cases outer with
      | accepted =>
          -- Null would have to be walked.
          obtain ⟨all, hall, -⟩ := Run.outcome_bind_eq_ok_iff.mp h
          cases hall
      | refused reason soft =>
          cases h
          obtain rfl : false = answer := isAccepted_of_leafVerdict hverdict
          obtain ⟨hargument, hname⟩ := exists_leafVerdict_iff.mp ⟨_, hverdict⟩ rfl
          exact .array member memberText hresolve hask hargument hname
  | foreign held => cases h

/-- Where an expression answers on null, its check ends in that answer. -/
theorem AnswersNull.exists_verdict {answer : Bool} (h : AnswersNull registry argument expr answer) :
    ∃ verdict, (expr.check registry argument .null).outcome = .ok verdict ∧
      verdict.isAccepted = answer := by
  induction h with
  | @leaf name resolution answer hresolve hask hwritten =>
      obtain ⟨verdict, hverdict⟩ := exists_leafVerdict_iff.mpr hwritten
      exact ⟨verdict, outcome_checkLeaf_eq_ok_iff.mpr ⟨resolution, answer, hresolve, hask, hverdict⟩,
        isAccepted_of_leafVerdict hverdict⟩
  | optional h ih =>
      obtain ⟨verdict, hverdict, -⟩ := ih
      refine ⟨.accepted, Run.outcome_bind_eq_ok_iff.mpr ⟨verdict, hverdict, ?_⟩, rfl⟩
      cases verdict <;> rfl
  | left right leftText rightText h ih =>
      obtain ⟨verdict, hverdict, haccepted⟩ := ih
      cases verdict with
      | accepted =>
          exact ⟨.accepted, Run.outcome_bind_eq_ok_iff.mpr ⟨.accepted, hverdict, rfl⟩, rfl⟩
      | refused reason soft => cases haccepted
  | right leftText rightText hleft hright ihleft ihright =>
      obtain ⟨first, hfirst, hrefused⟩ := ihleft
      obtain ⟨second, hsecond, rfl⟩ := ihright
      -- The left part has refused, so the argument can be written.
      obtain ⟨argumentText, hargument⟩ := hleft.writable_of_refused
      cases first with
      | accepted => cases hrefused
      | refused reason soft =>
          cases second with
          | accepted =>
              exact ⟨.accepted, Run.outcome_bind_eq_ok_iff.mpr
                ⟨_, hfirst, Run.outcome_bind_eq_ok_iff.mpr ⟨_, hsecond, rfl⟩⟩, rfl⟩
          | refused reason soft =>
              exact ⟨_, Run.outcome_bind_eq_ok_iff.mpr
                ⟨_, hfirst, Run.outcome_bind_eq_ok_iff.mpr
                  ⟨_, hsecond, Run.outcome_bind_eq_ok_iff.mpr ⟨argumentText, hargument, rfl⟩⟩⟩, rfl⟩
  | @array member memberText resolution hresolve hask hargument hname =>
      obtain ⟨verdict, hverdict⟩ :
          ∃ verdict, leafVerdict argument resolution.name false = .ok verdict :=
        exists_leafVerdict_iff.mpr fun _ => ⟨hargument, hname⟩
      have hrefused := isAccepted_of_leafVerdict hverdict
      cases verdict with
      | accepted => cases hrefused
      | refused reason soft =>
          exact ⟨.refused reason soft, Run.outcome_bind_eq_ok_iff.mpr
            ⟨_, outcome_checkLeaf_eq_ok_iff.mpr ⟨resolution, false, hresolve, hask, hverdict⟩, rfl⟩, rfl⟩

/-- An optional expression on null either accepts it or ends in the fault of its inner expression. -/
theorem outcome_check_optional_null (registry : Registry) (argument : Value) (inner : TypeExpr) :
    ((optional inner).check registry argument .null).outcome =
      (inner.check registry argument .null).outcome.map fun _ => .accepted := by
  rw [check]
  cases h : (inner.check registry argument .null).outcome with
  | error fault =>
      rw [Run.bind_of_error h]
      rfl
  | ok verdict =>
      rw [Run.bind_of_ok h]
      cases verdict <;> rfl

/-- An optional expression accepts null exactly when its inner expression answers on it at all, and it
never refuses null. -/
theorem outcome_check_optional_null_eq_ok_iff :
    ((optional inner).check registry argument .null).outcome = .ok verdict ↔
      verdict = .accepted ∧ ∃ answer, AnswersNull registry argument inner answer := by
  rw [outcome_check_optional_null]
  constructor
  · intro h
    cases hinner : (inner.check registry argument .null).outcome with
    | error fault =>
        rw [hinner] at h
        cases h
    | ok found =>
        rw [hinner] at h
        cases h
        exact ⟨rfl, found.isAccepted, answersNull_of_check hinner⟩
  · rintro ⟨rfl, answer, hanswer⟩
    obtain ⟨found, hfound, -⟩ := hanswer.exists_verdict
    rw [hfound]
    rfl

theorem outcome_check_optional_null_eq_error_iff {fault : Fault} :
    ((optional inner).check registry argument .null).outcome = .error fault ↔
      (inner.check registry argument .null).outcome = .error fault := by
  rw [outcome_check_optional_null]
  cases (inner.check registry argument .null).outcome with
  | error other => rfl
  | ok found => exact iff_of_false nofun nofun

end TypeExpr
end CallSchema
