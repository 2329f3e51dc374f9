import CallSchema.Proofs.Run
import CallSchema.Proofs.Value.Writing
import CallSchema.TypeExpr.Check

/-!
# Where soft refusals come from

A soft refusal is what an optional expression answers to a value that its inner expression refuses.
No other expression refuses softly, and null is never refused so (`optional_of_soft`); an optional
expression refuses in no other way (`soft_of_check_optional`).
-/

namespace CallSchema
namespace TypeExpr

/-- The names that checks against an expression resolve. -/
def typeNames : TypeExpr → List String
  | leaf name => [name]
  | optional inner => inner.typeNames
  | union left right _ _ => left.typeNames ++ right.typeNames
  | array member _ => arrayName :: member.typeNames
  | foreign _ => []

/-- What a leaf makes of the answer of its matcher.  A refusal is written before it is given. -/
def leafVerdict (argument name : Value) : Bool → Except Fault Verdict
  | true => .ok .accepted
  | false => do return .refused (leafReason (← argument.shown) (← name.shown)) false

theorem isAccepted_of_leafVerdict {argument name : Value} {answer : Bool} {verdict : Verdict}
    (h : leafVerdict argument name answer = .ok verdict) : verdict.isAccepted = answer := by
  cases answer with
  | true =>
      cases h
      rfl
  | false =>
      obtain ⟨argumentText, -, h⟩ := bind_eq_ok_iff.mp h
      obtain ⟨typeText, -, h⟩ := bind_eq_ok_iff.mp h
      cases h
      rfl

/-- A leaf comes to a verdict unless it refuses and one of the two names cannot be written. -/
theorem exists_leafVerdict_iff {argument name : Value} {answer : Bool} :
    (∃ verdict, leafVerdict argument name answer = .ok verdict) ↔
      (answer = false → argument.Writable ∧ name.Writable) := by
  cases answer with
  | true => exact iff_of_true ⟨_, rfl⟩ nofun
  | false =>
      constructor
      · rintro ⟨verdict, h⟩ -
        obtain ⟨argumentText, hargument, h⟩ := bind_eq_ok_iff.mp h
        obtain ⟨typeText, htype, -⟩ := bind_eq_ok_iff.mp h
        exact ⟨⟨argumentText, hargument⟩, ⟨typeText, htype⟩⟩
      · intro h
        obtain ⟨⟨argumentText, hargument⟩, ⟨typeText, htype⟩⟩ := h rfl
        exact ⟨_, bind_eq_ok_iff.mpr ⟨argumentText, hargument, bind_eq_ok_iff.mpr ⟨typeText, htype, rfl⟩⟩⟩

variable [Host] {registry : Registry} {argument value : Value} {reason : String}

/-- A leaf asks the matcher that its name resolves to, and makes a verdict of the answer. -/
theorem checkLeaf_eq (name : String) :
    checkLeaf registry argument name value =
      Run.ofExcept (registry.resolve (.str name)) >>= fun resolution =>
        resolution.matcher.ask value >>= fun answer =>
          Run.ofExcept (leafVerdict argument resolution.name answer) := by
  unfold checkLeaf
  congr 1
  funext resolution
  congr 1
  funext answer
  cases answer with
  | true => rfl
  | false =>
      rw [leafVerdict, Run.ofExcept_bind, if_neg Bool.false_ne_true]
      congr 1
      funext argumentText
      rw [Run.ofExcept_bind]
      rfl

/-- How the check of a leaf ends, when it ends well: as the matcher that its name resolves to answers. -/
theorem outcome_checkLeaf_eq_ok_iff {name : String} {verdict : Verdict} :
    (checkLeaf registry argument name value).outcome = .ok verdict ↔
      ∃ resolution answer, registry.resolve (.str name) = .ok resolution ∧
        (resolution.matcher.ask value).outcome = .ok answer ∧
        leafVerdict argument resolution.name answer = .ok verdict := by
  rw [checkLeaf_eq, Run.outcome_bind_eq_ok_iff]
  simp only [Run.outcome_bind_eq_ok_iff, Run.outcome_ofExcept, exists_and_left]

/-- Where the matcher of a leaf answers, the check comes to what the leaf makes of that. -/
theorem outcome_checkLeaf_of_answer {name : String} {resolution : Registry.Resolution} {answer : Bool}
    (hresolve : registry.resolve (.str name) = .ok resolution)
    (hanswer : (resolution.matcher.ask value).outcome = .ok answer) :
    (checkLeaf registry argument name value).outcome = leafVerdict argument resolution.name answer := by
  rw [checkLeaf_eq, hresolve, Run.bind_of_ok (Run.outcome_ofExcept _), Run.bind_of_ok hanswer]
  rfl

/-- A leaf that refuses for an argument whose name cannot be written ends in the fault of writing it. -/
theorem outcome_checkLeaf_of_unwritten {name : String} {resolution : Registry.Resolution}
    {fault : Fault} (hargument : argument.shown = .error fault)
    (hresolve : registry.resolve (.str name) = .ok resolution)
    (hanswer : (resolution.matcher.ask value).outcome = .ok false) :
    (checkLeaf registry argument name value).outcome = .error fault := by
  rw [outcome_checkLeaf_of_answer hresolve hanswer, leafVerdict, hargument]
  rfl

/-- A leaf accepts what the matcher accepts that its name resolves to. -/
theorem checkLeaf_eq_accepted_iff {name : String} :
    (checkLeaf registry argument name value).outcome = .ok .accepted ↔
      ∃ resolution, registry.resolve (.str name) = .ok resolution ∧
        (resolution.matcher.ask value).outcome = .ok true := by
  rw [outcome_checkLeaf_eq_ok_iff]
  constructor
  · rintro ⟨resolution, answer, hresolve, hanswer, hverdict⟩
    obtain rfl : true = answer := isAccepted_of_leafVerdict hverdict
    exact ⟨resolution, hresolve, hanswer⟩
  · rintro ⟨resolution, hresolve, hanswer⟩
    exact ⟨resolution, true, hresolve, hanswer, rfl⟩

theorem writable_of_checkLeaf_refused {name : String} {soft : Bool}
    (h : (checkLeaf registry argument name value).outcome = .ok (.refused reason soft)) :
    argument.Writable := by
  obtain ⟨resolution, answer, -, -, hverdict⟩ := outcome_checkLeaf_eq_ok_iff.mp h
  obtain rfl : false = answer := isAccepted_of_leafVerdict hverdict
  exact (exists_leafVerdict_iff.mp ⟨_, hverdict⟩ rfl).1

/-- A leaf refuses hard, citing the last name of its chain of aliases. -/
theorem soft_eq_false_of_checkLeaf {name : String} {soft : Bool}
    (h : (checkLeaf registry argument name value).outcome = .ok (.refused reason soft)) :
    soft = false := by
  obtain ⟨resolution, answer, -, -, hverdict⟩ := outcome_checkLeaf_eq_ok_iff.mp h
  cases answer with
  | true => cases hverdict
  | false =>
      obtain ⟨argumentText, -, hverdict⟩ := bind_eq_ok_iff.mp hverdict
      obtain ⟨typeText, -, hverdict⟩ := bind_eq_ok_iff.mp hverdict
      cases hverdict
      rfl

/-- A refusal has been written, and the name of the argument with it. -/
theorem writable_of_refused {expr : TypeExpr} {soft : Bool}
    (h : (expr.check registry argument value).outcome = .ok (.refused reason soft)) :
    argument.Writable := by
  induction expr generalizing reason soft with
  | leaf name => exact writable_of_checkLeaf_refused h
  | optional inner ih =>
      rw [check] at h
      obtain ⟨verdict, hinner, h⟩ := Run.outcome_bind_eq_ok_iff.mp h
      cases verdict with
      | accepted => cases h
      | refused other softly => exact ih hinner
  | union left right leftText rightText ihleft ihright =>
      rw [check] at h
      obtain ⟨first, hleft, h⟩ := Run.outcome_bind_eq_ok_iff.mp h
      cases first with
      | accepted => cases h
      | refused other softly => exact ihleft hleft
  | array member memberText ih =>
      rw [check] at h
      obtain ⟨outer, houter, h⟩ := Run.outcome_bind_eq_ok_iff.mp h
      cases outer with
      | refused other softly => exact writable_of_checkLeaf_refused houter
      | accepted =>
          obtain ⟨all, -, h⟩ := Run.outcome_bind_eq_ok_iff.mp h
          cases all with
          | true => cases h
          | false =>
              obtain ⟨argumentText, hargument, -⟩ := Run.outcome_bind_eq_ok_iff.mp h
              exact ⟨argumentText, hargument⟩
  | foreign held => cases h

/-- Only an optional expression refuses softly, and it never refuses null. -/
theorem optional_of_soft {expr : TypeExpr}
    (h : (expr.check registry argument value).outcome = .ok (.refused reason true)) :
    (∃ inner, expr = optional inner) ∧ value ≠ .null := by
  cases expr with
  | leaf name =>
      rw [check] at h
      exact absurd (soft_eq_false_of_checkLeaf h) (by decide)
  | optional inner =>
      refine ⟨⟨inner, rfl⟩, ?_⟩
      rintro rfl
      rw [check] at h
      obtain ⟨verdict, -, h⟩ := Run.outcome_bind_eq_ok_iff.mp h
      cases verdict with
      | accepted => cases h
      | refused reason soft => cases h
  | union left right leftText rightText =>
      rw [check] at h
      obtain ⟨first, -, h⟩ := Run.outcome_bind_eq_ok_iff.mp h
      cases first with
      | accepted => cases h
      | refused reason soft =>
          obtain ⟨second, -, h⟩ := Run.outcome_bind_eq_ok_iff.mp h
          cases second with
          | accepted => cases h
          | refused reason soft =>
              obtain ⟨argumentText, -, h⟩ := Run.outcome_bind_eq_ok_iff.mp h
              cases h
  | array member memberText =>
      rw [check] at h
      obtain ⟨outer, houter, h⟩ := Run.outcome_bind_eq_ok_iff.mp h
      cases outer with
      | accepted =>
          obtain ⟨all, -, h⟩ := Run.outcome_bind_eq_ok_iff.mp h
          cases all with
          | true => cases h
          | false =>
              obtain ⟨argumentText, -, h⟩ := Run.outcome_bind_eq_ok_iff.mp h
              cases h
      | refused reason soft =>
          cases h
          exact absurd (soft_eq_false_of_checkLeaf houter) (by decide)
  | foreign held =>
      rw [check] at h
      cases h

/-- An optional expression refuses softly. -/
theorem soft_of_check_optional {inner : TypeExpr} {soft : Bool}
    (h : ((optional inner).check registry argument value).outcome = .ok (.refused reason soft)) :
    soft = true := by
  rw [check] at h
  obtain ⟨verdict, -, h⟩ := Run.outcome_bind_eq_ok_iff.mp h
  cases verdict with
  | accepted => cases h
  | refused other softly =>
      cases value with
      | null => cases h
      | _ =>
          cases h
          rfl

end TypeExpr
end CallSchema
