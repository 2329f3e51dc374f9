import CallSchema.Registry.Resolve
import CallSchema.TypeExpr.Basic
import CallSchema.Value.Display
import CallSchema.Value.Measure

/-!
# Checking values against type expressions

A check ends in a verdict.  The reason of a refusal cites the argument and either the last name of the
leaf's chain of aliases or the texts of the parts of a union or array.  The reason is written when the
refusal arises, also where nothing comes of it, so an argument whose name cannot be written is a fault
then.  A refusal is soft when it comes from an optional expression: the argument may then be passed
over.  An optional expression asks its inner one even about null.
-/

namespace CallSchema

/-- The outcome of checking one value against one expression. -/
inductive Verdict where
  | accepted
  | refused (reason : String) (soft : Bool)
  deriving DecidableEq, Repr

/-- Whether the value was accepted. -/
def Verdict.isAccepted : Verdict → Bool
  | accepted => true
  | refused _ _ => false

namespace TypeExpr

/-- The name of the leaf type that the value of an array expression must have. -/
def arrayName : String := "array"

/-- The refusal by a leaf. -/
def leafReason (argument typeName : String) : String :=
  "`" ++ argument ++ "` is not " ++ typeName

/-- The refusal by both sides of a union. -/
def unionReason (argument left right : String) : String :=
  "`" ++ argument ++ "` is neither a " ++ left ++ " nor " ++ right

/-- The refusal of an element of an array. -/
def elementReason (argument member : String) : String :=
  "`" ++ argument ++ "` element is falsy or not a " ++ member

/-- Checks elements in turn, up to the first refusal. -/
def allAccepted (check : Value → Run MatcherCall Verdict) : List Value → Run MatcherCall Bool
  | [] => return true
  | element :: elements => do
      match ← check element with
      | .accepted => allAccepted check elements
      | .refused _ _ => return false

/-- Checks the items of a range in turn, up to the first refusal, without listing them. -/
def allAcceptedFrom (check : Value → Run MatcherCall Verdict) (step : Int) :
    Nat → Int → Run MatcherCall Bool
  | 0, _ => return true
  | count + 1, item => do
      match ← check (.int item) with
      | .accepted => allAcceptedFrom check step count (item + step)
      | .refused _ _ => return false

/-- Checks what a walk over a value meets, up to the first refusal. -/
def eachAccepted (check : Value → Run MatcherCall Verdict) : Value → Run MatcherCall Bool
  | .range start stop step =>
      allAcceptedFrom check step (Value.rangeLength start stop step) start
  | value => do allAccepted check (← Run.ofExcept value.walked)

/-- Checking the items of a range in turn is checking the list of them. -/
theorem allAcceptedFrom_eq (check : Value → Run MatcherCall Verdict) (step : Int) (count : Nat)
    (item : Int) :
    allAcceptedFrom check step count item =
      allAccepted check ((List.range count).map fun (i : Nat) => .int (item + step * i)) := by
  induction count generalizing item with
  | zero => rfl
  | succ count ih =>
      rw [List.range_succ_eq_map, List.map_cons, List.map_map, allAcceptedFrom, allAccepted]
      congr 1
      · simp
      · funext verdict
        cases verdict with
        | accepted =>
            show allAcceptedFrom check step count (item + step) = _
            rw [ih]
            congr 2
            funext i
            show Value.int _ = Value.int _
            congr 1
            simp only [Nat.succ_eq_add_one, Int.natCast_add, Int.mul_add]
            omega
        | refused reason soft => rfl

/-- Whatever is walked, each item is checked in turn. -/
theorem eachAccepted_eq (check : Value → Run MatcherCall Verdict) (value : Value) :
    eachAccepted check value =
      Run.ofExcept value.walked >>= fun elements => allAccepted check elements := by
  unfold eachAccepted
  split
  · rw [allAcceptedFrom_eq]
    rfl
  · rfl

variable [Host]

/-- Checks a value against a named leaf type. -/
def checkLeaf (registry : Registry) (argument : Value) (name : String) (value : Value) :
    Run MatcherCall Verdict := do
  let resolution ← Run.ofExcept (registry.resolve (.str name))
  if ← resolution.matcher.ask value then
    return .accepted
  else
    let argumentText ← Run.ofExcept argument.shown
    let typeText ← Run.ofExcept resolution.name.shown
    return .refused (leafReason argumentText typeText) false

/-- Checks a value against an expression, for the argument of a name. -/
def check (registry : Registry) (argument : Value) : TypeExpr → Value → Run MatcherCall Verdict
  | leaf name, value => checkLeaf registry argument name value
  | optional inner, value => do
      match ← inner.check registry argument value with
      | .accepted => return .accepted
      | .refused reason _ =>
          match value with
          | .null => return .accepted
          | _ => return .refused reason true
  | union left right leftText rightText, value => do
      match ← left.check registry argument value with
      | .accepted => return .accepted
      | .refused _ _ =>
          match ← right.check registry argument value with
          | .accepted => return .accepted
          | .refused _ _ =>
              let argumentText ← Run.ofExcept argument.shown
              return .refused (unionReason argumentText leftText rightText) false
  | array member memberText, value => do
      match ← checkLeaf registry argument arrayName value with
      | .refused reason soft => return .refused reason soft
      | .accepted =>
          if ← eachAccepted (member.check registry argument) value then
            return .accepted
          else
            let argumentText ← Run.ofExcept argument.shown
            return .refused (elementReason argumentText memberText) false
  | foreign value, _ => Run.fail (.notAnExpression value.kind)

end TypeExpr
end CallSchema
