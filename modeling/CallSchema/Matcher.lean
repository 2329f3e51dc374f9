import CallSchema.Host
import CallSchema.Run
import CallSchema.Value.Kind

/-!
# Matchers

A matcher answers whether a value has a certain shape.  The standard matchers look at the kind of the
value only, so they always answer; all of them refuse null.  What a callable of the caller answers is
up to the host, and the answer may be an error.  Each call of a matcher is an event of the run, made
before the matcher answers.
-/

namespace CallSchema

/-- A matcher was called on a value. -/
structure MatcherCall where
  matcher : Callable
  value : Value

namespace Value

/-- Numbers, text and bytes: the values without parts. -/
def isScalar : Value → Bool
  | bool _ => true
  | int _ => true
  | float _ => true
  | complex _ _ => true
  | str _ => true
  | bytes _ _ => true
  | _ => false

end Value

/-- Whether a standard matcher accepts a value. -/
def StandardMatcher.accepts : StandardMatcher → Value → Bool
  | isArray, .seq .list _ => true
  | isArray, .seq .tuple _ => true
  | isBoolean, .bool _ => true
  | isDate, .date _ _ _ => true
  | isDate, .dateTime _ _ _ _ _ _ => true
  | isFunction, value => value.isCallable
  | isNumber, .int _ => true
  | isNumber, .float _ => true
  | isObject, .null => false
  | isObject, value => !value.isScalar && !value.isCallable
  | isPlainObject, .record _ _ => true
  | isRegexp, .pattern _ => true
  | isString, .str _ => true
  | _, _ => false

/-- The standard matchers that accept a value. -/
def StandardMatcher.accepting (value : Value) : List StandardMatcher :=
  all.filter fun matcher => matcher.accepts value

section

variable [Host]

/-- What a callable answers about a value. -/
def Callable.answer : Callable → Value → Except Fault Bool
  | supplied callee, value => (Host.answer callee value).mapError .raised
  | standard matcher, value => .ok (matcher.accepts value)
  | never, _ => .ok false

/-- Asks whatever a registry holds about a value: what cannot be called is a fault. -/
def Value.ask : Value → Value → Run MatcherCall Bool
  | callable c, value => do
      Run.emit ⟨c, value⟩
      Run.ofExcept (c.answer value)
  | other, _ => Run.fail (.notCallable other.kind)

/-- A callable is called once, and answers as it does. -/
@[simp] theorem Value.outcome_ask_callable (c : Callable) (value : Value) :
    ((callable c).ask value).outcome = c.answer value := rfl

end

end CallSchema
