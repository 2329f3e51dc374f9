import CallSchema.Matcher
import CallSchema.Value.Display

/-!
# Strategies

A strategy decides what the outcome of a call means.  It is handed every outcome, good or bad: one
strategy raises on a refusal, one logs it, recorders only keep what they are handed, and what a callable
of the caller does with an outcome is up to the host.
-/

namespace CallSchema

/-- What receives the outcomes of calls. -/
inductive Strategy where
  /-- Turns a refusal into a fault. -/
  | raise
  /-- Logs a refusal and lets the call go on. -/
  | log
  /-- Keeps outcomes, under the name of the recorder. -/
  | recorder (name : String)
  /-- A value of the caller, which should be a callable. -/
  | own (value : Value)

/-- How urgent a log message is. -/
inductive LogLevel where
  | debug
  | warning
  deriving DecidableEq, Repr

/-- The name of a level. -/
def LogLevel.name : LogLevel → String
  | debug => "DEBUG"
  | warning => "WARNING"

/-- A reason as a message shows it: a missing one is null. -/
def reasonText : Option String → String
  | some reason => reason
  | none => "None"

/-- What is logged.  The text of a message is made where the log is written, which is no part of the
call. -/
inductive LogMessage where
  /-- A value took the place of the call values. -/
  | rerun
  /-- A call was accepted, and arguments of these names were parsed. -/
  | accepted (names : List Value)
  /-- A call was refused. -/
  | refused (reason : Option String)

namespace LogMessage

/-- How urgent a message is. -/
def level : LogMessage → LogLevel
  | rerun => .debug
  | accepted _ => .debug
  | refused _ => .warning

/-- The text of a message. -/
def text : LogMessage → Except Fault String
  | rerun => .ok "arguments object matched, re-validating its fields"
  | accepted names => do return "arguments matched: " ++ (← (Value.seq .list names).quoted)
  | refused reason => .ok ("argument validation failed: " ++ reasonText reason)

end LogMessage

/-- What an outcome says: whether the call was accepted, and the reason if it was not. -/
structure Report where
  ok : Bool
  reason : Option String
  deriving DecidableEq, Repr

/-- What can happen while a guard is at work. -/
inductive Event where
  | called (call : MatcherCall)
  | logged (message : LogMessage)
  /-- A strategy was handed an outcome. -/
  | reported (strategy : Strategy) (report : Report)

/-- The strategy that a value stands for where one is expected; null stands for none. -/
def Strategy.ofValue : Value → Option Strategy
  | .null => none
  | value => some (.own value)

/-- A strategy that can be put in force, or the kind of what stands in its place and cannot be
called. -/
def Strategy.installable : Option Strategy → Except Kind Strategy
  | none => .error .null
  | some (own value) => if value.isCallable then .ok (own value) else .error value.kind
  | some strategy => .ok strategy

section

variable [Host]

/-- What a callable does with an outcome; the matchers of the library take one argument only. -/
def Callable.receive : Callable → Report → Except Fault Unit
  | supplied callee, report => (Host.receive callee report.ok report.reason).mapError .raised
  | standard matcher, _ => .error (.extraArgument matcher.name)
  | never, _ => .error (.extraArgument "_never")

/-- What a strategy does with an outcome. -/
def Strategy.act : Strategy → Report → Run Event Unit
  | raise, report =>
      if report.ok then pure () else Run.fail (.invalidArguments report.reason)
  | log, report => if report.ok then pure () else Run.emit (.logged (.refused report.reason))
  | recorder _, _ => pure ()
  | own (.callable c), report => Run.ofExcept (c.receive report)
  | own value, _ => Run.fail (.notCallable value.kind)

/-- Hands an outcome to a strategy. -/
def Strategy.receive (strategy : Strategy) (report : Report) : Run Event Unit := do
  Run.emit (.reported strategy report)
  strategy.act report

end

end CallSchema
