import CallSchema.Guard.Session
import CallSchema.Proofs.Guard.Reruns
import CallSchema.Proofs.Table

/-!
# Steps of a guard session

A step has two effects.  It changes one part of the session, which its command tells (`Command.change`,
`leaves_of_perform`), or nothing if it fails; and recorders keep what they were handed on the way
(`reportsOf_step`).  A step hands an outcome to a strategy only where it calls a guard, or where it is
told to: a guard call whose call values are matched without a fault hands over one outcome, to the
strategy of the guard (`reports_step_of_matched`), and every other step none.
-/

namespace CallSchema

/-- The outcomes that were handed to a recorder, in order. -/
def reportsTo (recorder : String) (reports : List (Strategy × Report)) : List Report :=
  reports.filterMap fun handed =>
    match handed.1 with
    | .recorder name => if name = recorder then some handed.2 else none
    | _ => none

theorem reportsTo_append (recorder : String) (first second : List (Strategy × Report)) :
    reportsTo recorder (first ++ second) =
      reportsTo recorder first ++ reportsTo recorder second :=
  List.filterMap_append

/-! ## The reports of a run -/

namespace Run

variable {α β : Type}

theorem reports_bind_of_ok {run : Run Event α} {a : α} (h : run.outcome = .ok a)
    (next : α → Run Event β) : (run >>= next).reports = run.reports ++ (next a).reports := by
  rw [bind_of_ok h]
  exact List.filterMap_append

/-- A run of two parts without reports has none. -/
theorem reports_bind_eq_nil {run : Run Event α} {next : α → Run Event β} (h : run.reports = [])
    (hnext : ∀ a, (next a).reports = []) : (run >>= next).reports = [] := by
  cases houtcome : run.outcome with
  | error fault =>
      rw [bind_of_error houtcome]
      exact h
  | ok a => rw [reports_bind_of_ok houtcome, h, hnext, List.nil_append]

/-- Nothing is reported when a result is only changed. -/
theorem reports_bind_pure (run : Run Event α) (f : α → β) :
    (run >>= fun a => pure (f a)).reports = run.reports :=
  congrArg (List.filterMap Event.report?) (events_bind_pure run f)

end Run

theorem Strategy.reports_receive [Host] (strategy : Strategy) (report : Report) :
    (strategy.receive report).reports = [(strategy, report)] := by
  have hact : (strategy.act report).reports = [] :=
    Event.filterMap_report?_eq_nil fun other report' =>
      Guard.not_mem_reported_act other strategy report' report
  rw [receive, Run.reports_bind_of_ok rfl, hact]
  rfl

namespace Guard

/-! ## Guard calls -/

/-- A call of a guard. -/
structure GuardCall where
  guard : Guard
  values : Value
  schema : Value
  strict : Bool

/-- The match that a guard call comes to, or the fault that its matching ends in. -/
def GuardCall.matched [Host] (call : GuardCall) : Except Fault Match :=
  (settle call.guard.registry (Schema.ofValue call.schema) call.strict call.values).outcome

end Guard

/-- The guard call that comes before a guarded function runs, if the arguments bind. -/
def Guarded.guardCall? (function : Guarded) (arguments : Arguments) : Option Guard.GuardCall :=
  match function.signature.bind arguments with
  | .ok bound => some ⟨function.guard, bound, function.schema, function.strict⟩
  | .error _ => none

section Functions

variable [Host] {function : Guarded} {active : Strategy} {arguments : Arguments}

theorem Guarded.validate_of_guardCall? {call : Guard.GuardCall}
    (h : function.guardCall? arguments = some call) :
    function.validate active arguments =
      call.guard.call active call.values call.schema call.strict >>= fun _ => pure () := by
  unfold guardCall? at h
  split at h
  · rename_i bound hbound
    cases h
    rw [validate, hbound]
    rfl
  · cases h

/-- Arguments that do not bind are a fault before the guard is called. -/
theorem Guarded.validate_of_no_guardCall (active : Strategy)
    (h : function.guardCall? arguments = none) :
    ∃ fault, function.validate active arguments = Run.fail fault := by
  unfold guardCall? at h
  split at h
  · cases h
  · rename_i fault hbound
    refine ⟨fault, ?_⟩
    rw [validate, hbound]
    rfl

end Functions

namespace Guard

/-! ## What a step leaves behind -/

/-- What changes in a session by a step that does not fail. -/
inductive Change where
  | nothing
  | guard (name : String)
  | strategy (strategy : Option Strategy)
  | recorder (name : String)
  | functions

/-- What a command is to change. -/
def Command.change : Command → Change
  | .create guard _ _ _ => .guard guard
  | .extend _ _ guard => .guard guard
  | .pin _ _ guard => .guard guard
  | .install strategy => .strategy strategy
  | .clear recorder => .recorder recorder
  | .define _ _ _ _ _ => .functions
  | .invoke _ _ => .functions
  | _ => .nothing

/-- The strategy that a command puts in force, if it has one that can be called. -/
def Command.installs? (command : Command) : Option Strategy :=
  match command.change with
  | .strategy strategy => (Strategy.installable strategy).toOption
  | _ => none

namespace Session

/-! ## What recorders keep -/

/-- Keeping events changes nothing but what recorders keep. -/
theorem exists_foldl_keep (events : List Event) (session : Session) :
    ∃ recorders, events.foldl keep session = { session with recorders := recorders } := by
  induction events generalizing session with
  | nil => exact ⟨session.recorders, rfl⟩
  | cons event events ih =>
      obtain ⟨kept, hkept⟩ : ∃ kept, session.keep event = { session with recorders := kept } := by
        unfold keep
        split
        · exact ⟨_, rfl⟩
        · exact ⟨session.recorders, rfl⟩
      obtain ⟨recorders, hrecorders⟩ := ih (session.keep event)
      refine ⟨recorders, ?_⟩
      rw [List.foldl_cons, hrecorders, hkept]

theorem reportsOf_keep (session : Session) (event : Event) (recorder : String) :
    (session.keep event).reportsOf recorder =
      session.reportsOf recorder ++ reportsTo recorder event.report?.toList := by
  cases event with
  | called call => exact (List.append_nil _).symm
  | logged message => exact (List.append_nil _).symm
  | reported strategy report =>
      cases strategy with
      | recorder name =>
          by_cases hname : name = recorder
          · subst hname
            simp [keep, reportsOf, reportsTo, Event.report?]
          · simp [keep, reportsOf, reportsTo, Event.report?, hname, Ne.symm hname]
      | _ => exact (List.append_nil _).symm

/-- Keeping events adds the outcomes that they hand to a recorder, in order. -/
theorem reportsOf_foldl_keep (events : List Event) (session : Session) (recorder : String) :
    (events.foldl keep session).reportsOf recorder =
      session.reportsOf recorder ++ reportsTo recorder (events.filterMap Event.report?) := by
  induction events generalizing session with
  | nil => exact (List.append_nil _).symm
  | cons event events ih =>
      rw [List.foldl_cons, ih, reportsOf_keep, List.append_assoc, ← reportsTo_append]
      cases event <;> rfl

/-! ## What a step leaves behind -/

variable {session next : Session} {command : Command} {answer : Answer}

/-- The guard call that a command makes: of a guard of the session, or of the guard of a function. -/
def guardCall? (session : Session) : Command → Option GuardCall
  | .call guard values schema strict =>
      (session.guards.get? guard).map fun found => ⟨found, values, schema, strict⟩
  | .invoke function arguments =>
      (session.functions.get? function).bind fun found => found.function.guardCall? arguments
  | _ => none

/-- The guard that a command makes. -/
inductive Makes (session : Session) : Command → Guard → Prop where
  | create {name : String} {base registry : Registry} {layers : List Value}
      {pinned : Option Strategy} (h : base.extendAll layers = .ok registry) :
      Makes session (.create name base layers pinned) ⟨registry, pinned⟩
  | extend {base name : String} {raw : Value} {found extended : Guard}
      (hbase : session.guards.get? base = some found) (h : found.extend raw = .ok extended) :
      Makes session (.extend base raw name) extended
  | pin {base name : String} {strategy : Option Strategy} {found : Guard}
      (hbase : session.guards.get? base = some found) :
      Makes session (.pin base strategy name) (found.pin strategy)

/-- What a step that does not fail leaves behind, apart from what recorders keep. -/
inductive Leaves (session : Session) (command : Command) : Session → Prop where
  | kept (h : command.change = .nothing) : Leaves session command session
  | named {name : String} {guard : Guard} (h : command.change = .guard name)
      (hmakes : session.Makes command guard) :
      Leaves session command (session.nameGuard name guard)
  | installed {strategy : Option Strategy} {next : Strategy} (h : command.change = .strategy strategy)
      (hnext : Strategy.installable strategy = .ok next) :
      Leaves session command { session with active := next }
  | cleared {recorder : String} (h : command.change = .recorder recorder) :
      Leaves session command { session with recorders := session.recorders.put recorder [] }
  | defined (functions : Table String Watched) (h : command.change = .functions) :
      Leaves session command { session with functions := functions }

/-- A step that only looks leaves the session as it was. -/
theorem leaves_of_look {α : Type} {look : Run Event α} {tell : α → Answer}
    (hchange : command.change = .nothing)
    (h : (look >>= fun a => pure (tell a, session)).outcome = .ok (answer, next)) :
    session.Leaves command next := by
  obtain ⟨a, -, h⟩ := Run.outcome_bind_eq_ok_iff.mp h
  cases h
  exact .kept hchange

variable [Host]

theorem leaves_of_perform (h : (session.perform command).outcome = .ok (answer, next)) :
    session.Leaves command next := by
  cases command with
  | create name base layers pinned =>
      obtain ⟨registry, hregistry, h⟩ := Run.outcome_bind_eq_ok_iff.mp h
      cases h
      exact .named rfl (.create hregistry)
  | extend base raw name =>
      obtain ⟨extended, hextended, h⟩ := Run.outcome_bind_eq_ok_iff.mp h
      obtain ⟨names, -, h⟩ := Run.outcome_bind_eq_ok_iff.mp h
      obtain ⟨found, hfound, hextend⟩ := bind_eq_ok_iff.mp hextended
      cases h
      exact .named rfl (.extend (Table.held_eq_ok_iff.mp hfound) hextend)
  | pin base strategy name =>
      obtain ⟨found, hfound, h⟩ := Run.outcome_bind_eq_ok_iff.mp h
      cases h
      exact .named rfl (.pin (Table.held_eq_ok_iff.mp hfound))
  | install strategy =>
      obtain ⟨⟨previous, installed⟩, hinstall, h⟩ := Run.outcome_bind_eq_ok_iff.mp h
      cases h
      rw [Run.outcome_ofExcept, installStrategy] at hinstall
      cases hnext : Strategy.installable strategy with
      | error kind =>
          rw [hnext] at hinstall
          cases hinstall
      | ok next =>
          rw [hnext] at hinstall
          cases hinstall
          exact .installed rfl hnext
  | clear recorder =>
      cases h
      exact .cleared rfl
  | define function schema signature strict guard =>
      obtain ⟨found, -, h⟩ := Run.outcome_bind_eq_ok_iff.mp h
      cases h
      exact .defined _ rfl
  | invoke function arguments =>
      obtain ⟨found, -, h⟩ := Run.outcome_bind_eq_ok_iff.mp h
      obtain ⟨-, -, h⟩ := Run.outcome_bind_eq_ok_iff.mp h
      cases h
      exact .defined _ rfl
  | names guard =>
      obtain ⟨found, -, h⟩ := Run.outcome_bind_eq_ok_iff.mp h
      exact leaves_of_look rfl h
  | call guard values schema strict =>
      obtain ⟨found, -, h⟩ := Run.outcome_bind_eq_ok_iff.mp h
      exact leaves_of_look rfl h
  | strategies _ | report _ _ | runs _ => exact leaves_of_look rfl h
  | installed | reports _ | failures _ | lastReport _ =>
      cases h
      exact .kept rfl

/-- The session that a step leaves behind, apart from what recorders keep: a step that fails leaves it as
it was. -/
def left (session : Session) (command : Command) : Session :=
  match (session.perform command).outcome with
  | .ok (_, next) => next
  | .error _ => session

theorem step_eq (session : Session) (command : Command) :
    session.step command =
      (⟨(session.perform command).events, (session.perform command).outcome.map Prod.fst⟩,
        (session.perform command).events.foldl keep (session.left command)) := by
  unfold step left
  obtain ⟨events, fault | ⟨answer, next⟩⟩ := session.perform command
  · rfl
  · rfl

theorem left_of_fault {fault : Fault} (h : (session.perform command).outcome = .error fault) :
    session.left command = session := by
  rw [left, h]

theorem left_of_ok (h : (session.perform command).outcome = .ok (answer, next)) :
    session.left command = next := by
  rw [left, h]

/-! ## The parts of a session after a step -/

theorem reports_step (session : Session) (command : Command) :
    (session.step command).1.reports = (session.perform command).reports := by
  rw [step_eq]
  rfl

theorem outcome_step (session : Session) (command : Command) :
    (session.step command).1.outcome = (session.perform command).outcome.map Prod.fst := by
  rw [step_eq]

theorem guards_step (session : Session) (command : Command) :
    (session.step command).2.guards = (session.left command).guards := by
  obtain ⟨recorders, hrecorders⟩ :=
    exists_foldl_keep (session.perform command).events (session.left command)
  rw [step_eq, hrecorders]

theorem active_step (session : Session) (command : Command) :
    (session.step command).2.active = command.installs?.getD session.active := by
  obtain ⟨recorders, hrecorders⟩ :=
    exists_foldl_keep (session.perform command).events (session.left command)
  rw [step_eq, hrecorders]
  show (session.left command).active = _
  cases hperform : (session.perform command).outcome with
  | error fault =>
      rw [left_of_fault hperform]
      cases command with
      | install strategy =>
          -- The step fails only where the strategy cannot be called.
          cases hnext : Strategy.installable strategy with
          | error kind => simp [Command.installs?, Command.change, hnext, Except.toOption]
          | ok next =>
              rw [perform, installStrategy, hnext] at hperform
              cases hperform
      | _ => rfl
  | ok answered =>
      obtain ⟨answer, next⟩ := answered
      rw [left_of_ok hperform]
      cases leaves_of_perform hperform with
      | kept h => simp [Command.installs?, h]
      | named h _ => simp [Command.installs?, h, nameGuard]
      | installed h hnext => simp [Command.installs?, h, hnext, Except.toOption]
      | cleared h => simp [Command.installs?, h]
      | defined _ h => simp [Command.installs?, h]

/-- A step that is not to change a guard leaves it as it was. -/
theorem get?_guards_step {name : String} (h : command.change ≠ .guard name) :
    (session.step command).2.guards.get? name = session.guards.get? name := by
  rw [guards_step]
  cases hperform : (session.perform command).outcome with
  | error fault => rw [left_of_fault hperform]
  | ok answered =>
      obtain ⟨answer, next⟩ := answered
      rw [left_of_ok hperform]
      cases leaves_of_perform hperform with
      | @named other guard hother _ =>
          have hne : name ≠ other := by
            rintro rfl
            exact h hother
          exact (Table.get?_put _ _ _ _).trans (if_neg hne)
      | _ => rfl

/-- A recorder keeps what it is handed in a step, behind what it kept before, unless it is cleared. -/
theorem reportsOf_step {recorder : String} (h : command.change ≠ .recorder recorder) :
    (session.step command).2.reportsOf recorder =
      session.reportsOf recorder ++ reportsTo recorder (session.step command).1.reports := by
  have hleft : (session.left command).reportsOf recorder = session.reportsOf recorder := by
    cases hperform : (session.perform command).outcome with
    | error fault => rw [left_of_fault hperform]
    | ok answered =>
        obtain ⟨answer, next⟩ := answered
        rw [left_of_ok hperform]
        cases leaves_of_perform hperform with
        | @cleared other hother =>
            have hne : recorder ≠ other := by
              rintro rfl
              exact h hother
            simp [reportsOf, hne]
        | _ => rfl
  rw [reports_step, step_eq, reportsOf_foldl_keep, hleft]
  rfl

theorem reportsOf_step_clear (session : Session) (recorder : String) :
    (session.step (.clear recorder)).2.reportsOf recorder = [] := by
  show (Table.get? (session.recorders.put recorder []) recorder).getD [] = []
  rw [Table.get?_put, if_pos rfl]
  rfl

/-! ## What a step reports -/

/-- A command that calls a guard does so in the strategy in force, and makes an answer of the parsed
arguments. -/
theorem perform_of_guardCall? {call : GuardCall} (h : session.guardCall? command = some call) :
    ∃ tell : List (Value × Value) → Answer × Session,
      session.perform command =
        call.guard.call session.active call.values call.schema call.strict >>= fun parsed =>
          pure (tell parsed) := by
  cases command with
  | call guard values schema strict =>
      obtain ⟨found, hfound, rfl⟩ := Option.map_eq_some_iff.mp h
      rw [perform, Table.held_eq_ok_iff.mpr hfound]
      exact ⟨fun parsed => (.parsed parsed, session), rfl⟩
  | invoke function arguments =>
      obtain ⟨watched, hwatched, hcall⟩ := Option.bind_eq_some_iff.mp h
      rw [perform, Table.held_eq_ok_iff.mpr hwatched]
      refine ⟨fun _ => (.arguments arguments, { session with
        functions := session.functions.put function
          { watched with runs := watched.runs + 1 } }), ?_⟩
      show watched.function.validate session.active arguments >>= _ = _
      rw [Guarded.validate_of_guardCall? hcall, bind_assoc]
      rfl
  | _ => cases h

/-- A guard call that is matched reports once. -/
theorem reports_step_of_matched {call : GuardCall} {result : Match}
    (h : session.guardCall? command = some call) (hmatched : call.matched = .ok result) :
    (session.step command).1.reports =
      [(call.guard.strategy session.active, ⟨result.ok, result.fail⟩)] := by
  obtain ⟨tell, hperform⟩ := perform_of_guardCall? h
  rw [reports_step, hperform, Run.reports_bind_pure]
  exact reports_call_of_settle session.active hmatched

/-- A guard call whose matching ends in a fault ends in it, too, and reports nothing. -/
theorem step_of_fault {call : GuardCall} {fault : Fault}
    (h : session.guardCall? command = some call) (hmatched : call.matched = .error fault) :
    (session.step command).1.outcome = .error fault ∧ (session.step command).1.reports = [] := by
  obtain ⟨tell, hperform⟩ := perform_of_guardCall? h
  obtain ⟨houtcome, hreports⟩ := call_of_settle_fault hmatched
  rw [outcome_step, reports_step, hperform, Run.reports_bind_pure, Run.bind_of_error houtcome]
  exact ⟨rfl, hreports⟩

/-- What else is done reports only what it is told to. -/
theorem reports_step_of_no_call (h : session.guardCall? command = none)
    (hreport : ∀ strategy report, command ≠ .report (some strategy) report) :
    (session.step command).1.reports = [] := by
  rw [reports_step]
  cases command with
  | call guard values schema strict =>
      have hnone : session.guards.get? guard = none := Option.map_eq_none_iff.mp h
      rw [perform, Table.held, hnone]
      rfl
  | invoke function arguments =>
      cases hfound : session.functions.get? function with
      | none =>
          rw [perform, Table.held, hfound]
          rfl
      | some watched =>
          have hcall : watched.function.guardCall? arguments = none :=
            Option.bind_eq_none_iff.mp h watched hfound
          obtain ⟨fault, hvalidate⟩ := Guarded.validate_of_no_guardCall session.active hcall
          rw [perform, Table.held, hfound]
          show (watched.function.validate session.active arguments >>= _).reports = []
          rw [hvalidate]
          rfl
  | report strategy report =>
      cases strategy with
      | none => rfl
      | some strategy => exact absurd rfl (hreport strategy report)
  | create _ _ _ _ | pin _ _ _ | install _ | strategies _ | define _ _ _ _ _ | runs _ =>
      exact Run.reports_bind_eq_nil rfl fun _ => rfl
  | extend _ _ _ | names _ =>
      exact Run.reports_bind_eq_nil rfl fun _ => Run.reports_bind_eq_nil rfl fun _ => rfl
  | installed | reports _ | failures _ | lastReport _ | clear _ => rfl

theorem reports_step_report (session : Session) (strategy : Strategy) (report : Report) :
    (session.step (.report (some strategy) report)).1.reports = [(strategy, report)] := by
  rw [reports_step]
  exact (Run.reports_bind_pure _ _).trans (strategy.reports_receive report)

end Session
end Guard
end CallSchema
