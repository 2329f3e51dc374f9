import CallSchema.Proofs.Guard.Steps

/-!
# Where outcomes go in a session

The strategy in force is the last one that was installed and can be called (`active_after`).  A guard of a
session comes from the standard guard, or from one that was created, by layers and pins
(`get?_guards_after_iff`); layers do not touch the pin and pins do not touch the registry, so a derived
guard depends on the layers in their order and on the last pin only (`derive_eq`).  A recorder holds the
outcomes that were handed to it since it was last cleared (`reportsOf_after`).  Together these tell where
the outcome of each guard call goes (`outcomes_are_routed`).
-/

namespace CallSchema
namespace Guard

/-! ## Deriving guards -/

/-- A way to get a guard from another one. -/
inductive Derivation where
  | extend (raw : Value)
  | pin (strategy : Option Strategy)

namespace Derivation

/-- The guard that is derived from a guard. -/
def apply (guard : Guard) : Derivation → Except Fault Guard
  | extend raw => guard.extend raw
  | pin strategy => .ok (guard.pin strategy)

/-- The raw table of matchers that is layered over the registry. -/
def layer? : Derivation → Option Value
  | extend raw => some raw
  | pin _ => none

/-- What the guard is pinned to: a strategy, or none. -/
def pin? : Derivation → Option (Option Strategy)
  | extend _ => none
  | pin strategy => some strategy

end Derivation

/-- The guard that is derived from a guard step by step. -/
def derive (guard : Guard) (derivations : List Derivation) : Except Fault Guard :=
  derivations.foldlM Derivation.apply guard

/-- What a guard is pinned to after derivations. -/
def pinAfter (guard : Guard) (derivations : List Derivation) : Option Strategy :=
  (derivations.filterMap Derivation.pin?).getLast?.getD guard.pinned

variable {guard derived : Guard} {derivations : List Derivation}

theorem derive_append_singleton (guard : Guard) (derivations : List Derivation)
    (last : Derivation) :
    guard.derive (derivations ++ [last]) =
      guard.derive derivations >>= fun derived => last.apply derived := by
  rw [derive, List.foldlM_append]
  simp [derive]

/-- A pin in front counts only where there is no other behind it. -/
theorem pinAfter_pin (guard : Guard) (strategy : Option Strategy)
    (derivations : List Derivation) :
    guard.pinAfter (.pin strategy :: derivations) = (guard.pin strategy).pinAfter derivations := by
  show (strategy :: derivations.filterMap Derivation.pin?).getLast?.getD guard.pinned = _
  rw [List.getLast?_cons]
  rfl

/-- A derived guard has the layers in their order, and the last pin. -/
theorem derive_eq (guard : Guard) (derivations : List Derivation) :
    guard.derive derivations =
      (guard.registry.extendAll (derivations.filterMap Derivation.layer?)).map fun registry =>
        ⟨registry, guard.pinAfter derivations⟩ := by
  induction derivations generalizing guard with
  | nil => rfl
  | cons first derivations ih =>
      rw [derive, List.foldlM_cons]
      cases first with
      | extend raw =>
          show guard.extend raw >>= (fun extended => extended.derive derivations) =
            (guard.registry.extend raw >>= _).map _
          rw [extend]
          cases hextended : guard.registry.extend raw with
          | error fault => rfl
          | ok extended => exact ih ⟨extended, guard.pinned⟩
      | pin strategy =>
          rw [pinAfter_pin]
          exact ih (guard.pin strategy)

/-- A layer and a pin commute. -/
theorem derive_extend_pin (guard : Guard) (raw : Value) (strategy : Option Strategy) :
    guard.derive [.extend raw, .pin strategy] = guard.derive [.pin strategy, .extend raw] := by
  rw [derive_eq, derive_eq]
  rfl

theorem pinned_of_derive (h : guard.derive derivations = .ok derived) :
    derived.pinned = guard.pinAfter derivations := by
  rw [derive_eq] at h
  cases hregistry : guard.registry.extendAll (derivations.filterMap Derivation.layer?) with
  | error fault =>
      rw [hregistry] at h
      cases h
  | ok registry =>
      rw [hregistry] at h
      cases h
      rfl

/-! ## Sessions after several steps -/

/-- The strategy in force after steps from the start: the last one installed that can be called. -/
def inForce (commands : List Command) : Strategy :=
  (commands.filterMap Command.installs?).getLast?.getD .raise

namespace Session

theorem Command.change_ne_recorder {command : Command} {recorder : String}
    (h : command ≠ .clear recorder) :
    command.change ≠ .recorder recorder := by
  cases command with
  | clear other =>
      rintro ⟨⟩
      exact h rfl
  | _ => nofun

variable [Host] {session : Session} {commands : List Command} {command : Command} {answer : Answer}
  {name recorder : String}

/-- The session after steps. -/
def after (session : Session) (commands : List Command) : Session :=
  commands.foldl (fun session command => (session.step command).2) session

/-- What steps hand to strategies, in order. -/
def reported (session : Session) : List Command → List (Strategy × Report)
  | [] => []
  | command :: commands =>
      (session.step command).1.reports ++ (session.step command).2.reported commands

@[simp] theorem after_append (session : Session) (first second : List Command) :
    session.after (first ++ second) = (session.after first).after second :=
  List.foldl_append

@[simp] theorem after_singleton (session : Session) (command : Command) :
    session.after [command] = (session.step command).2 := rfl

theorem active_after (commands : List Command) :
    (start.after commands).active = inForce commands := by
  induction commands using List.reverseRecOn with
  | nil => rfl
  | append_singleton commands command ih =>
      rw [after_append, after_singleton, active_step, ih, inForce, inForce, List.filterMap_append]
      cases hinstalls : command.installs? <;> simp [hinstalls]

/-- A recorder that is not cleared keeps what it is handed, behind what it kept before. -/
theorem reportsOf_after (h : ∀ command ∈ commands, command.change ≠ .recorder recorder)
    (session : Session) :
    (session.after commands).reportsOf recorder =
      session.reportsOf recorder ++ reportsTo recorder (session.reported commands) := by
  induction commands generalizing session with
  | nil => exact (List.append_nil _).symm
  | cons command commands ih =>
      obtain ⟨hcommand, hcommands⟩ := List.forall_mem_cons.mp h
      refine (ih hcommands _).trans ?_
      rw [reportsOf_step hcommand, reported, reportsTo_append, List.append_assoc]

/-! ## Where guards come from -/

/-- The guard of a name after steps from the start: the guard that it comes from, and how. -/
inductive Pedigree : List Command → String → Guard → List Derivation → Prop where
  | standard : Pedigree [] "have" Guard.standard []
  | create {base registry : Registry} {layers : List Value} (commands : List Command)
      (name : String) (pinned : Option Strategy) (h : base.extendAll layers = .ok registry) :
      Pedigree (commands ++ [.create name base layers pinned]) name ⟨registry, pinned⟩ []
  | extend {commands : List Command} {base : String} {guard : Guard}
      {derivations : List Derivation} {raw : Value} {name : String} {answer : Answer}
      (h : Pedigree commands base guard derivations)
      (hanswered : ((start.after commands).step (.extend base raw name)).1.outcome = .ok answer) :
      Pedigree (commands ++ [.extend base raw name]) name guard (derivations ++ [.extend raw])
  | pin {commands : List Command} {base : String} {guard : Guard}
      {derivations : List Derivation} (strategy : Option Strategy) (name : String)
      (h : Pedigree commands base guard derivations) :
      Pedigree (commands ++ [.pin base strategy name]) name guard (derivations ++ [.pin strategy])
  | kept {commands : List Command} {name : String} {guard : Guard}
      {derivations : List Derivation} {command : Command}
      (h : Pedigree commands name guard derivations) (hother : command.change ≠ .guard name) :
      Pedigree (commands ++ [command]) name guard derivations
  | failed {commands : List Command} {name : String} {guard : Guard}
      {derivations : List Derivation} {command : Command} {fault : Fault}
      (h : Pedigree commands name guard derivations)
      (hfault : ((start.after commands).step command).1.outcome = .error fault) :
      Pedigree (commands ++ [command]) name guard derivations

/-- The guard that a step makes has the name that the step gives it. -/
theorem exists_makes_of_answered (hchange : command.change = .guard name)
    (hanswered : (session.step command).1.outcome = .ok answer) :
    ∃ guard, session.Makes command guard ∧
      (session.step command).2.guards.get? name = some guard := by
  rw [outcome_step] at hanswered
  cases hperform : (session.perform command).outcome with
  | error fault =>
      rw [hperform] at hanswered
      cases hanswered
  | ok answered =>
      obtain ⟨answer, next⟩ := answered
      rw [guards_step, left_of_ok hperform]
      cases leaves_of_perform hperform with
      | @named other guard hother hmakes =>
          cases hchange.symm.trans hother
          exact ⟨guard, hmakes, (Table.get?_put _ _ _ _).trans (if_pos rfl)⟩
      | kept h => cases hchange.symm.trans h
      | installed h _ => cases hchange.symm.trans h
      | cleared h => cases hchange.symm.trans h
      | defined _ h => cases hchange.symm.trans h

theorem guards_step_of_fault {fault : Fault}
    (h : (session.step command).1.outcome = .error fault) :
    (session.step command).2.guards = session.guards := by
  rw [outcome_step] at h
  rw [guards_step]
  cases hperform : (session.perform command).outcome with
  | error other => rw [left_of_fault hperform]
  | ok answered =>
      rw [hperform] at h
      cases h

/-- A guard with a pedigree is in the session, and it is derived as the pedigree says. -/
theorem Pedigree.exists_guard {guard : Guard} {derivations : List Derivation}
    (h : Pedigree commands name guard derivations) :
    ∃ derived, guard.derive derivations = .ok derived ∧
      (start.after commands).guards.get? name = some derived := by
  induction h with
  | standard => exact ⟨Guard.standard, rfl, rfl⟩
  | @create base registry layers commands name pinned h =>
      refine ⟨_, rfl, ?_⟩
      rw [after_append, after_singleton]
      have hanswered : ((start.after commands).step (.create name base layers pinned)).1.outcome =
          .ok .nothing := by
        rw [outcome_step, perform, h]
        rfl
      obtain ⟨made, hmakes, hmade⟩ := exists_makes_of_answered rfl hanswered
      cases hmakes with
      | create hregistry =>
          obtain rfl := Except.ok.inj (h.symm.trans hregistry)
          exact hmade
  | @extend commands base guard derivations raw name answer h hanswered ih =>
      obtain ⟨derived, hderived, hbase⟩ := ih
      obtain ⟨made, hmakes, hmade⟩ := exists_makes_of_answered rfl hanswered
      cases hmakes with
      | extend hfound hextend =>
          obtain rfl := Option.some.inj (hbase.symm.trans hfound)
          refine ⟨made, ?_, ?_⟩
          · rw [derive_append_singleton, hderived]
            exact hextend
          · rw [after_append, after_singleton, hmade]
  | @pin commands base guard derivations strategy name h ih =>
      obtain ⟨derived, hderived, hbase⟩ := ih
      have hanswered : ((start.after commands).step (.pin base strategy name)).1.outcome =
          .ok .nothing := by
        rw [outcome_step, perform, Table.held_eq_ok_iff.mpr hbase]
        rfl
      obtain ⟨made, hmakes, hmade⟩ := exists_makes_of_answered rfl hanswered
      cases hmakes with
      | pin hfound =>
          obtain rfl := Option.some.inj (hbase.symm.trans hfound)
          refine ⟨derived.pin strategy, ?_, ?_⟩
          · rw [derive_append_singleton, hderived]
            rfl
          · rw [after_append, after_singleton, hmade]
  | kept h hother ih =>
      obtain ⟨derived, hderived, hbefore⟩ := ih
      refine ⟨derived, hderived, ?_⟩
      rw [after_append, after_singleton, get?_guards_step hother, hbefore]
  | failed h hfault ih =>
      obtain ⟨derived, hderived, hbefore⟩ := ih
      refine ⟨derived, hderived, ?_⟩
      rw [after_append, after_singleton, guards_step_of_fault hfault, hbefore]

/-- Every guard of the session has a pedigree. -/
theorem exists_pedigree {derived : Guard}
    (h : (start.after commands).guards.get? name = some derived) :
    ∃ guard derivations, Pedigree commands name guard derivations := by
  -- By the last step: it failed, or made the guard, or was not to change the name.
  induction commands using List.reverseRecOn generalizing name derived with
  | nil =>
      change (Table.put Table.empty "have" Guard.standard).get? name = _ at h
      rw [Table.get?_put] at h
      split at h
      · rename_i hname
        subst hname
        exact ⟨_, _, .standard⟩
      · cases h
  | append_singleton commands command ih =>
      rw [after_append, after_singleton] at h
      cases houtcome : ((start.after commands).step command).1.outcome with
      | error fault =>
          rw [guards_step_of_fault houtcome] at h
          obtain ⟨guard, derivations, hpedigree⟩ := ih h
          exact ⟨guard, derivations, hpedigree.failed houtcome⟩
      | ok answer =>
          by_cases hchange : command.change = .guard name
          · obtain ⟨made, hmakes, -⟩ := exists_makes_of_answered hchange houtcome
            cases hmakes with
            | create hregistry =>
                cases hchange
                exact ⟨_, _, .create commands name _ hregistry⟩
            | extend hfound _ =>
                cases hchange
                obtain ⟨guard, derivations, hpedigree⟩ := ih hfound
                exact ⟨guard, _, hpedigree.extend houtcome⟩
            | pin hfound =>
                cases hchange
                obtain ⟨guard, derivations, hpedigree⟩ := ih hfound
                exact ⟨guard, _, hpedigree.pin _ name⟩
          · rw [get?_guards_step hchange] at h
            obtain ⟨guard, derivations, hpedigree⟩ := ih h
            exact ⟨guard, derivations, hpedigree.kept hchange⟩

/-- The guards of a session are those that its steps derived. -/
theorem get?_guards_after_iff {derived : Guard} :
    (start.after commands).guards.get? name = some derived ↔
      ∃ guard derivations, Pedigree commands name guard derivations ∧
        guard.derive derivations = .ok derived := by
  constructor
  · intro h
    obtain ⟨guard, derivations, hpedigree⟩ := exists_pedigree h
    obtain ⟨other, hderive, hother⟩ := hpedigree.exists_guard
    obtain rfl := Option.some.inj (hother.symm.trans h)
    exact ⟨guard, derivations, hpedigree, hderive⟩
  · rintro ⟨guard, derivations, hpedigree, hderive⟩
    obtain ⟨other, hother, hheld⟩ := hpedigree.exists_guard
    obtain rfl := Except.ok.inj (hother.symm.trans hderive)
    exact hheld

/-! ## Where outcomes go -/

/-- What a recorder tells when it holds some outcomes: all of them, the reasons of the refusals among
them, and the last one. -/
structure Tells (session : Session) (recorder : String) (outcomes : List Report) : Prop where
  reports : (session.step (.reports recorder)).1.outcome = .ok (.reports outcomes)
  failures : (session.step (.failures recorder)).1.outcome =
    .ok (.reasons ((outcomes.filter fun report => !report.ok).map Report.reason))
  last : (session.step (.lastReport recorder)).1.outcome = .ok (.lastReport outcomes.getLast?)

theorem tells_reportsOf (session : Session) (recorder : String) :
    session.Tells recorder (session.reportsOf recorder) := ⟨rfl, rfl, rfl⟩

/-- Where the outcomes of a session go that has taken some steps from its start. -/
structure Routed (commands : List Command) : Prop where
  /-- The strategy in force is the last one that was installed and can be called. -/
  active_eq : (start.after commands).active = inForce commands
  /-- To install a strategy that can be called answers the one in force before. -/
  installed : ∀ strategy next, Strategy.installable strategy = .ok next →
    ((start.after commands).step (.install strategy)).1.outcome =
        .ok (.strategy (inForce commands)) ∧
      inForce (commands ++ [.install strategy]) = next
  /-- What cannot be called is not installed, and the strategy in force remains. -/
  rejected : ∀ strategy kind, Strategy.installable strategy = .error kind →
    ((start.after commands).step (.install strategy)).1.outcome =
        .error (.strategyNotCallable kind) ∧
      inForce (commands ++ [.install strategy]) = inForce commands
  /-- The guards are those that were derived, by layers and pins, from the standard one or from one that
  was created. -/
  guards : ∀ name derived, (start.after commands).guards.get? name = some derived ↔
    ∃ guard derivations, Pedigree commands name guard derivations ∧
      guard.derive derivations = .ok derived
  /-- A guard is pinned to what the last pin among its derivations says. -/
  pinned : ∀ name guard derivations derived, Pedigree commands name guard derivations →
    (start.after commands).guards.get? name = some derived →
      derived.pinned = guard.pinAfter derivations
  /-- A guard call that is matched hands over one outcome, to the strategy that its guard is pinned to or
  else to the one in force. -/
  matched : ∀ command call result, (start.after commands).guardCall? command = some call →
    call.matched = .ok result →
      ((start.after commands).step command).1.reports =
        [(call.guard.pinned.getD (inForce commands), ⟨result.ok, result.fail⟩)]
  /-- A guard call whose matching ends in a fault hands over nothing. -/
  unmatched : ∀ command call fault, (start.after commands).guardCall? command = some call →
    call.matched = .error fault →
      ((start.after commands).step command).1.outcome = .error fault ∧
        ((start.after commands).step command).1.reports = []
  /-- A strategy can be handed an outcome directly. -/
  direct : ∀ strategy report,
    ((start.after commands).step (.report (some strategy) report)).1.reports = [(strategy, report)]
  /-- No other step hands over anything. -/
  silent : ∀ command, (start.after commands).guardCall? command = none →
    (∀ strategy report, command ≠ .report (some strategy) report) →
      ((start.after commands).step command).1.reports = []
  /-- From the start, or from when it was cleared, a recorder holds what is handed to it. -/
  recorders : ∀ recorder later,
    (commands = [] ∨ ∃ earlier, commands = earlier ++ [.clear recorder]) →
      (∀ command ∈ later, command ≠ .clear recorder) →
        (start.after (commands ++ later)).Tells recorder
          (reportsTo recorder ((start.after commands).reported later))

/-- Where a recorder starts to be watched, it holds nothing. -/
theorem reportsOf_after_eq_nil
    (h : commands = [] ∨ ∃ earlier, commands = earlier ++ [.clear recorder]) :
    (start.after commands).reportsOf recorder = [] := by
  rcases h with rfl | ⟨earlier, rfl⟩
  · rfl
  · rw [after_append, after_singleton, reportsOf_step_clear]

theorem inForce_append_singleton (commands : List Command) (command : Command) :
    inForce (commands ++ [command]) = command.installs?.getD (inForce commands) := by
  rw [← active_after, after_append, after_singleton, active_step, active_after]

/-- The outcomes of a session go to the right strategies, however its steps follow one another.  A derived
guard has the layers in their order and the last pin, so layers and pins commute. -/
theorem outcomes_are_routed (commands : List Command) :
    Routed commands ∧
    (∀ (guard : Guard) (derivations : List Derivation),
      guard.derive derivations =
        (guard.registry.extendAll (derivations.filterMap Derivation.layer?)).map fun registry =>
          ⟨registry, guard.pinAfter derivations⟩) ∧
    ∀ (guard : Guard) (raw : Value) (strategy : Option Strategy),
      guard.derive [.extend raw, .pin strategy] = guard.derive [.pin strategy, .extend raw] := by
  refine ⟨?_, derive_eq, derive_extend_pin⟩
  constructor
  case active_eq => exact active_after commands
  case installed =>
    intro strategy next hnext
    rw [inForce_append_singleton, ← active_after, outcome_step, perform, installStrategy, hnext]
    refine ⟨rfl, ?_⟩
    simp [Command.installs?, Command.change, hnext, Except.toOption]
  case rejected =>
    intro strategy kind hkind
    rw [inForce_append_singleton, outcome_step, perform, installStrategy, hkind]
    refine ⟨rfl, ?_⟩
    simp [Command.installs?, Command.change, hkind, Except.toOption]
  case guards => exact fun name derived => get?_guards_after_iff
  case pinned =>
    intro name guard derivations derived hpedigree hheld
    obtain ⟨other, hderive, hother⟩ := hpedigree.exists_guard
    obtain rfl := Option.some.inj (hother.symm.trans hheld)
    exact pinned_of_derive hderive
  case matched =>
    intro command call result hcall hmatched
    rw [reports_step_of_matched hcall hmatched, active_after]
    rfl
  case unmatched => exact fun command call fault => step_of_fault
  case direct => exact reports_step_report _
  case silent => exact fun command => reports_step_of_no_call
  case recorders =>
    intro recorder later hstart hlater
    have hkept := reportsOf_after
      (fun command hmem => Command.change_ne_recorder (hlater command hmem)) (start.after commands)
    rw [reportsOf_after_eq_nil hstart, List.nil_append, ← after_append] at hkept
    rw [← hkept]
    exact tells_reportsOf _ recorder

/-- A recorder for all that is not pinned, a guard that is pinned to another one, and a guard that is
derived from it and pinned to none; what cannot be called is not installed. -/
def sampleSteps : List Command := [
  .install (some (.recorder "all")),
  .pin "have" (some (.recorder "own")) "pinned",
  .install none,
  .pin "pinned" none "loose",
  .clear "all"]

/-- A call of the guard that is pinned to none. -/
def looseCall : Command :=
  .call "loose" (.seq .list [.str "x"]) (.record .plain [(.str "a", .str "num")]) false

/-- The only pass of that call: a text is no number. -/
def loosePass : Pass :=
  ⟨.seq .list [.str "x"], ⟨[.int 0], [.str "x"]⟩, ⟨[], some "`a` is not number", 0⟩⟩

theorem pedigree_sampleSteps :
    Pedigree sampleSteps "loose" Guard.standard
      [.pin (some (.recorder "own")), .pin none] := by
  have hstart : Pedigree ([] ++ [.install (some (.recorder "all"))]) "have" Guard.standard [] :=
    .kept .standard nofun
  have hpinned : Pedigree (_ ++ [.install none]) "pinned" Guard.standard _ :=
    (hstart.pin (some (.recorder "own")) "pinned").kept nofun
  exact (hpinned.pin none "loose").kept nofun

omit [Host] in
theorem outcomes_are_routed_sampleSteps :
    letI := Host.quiet
    inForce sampleSteps = .recorder "all" ∧
    ((start.after sampleSteps).step looseCall).1.reports =
      [(.recorder "all", ⟨false, some "`a` is not number"⟩)] ∧
    (start.after (sampleSteps ++ [looseCall])).Tells "all"
      [⟨false, some "`a` is not number"⟩] := by
  let _ := Host.quiet
  obtain ⟨hrouted, hderive, -⟩ := outcomes_are_routed sampleSteps
  have hheld : (start.after sampleSteps).guards.get? "loose" = some ⟨Registry.standard, none⟩ :=
    (hrouted.guards _ _).mpr ⟨_, _, pedigree_sampleSteps, hderive _ _⟩
  have hcall : (start.after sampleSteps).guardCall? looseCall =
      some ⟨⟨Registry.standard, none⟩, .seq .list [.str "x"],
        .record .plain [(.str "a", .str "num")], false⟩ := by
    rw [looseCall, guardCall?, hheld]
    rfl
  have hpasses : Passes Registry.standard
      (Schema.ofValue (.record .plain [(.str "a", .str "num")])) false loosePass.values
      [loosePass] := .last ⟨by cbv, by cbv⟩ (by cbv)
  obtain ⟨last, hlast, hsettle⟩ := hpasses.settle_eq_ok
  cases hlast
  have hreports := hrouted.matched looseCall _ _ hcall hsettle
  have htells := hrouted.recorders "all" [looseCall] (Or.inr ⟨sampleSteps.dropLast, rfl⟩)
    (by simp [looseCall])
  rw [reported, hreports] at htells
  exact ⟨rfl, hreports, htells⟩

end Session
end Guard
end CallSchema
