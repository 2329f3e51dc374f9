import CallSchema.Proofs.Call.Inside
import CallSchema.Proofs.Guard.PassAccount

/-!
# The re-runs of a guard call

A call is resolved anew on the value that its match holds under the arguments-object name (`Reruns`).
That value is null or stands inside the call values (`Reruns.null_or_inside`), so the re-runs end,
after as many as the call values are deep at most (`length_le_depth_of_isChain`), in one last run
(`exists_lastRun`, `LastRun.eq_iff`).  What the call comes to is what the last run comes to
(`LastRun.outcome_settle`): its match is reported, once, and a fault of any run ends the call before
anything is reported (`call_reports_last_run_once`).
-/

namespace CallSchema

open Relation (ReflTransGen)

/-- What a strategy was handed, and which one it was. -/
def Event.report? : Event → Option (Strategy × Report)
  | .reported strategy report => some (strategy, report)
  | _ => none

/-- The reports of a run, in order. -/
def Run.reports {α : Type} (run : Run Event α) : List (Strategy × Report) :=
  run.events.filterMap Event.report?

theorem Event.report?_eq_some_iff {event : Event} {strategy : Strategy} {report : Report} :
    event.report? = some (strategy, report) ↔ event = .reported strategy report := by
  cases event <;> simp [report?]

/-- A list of events in which no strategy is handed anything has no reports. -/
theorem Event.filterMap_report?_eq_nil {events : List Event}
    (h : ∀ strategy report, Event.reported strategy report ∉ events) :
    events.filterMap Event.report? = [] := by
  rw [List.filterMap_eq_nil_iff]
  intro event hmem
  cases hreport : event.report? with
  | none => rfl
  | some reported =>
      rw [Event.report?_eq_some_iff] at hreport
      exact absurd (hreport ▸ hmem) (h reported.1 reported.2)

namespace Guard

variable [Host]

/-- Call values are resolved anew on a value: their match holds it under the arguments-object name. -/
def Reruns (registry : Registry) (schema : Schema) (strict : Bool) (values object : Value) : Prop :=
  ∃ result, (schema.resolve registry values strict).outcome = .ok result ∧
    result.argumentsObject? = some object

/-- The values of the last run of a call: they are reached by re-runs, and not resolved anew. -/
structure LastRun (registry : Registry) (schema : Schema) (strict : Bool) (values last : Value) :
    Prop where
  reached : ReflTransGen (Reruns registry schema strict) values last
  no_rerun : ∀ object, ¬ Reruns registry schema strict last object

variable {registry : Registry} {schema : Schema} {strict : Bool} {values object last : Value}

/-! ## Re-runs end -/

theorem rightUnique_reruns (registry : Registry) (schema : Schema) (strict : Bool) :
    Relator.RightUnique (Reruns registry schema strict) := by
  intro values object other h hother
  obtain ⟨result, hresult, hobject⟩ := h
  obtain ⟨result', hresult', hobject'⟩ := hother
  obtain rfl : result = result' := Except.ok.inj (hresult.symm.trans hresult')
  exact Option.some.inj (hobject.symm.trans hobject')

/-- A re-run is on null or on a value that stands inside the call values. -/
theorem Reruns.null_or_inside (h : Reruns registry schema strict values object) :
    object = .null ∨ object.Inside values := by
  obtain ⟨result, hresult, hobject⟩ := h
  obtain ⟨entry, hentry, rfl⟩ := Match.mem_of_argumentsObject? hobject
  obtain ⟨-, view, hview, hmatch⟩ := Schema.resolve_eq_ok_iff.mp hresult
  obtain ⟨index, heq⟩ := Schema.parsedFrom_of_resolveView schema hmatch entry hentry
  rw [heq]
  exact (view.valueAt_eq_null_or_mem index).imp_right (CallView.inside_of_mem_ofValue hview)

theorem Reruns.depth_lt (h : Reruns registry schema strict values object) :
    object.depth < values.depth := by
  obtain ⟨result, hresult, hobject⟩ := h
  obtain ⟨entry, hentry, rfl⟩ := Match.mem_of_argumentsObject? hobject
  exact Schema.depth_lt_of_resolve hresult hentry

/-- A call has no more re-runs than its values are deep. -/
theorem length_le_depth_of_isChain {objects : List Value}
    (h : (values :: objects).IsChain (Reruns registry schema strict)) :
    objects.length ≤ values.depth := by
  induction objects generalizing values with
  | nil => exact Nat.zero_le _
  | cons object objects ih =>
      obtain ⟨hrerun, hrest⟩ := List.isChain_cons_cons.mp h
      have hlength := ih hrest
      have hdepth := hrerun.depth_lt
      rw [List.length_cons]
      omega

theorem exists_lastRun (registry : Registry) (schema : Schema) (strict : Bool) (values : Value) :
    ∃ last, LastRun registry schema strict values last := by
  induction hdepth : values.depth using Nat.strongRecOn generalizing values with
  | ind depth ih =>
      subst hdepth
      by_cases hrerun : ∃ object, Reruns registry schema strict values object
      · obtain ⟨object, hobject⟩ := hrerun
        obtain ⟨last, hlast⟩ := ih _ hobject.depth_lt object rfl
        exact ⟨last, hlast.reached.head hobject, hlast.no_rerun⟩
      · exact ⟨values, .refl, not_exists.mp hrerun⟩

/-- What is reached on the way goes on to the last run. -/
theorem LastRun.of_reached {reached : Value} (h : LastRun registry schema strict values last)
    (hreached : ReflTransGen (Reruns registry schema strict) values reached) :
    LastRun registry schema strict reached last := by
  refine ⟨?_, h.no_rerun⟩
  rcases ReflTransGen.total_of_right_unique (rightUnique_reruns registry schema strict) hreached
    h.reached with hgoes | hback
  · exact hgoes
  · -- The last run is not left, so what it reaches is itself.
    rcases hback.cases_head with heq | ⟨object, hrerun, -⟩
    · rw [heq]
    · exact absurd hrerun (h.no_rerun object)

theorem LastRun.eq_of_not_rerun (h : LastRun registry schema strict values last)
    (hvalues : ∀ object, ¬ Reruns registry schema strict values object) : values = last := by
  rcases h.reached.cases_head with heq | ⟨object, hrerun, -⟩
  · exact heq
  · exact absurd hrerun (hvalues object)

/-- A call has one last run. -/
theorem LastRun.eq_iff (h : LastRun registry schema strict values last) (other : Value) :
    LastRun registry schema strict values other ↔ other = last := by
  constructor
  · intro hother
    exact (h.of_reached hother.reached).eq_of_not_rerun hother.no_rerun
  · rintro rfl
    exact h

/-- A run that ends in a fault is the last one. -/
theorem LastRun.eq_of_fault {reached : Value} {fault : Fault}
    (h : LastRun registry schema strict values last)
    (hreached : ReflTransGen (Reruns registry schema strict) values reached)
    (hfault : (schema.resolve registry reached strict).outcome = .error fault) :
    reached = last := by
  refine (h.of_reached hreached).eq_of_not_rerun ?_
  rintro object ⟨result, hresult, -⟩
  rw [hfault] at hresult
  cases hresult

/-- The match of the last run holds nothing under the arguments-object name. -/
theorem LastRun.argumentsObject?_eq_none {result : Match}
    (h : LastRun registry schema strict values last)
    (hresult : (schema.resolve registry last strict).outcome = .ok result) :
    result.argumentsObject? = none := by
  cases hobject : result.argumentsObject? with
  | none => rfl
  | some object => exact absurd ⟨result, hresult, hobject⟩ (h.no_rerun object)

/-! ## What a call comes to -/

/-- A call that is resolved anew comes to what the re-run comes to. -/
theorem outcome_settle_of_reruns (h : Reruns registry schema strict values object) :
    (settle registry schema strict values).outcome =
      (settle registry schema strict object).outcome := by
  obtain ⟨result, hresult, hobject⟩ := h
  have hattempt : (attempt registry schema strict values).outcome = .ok result := hresult
  rw [settle_eq, Run.bind_of_ok hattempt, hobject]
  rfl

/-- A call that is not resolved anew comes to its own resolution. -/
theorem outcome_settle_of_not_reruns
    (h : ∀ object, ¬ Reruns registry schema strict values object) :
    (settle registry schema strict values).outcome =
      (schema.resolve registry values strict).outcome := by
  cases hresult : (schema.resolve registry values strict).outcome with
  | error fault =>
      have hattempt : (attempt registry schema strict values).outcome = .error fault := hresult
      rw [settle_eq, Run.bind_of_error hattempt]
  | ok result =>
      have hattempt : (attempt registry schema strict values).outcome = .ok result := hresult
      have hlast : LastRun registry schema strict values values := ⟨.refl, h⟩
      rw [settle_eq, Run.bind_of_ok hattempt, hlast.argumentsObject?_eq_none hresult]
      rfl

/-- A call comes to the resolution of its last run. -/
theorem LastRun.outcome_settle (h : LastRun registry schema strict values last) :
    (settle registry schema strict values).outcome =
      (schema.resolve registry last strict).outcome := by
  obtain ⟨hreached, hlast⟩ := h
  induction hreached using ReflTransGen.head_induction_on with
  | refl => exact outcome_settle_of_not_reruns hlast
  | head hrerun _ ih => rw [outcome_settle_of_reruns hrerun, ih]

/-! ## What a call reports -/

theorem reports_settle : (settle registry schema strict values).reports = [] :=
  Event.filterMap_report?_eq_nil not_mem_reported_settle

variable {guard : Guard} {active : Strategy} {schema : Value}

/-- A call that is not settled ends in the same fault and reports nothing. -/
theorem call_of_settle_fault {fault : Fault}
    (h : (settle guard.registry (Schema.ofValue schema) strict values).outcome = .error fault) :
    (guard.call active values schema strict).outcome = .error fault ∧
      (guard.call active values schema strict).reports = [] := by
  unfold call
  rw [Run.bind_of_error h]
  exact ⟨rfl, reports_settle⟩

/-- A call that is settled reports the match it comes to, and nothing else. -/
theorem reports_call_of_settle (active : Strategy) {result : Match}
    (h : (settle guard.registry (Schema.ofValue schema) strict values).outcome = .ok result) :
    (guard.call active values schema strict).reports =
      [(guard.strategy active, ⟨result.ok, result.fail⟩)] := by
  have hsettle : (settle guard.registry (Schema.ofValue schema) strict values).reports = [] :=
    reports_settle
  have hlogged : (if result.ok then [Event.logged (acceptedMessage result)] else []).filterMap
      Event.report? = [] := by split <;> rfl
  have hact := Event.filterMap_report?_eq_nil fun strategy report =>
    not_mem_reported_act strategy (guard.strategy active) report ⟨result.ok, result.fail⟩
  rw [Run.reports] at hsettle
  simp only [Run.reports, events_call_of_settle h, List.filterMap_append, List.filterMap_cons,
    Event.report?, hsettle, hlogged, hact, List.nil_append]

/-- A fault of any run of a call ends the call, and nothing is reported. -/
theorem call_of_reached_fault (active : Strategy) {reached : Value} {fault : Fault}
    (hreached : ReflTransGen (Reruns guard.registry (Schema.ofValue schema) strict) values reached)
    (hfault : ((Schema.ofValue schema).resolve guard.registry reached strict).outcome =
      .error fault) :
    (guard.call active values schema strict).outcome = .error fault ∧
      (guard.call active values schema strict).reports = [] := by
  obtain ⟨last, hlast⟩ := exists_lastRun guard.registry (Schema.ofValue schema) strict values
  obtain rfl : reached = last := hlast.eq_of_fault hreached hfault
  exact call_of_settle_fault (hlast.outcome_settle.trans hfault)

/-- A guard call ends and reports once.  Each run after the first is on null or on a value inside the
values before it, no chain of re-runs is longer than the call values are deep, and there is one last
run.  When that run comes to a match, the match is reported once, to the guard's strategy, and holds
nothing under the arguments-object name; whether its parsed values are answered is up to the strategy.
When any run ends in a fault, so does the call, and nothing is reported. -/
theorem call_reports_last_run_once (guard : Guard) (active : Strategy) (values schema : Value)
    (strict : Bool) :
    (∀ before object, Reruns guard.registry (Schema.ofValue schema) strict before object →
      object = .null ∨ object.Inside before) ∧
    (∀ objects, (values :: objects).IsChain (Reruns guard.registry (Schema.ofValue schema) strict) →
      objects.length ≤ values.depth) ∧
    (∃ last, (∀ other, LastRun guard.registry (Schema.ofValue schema) strict values other ↔
        other = last) ∧
      ∀ result, ((Schema.ofValue schema).resolve guard.registry last strict).outcome = .ok result →
        (guard.call active values schema strict).reports =
            [(guard.strategy active, ⟨result.ok, result.fail⟩)] ∧
          (result.ok = true ↔ result.fail = none) ∧
          (guard.call active values schema strict).outcome =
            (((guard.strategy active).act ⟨result.ok, result.fail⟩).outcome.map fun _ =>
              result.parsed) ∧
          ∀ entry ∈ result.parsed, entry.1 ≠ .str Registry.argumentsObjectName) ∧
    ∀ run fault,
      ReflTransGen (Reruns guard.registry (Schema.ofValue schema) strict) values run →
        ((Schema.ofValue schema).resolve guard.registry run strict).outcome = .error fault →
          (guard.call active values schema strict).outcome = .error fault ∧
            (guard.call active values schema strict).reports = [] := by
  refine ⟨fun _ _ => Reruns.null_or_inside, fun _ => length_le_depth_of_isChain, ?_,
    fun _ _ => call_of_reached_fault active⟩
  obtain ⟨last, hlast⟩ := exists_lastRun guard.registry (Schema.ofValue schema) strict values
  refine ⟨last, hlast.eq_iff, ?_⟩
  intro result hresult
  have hsettle := hlast.outcome_settle.trans hresult
  exact ⟨reports_call_of_settle active hsettle, Match.ok_eq_true_iff, outcome_call_of_settle hsettle,
    Match.argumentsObject?_eq_none_iff.mp (hlast.argumentsObject?_eq_none hresult)⟩

end Guard
end CallSchema
