import CallSchema.Guard.Basic
import CallSchema.Proofs.Run

/-!
# The passes of a guard call

A guard settles a call in passes.  Each pass resolves some values against the schema; when its match
holds a value under the arguments-object name, that value is resolved in the next pass, and otherwise
the pass is the last one.  `Passes` lists the passes of a call.  A call that is settled has passes
(`exists_passes`), and a call that has passes is settled in the match of the last one
(`Passes.settle_eq_ok`).  Only that match is ever reported (`mem_reported_call_iff`).
-/

namespace CallSchema
namespace Guard

variable [Host]

/-- One resolution of a call: the values it was made on, their view, and the match. -/
structure Pass where
  values : Value
  view : CallView
  result : Match

/-- The match of a pass is that of its values. -/
structure Pass.Resolved (registry : Registry) (schema : Schema) (strict : Bool) (pass : Pass) :
    Prop where
  view_eq : CallView.ofValue pass.values = .ok pass.view
  result_eq : (schema.resolve registry pass.values strict).outcome = .ok pass.result

/-- The passes in which a call with the given values is settled. -/
inductive Passes (registry : Registry) (schema : Schema) (strict : Bool) :
    Value → List Pass → Prop where
  | last {pass : Pass} (h : pass.Resolved registry schema strict)
      (hobject : pass.result.argumentsObject? = none) :
      Passes registry schema strict pass.values [pass]
  | again {pass : Pass} {object : Value} {passes : List Pass}
      (h : pass.Resolved registry schema strict)
      (hobject : pass.result.argumentsObject? = some object)
      (hrest : Passes registry schema strict object passes) :
      Passes registry schema strict pass.values (pass :: passes)

variable {registry : Registry} {schema : Schema} {strict : Bool} {values : Value} {result : Match}

/-- What is resolved has a view. -/
theorem exists_resolved (h : (schema.resolve registry values strict).outcome = .ok result) :
    ∃ view, Pass.Resolved registry schema strict ⟨values, view, result⟩ := by
  have hresolve := h
  unfold Schema.resolve at hresolve
  split at hresolve
  · cases hresolve
  · obtain ⟨view, hview, -⟩ := Run.outcome_bind_eq_ok_iff.mp hresolve
    exact ⟨view, hview, h⟩

/-- A call is settled in passes, and the match it comes to is that of the last one. -/
theorem exists_passes (h : (settle registry schema strict values).outcome = .ok result) :
    ∃ earlier last, Passes registry schema strict values (earlier ++ [last]) ∧
      last.result = result := by
  -- Each pass is on a value nested inside the values of the pass before it.
  induction hdepth : values.depth using Nat.strongRecOn generalizing values result with
  | ind depth ih =>
      subst hdepth
      rw [settle_eq] at h
      obtain ⟨found, hfound, h⟩ := Run.outcome_bind_eq_ok_iff.mp h
      obtain ⟨view, hresolved⟩ :
          ∃ view, Pass.Resolved registry schema strict ⟨values, view, found⟩ :=
        exists_resolved hfound
      cases hobject : found.argumentsObject? with
      | none =>
          rw [hobject] at h
          cases h
          exact ⟨[], ⟨values, view, result⟩, .last hresolved hobject, rfl⟩
      | some object =>
          rw [hobject] at h
          obtain ⟨-, -, h⟩ := Run.outcome_bind_eq_ok_iff.mp h
          obtain ⟨entry, hentry, rfl⟩ := Match.mem_of_argumentsObject? hobject
          have hlt := Schema.depth_lt_of_resolve hresolved.result_eq hentry
          obtain ⟨earlier, last, hpasses, hlast⟩ := ih _ hlt h rfl
          exact ⟨⟨values, view, found⟩ :: earlier, last, .again hresolved hobject hpasses, hlast⟩

/-- Passes settle the call. -/
theorem Passes.settle_eq_ok {passes : List Pass} (h : Passes registry schema strict values passes) :
    ∃ last, passes.getLast? = some last ∧
      (settle registry schema strict values).outcome = .ok last.result := by
  induction h with
  | @last pass hresolved hobject =>
      refine ⟨pass, rfl, ?_⟩
      rw [settle_eq, Run.outcome_bind_eq_ok_iff]
      refine ⟨pass.result, hresolved.result_eq, ?_⟩
      rw [hobject]
      rfl
  | @again pass object passes hresolved hobject hrest ih =>
      obtain ⟨last, hlast, hsettle⟩ := ih
      refine ⟨last, ?_, ?_⟩
      · cases passes with
        | nil => cases hlast
        | cons next passes => rw [List.getLast?_cons_cons, hlast]
      · rw [settle_eq, Run.outcome_bind_eq_ok_iff]
        refine ⟨pass.result, hresolved.result_eq, ?_⟩
        rw [hobject]
        exact Run.outcome_bind_eq_ok_iff.mpr ⟨(), rfl, hsettle⟩

/-- A pass is determined by the values it is made on. -/
theorem Pass.Resolved.eq_of_values {pass other : Pass} (h : pass.Resolved registry schema strict)
    (hother : other.Resolved registry schema strict) (hvalues : pass.values = other.values) :
    pass = other := by
  obtain ⟨values, view, result⟩ := pass
  obtain ⟨values', view', result'⟩ := other
  replace hvalues : values = values' := hvalues
  subst hvalues
  have hview : view = view' := Except.ok.inj (h.view_eq.symm.trans hother.view_eq)
  have hresult : result = result' := Except.ok.inj (h.result_eq.symm.trans hother.result_eq)
  rw [hview, hresult]

/-- A call is settled in one way. -/
theorem Passes.unique {passes others : List Pass} (h : Passes registry schema strict values passes)
    (hothers : Passes registry schema strict values others) : passes = others := by
  induction h generalizing others with
  | @last pass hresolved hobject =>
      generalize hvalues : pass.values = values at hothers
      cases hothers with
      | last hother _ => rw [hresolved.eq_of_values hother hvalues]
      | again hother hobject' _ =>
          rw [← hresolved.eq_of_values hother hvalues, hobject] at hobject'
          cases hobject'
  | @again pass object passes hresolved hobject hrest ih =>
      generalize hvalues : pass.values = values at hothers
      cases hothers with
      | last hother hobject' =>
          rw [← hresolved.eq_of_values hother hvalues, hobject] at hobject'
          cases hobject'
      | again hother hobject' hrest' =>
          rw [← hresolved.eq_of_values hother hvalues, hobject] at hobject'
          cases hobject'
          rw [hresolved.eq_of_values hother hvalues, ih hrest']

/-! ## What is reported -/

/-- Nothing is reported while a call is settled. -/
theorem not_mem_reported_settle (strategy : Strategy) (report : Report) :
    Event.reported strategy report ∉ (settle registry schema strict values).events := by
  induction hdepth : values.depth using Nat.strongRecOn generalizing values with
  | ind depth ih =>
      subst hdepth
      have hattempt : Event.reported strategy report ∉
          (attempt registry schema strict values).events := by
        intro hmem
        obtain ⟨call, -, heq⟩ := List.mem_map.mp hmem
        cases heq
      -- What happens in the rest of the call is what happens on a less deep value.
      rw [settle_eq]
      cases hfound : (attempt registry schema strict values).outcome with
      | error fault =>
          rw [Run.bind_of_error hfound]
          exact hattempt
      | ok found =>
          rw [Run.bind_of_ok hfound]
          cases hobject : found.argumentsObject? with
          | none => simpa using hattempt
          | some object =>
              obtain ⟨entry, hentry, rfl⟩ := Match.mem_of_argumentsObject? hobject
              have hlt := Schema.depth_lt_of_resolve hfound hentry
              have hrest := ih _ hlt rfl
              show _ ∉ (attempt registry schema strict values).events ++
                .logged .rerun :: (settle registry schema strict entry.2).events
              simp [hattempt, hrest]

theorem not_mem_reported_act (strategy other : Strategy) (report report' : Report) :
    Event.reported strategy report ∉ (other.act report').events := by
  unfold Strategy.act
  split
  · split <;> simp
  · split <;> simp
  · simp
  · simp
  · simp

/-- What happens in a call that is settled: an accepted one is logged, the outcome is handed to the
guard's strategy, and the strategy acts on it. -/
theorem events_call_of_settle {guard : Guard} {active : Strategy} {schema : Value}
    (h : (settle guard.registry (Schema.ofValue schema) strict values).outcome = .ok result) :
    (guard.call active values schema strict).events =
      (settle guard.registry (Schema.ofValue schema) strict values).events ++
        ((if result.ok then [.logged (acceptedMessage result)] else []) ++
          .reported (guard.strategy active) ⟨result.ok, result.fail⟩ ::
            ((guard.strategy active).act ⟨result.ok, result.fail⟩).events) := by
  unfold call
  rw [Run.bind_of_ok h]
  refine congrArg (List.append _) ?_
  have hreceive := Run.events_bind_pure
    ((guard.strategy active).receive ⟨result.ok, result.fail⟩) fun _ => result.parsed
  cases hok : result.ok with
  | true =>
      rw [hok] at hreceive
      exact congrArg (Event.logged (acceptedMessage result) :: ·) hreceive
  | false =>
      rw [hok] at hreceive
      exact hreceive

/-- How a call that is settled ends: the strategy acts on the outcome, and what the match parsed is
answered if it lets the outcome pass. -/
theorem outcome_call_of_settle {guard : Guard} {active : Strategy} {schema : Value}
    (h : (settle guard.registry (Schema.ofValue schema) strict values).outcome = .ok result) :
    (guard.call active values schema strict).outcome =
      ((guard.strategy active).act ⟨result.ok, result.fail⟩).outcome.map fun _ => result.parsed := by
  have hreceive : ((guard.strategy active).receive ⟨result.ok, result.fail⟩ >>= fun _ =>
      pure result.parsed).outcome =
        ((guard.strategy active).act ⟨result.ok, result.fail⟩).outcome.map fun _ =>
          result.parsed := by
    rw [Run.outcome_bind]
    show (((guard.strategy active).act ⟨result.ok, result.fail⟩).outcome >>= fun _ =>
      .ok result.parsed) = _
    cases ((guard.strategy active).act ⟨result.ok, result.fail⟩).outcome <;> rfl
  unfold call
  rw [Run.bind_of_ok h]
  -- Whether or not the call is logged as accepted, the outcome is handed over next.
  cases hok : result.ok with
  | true =>
      rw [hok] at hreceive
      exact hreceive
  | false =>
      rw [hok] at hreceive
      exact hreceive

/-- A call answers when it is settled and its strategy lets the outcome pass, and answers what the match
parsed. -/
theorem outcome_call_eq_ok_iff {guard : Guard} {active : Strategy} {schema : Value}
    {parsed : List (Value × Value)} :
    (guard.call active values schema strict).outcome = .ok parsed ↔
      ∃ result,
        (settle guard.registry (Schema.ofValue schema) strict values).outcome = .ok result ∧
          ((guard.strategy active).act ⟨result.ok, result.fail⟩).outcome = .ok () ∧
          parsed = result.parsed := by
  cases hresult : (settle guard.registry (Schema.ofValue schema) strict values).outcome with
  | error fault =>
      unfold call
      rw [Run.bind_of_error hresult]
      simp
  | ok result =>
      rw [outcome_call_of_settle hresult]
      cases hact : ((guard.strategy active).act ⟨result.ok, result.fail⟩).outcome with
      | error fault => simp [Except.map, hact]
      | ok answer => simp [Except.map, hact, eq_comm]

/-- A call reports once it is settled, to the strategy of its guard, and reports what it came to. -/
theorem mem_reported_call_iff {guard : Guard} {active strategy : Strategy} {schema : Value}
    {report : Report} :
    Event.reported strategy report ∈ (guard.call active values schema strict).events ↔
      ∃ result,
        (settle guard.registry (Schema.ofValue schema) strict values).outcome = .ok result ∧
          strategy = guard.strategy active ∧ report = ⟨result.ok, result.fail⟩ := by
  have hsettle : Event.reported strategy report ∉
      (settle guard.registry (Schema.ofValue schema) strict values).events :=
    not_mem_reported_settle strategy report
  cases hresult : (settle guard.registry (Schema.ofValue schema) strict values).outcome with
  | error fault =>
      unfold call
      rw [Run.bind_of_error hresult]
      simp [hsettle]
  | ok result =>
      have hact := not_mem_reported_act strategy (guard.strategy active) report
        ⟨result.ok, result.fail⟩
      have hlogged : Event.reported strategy report ∉
          if result.ok then [.logged (acceptedMessage result)] else [] := by
        split <;> simp
      rw [events_call_of_settle hresult, List.mem_append, List.mem_append, List.mem_cons]
      constructor
      · rintro (hmem | hmem | hmem | hmem)
        · exact absurd hmem hsettle
        · exact absurd hmem hlogged
        · cases hmem
          exact ⟨result, rfl, rfl, rfl⟩
        · exact absurd hmem hact
      · rintro ⟨other, hother, hstrategy, hreport⟩
        cases hother
        exact Or.inr (Or.inr (Or.inl (by rw [hstrategy, hreport])))

end Guard
end CallSchema
