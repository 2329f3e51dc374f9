import CallSchema.Fault

/-!
# Runs

A run lists what happened, in order, and ends in a result or a fault.  What happened before a fault
stays on the list.  Runs form a monad, so the engine is written as plain programs whose order of
events can be reasoned about.
-/

namespace CallSchema

/-- A finished computation: its events in order, and how it ended. -/
structure Run (ε α : Type) where
  events : List ε
  outcome : Except Fault α

namespace Run

variable {ε α β γ : Type}

/-- A run in which nothing happens. -/
protected def pure (a : α) : Run ε α := ⟨[], .ok a⟩

/-- One run after another; a fault ends both. -/
protected def bind (run : Run ε α) (next : α → Run ε β) : Run ε β :=
  match run with
  | ⟨events, .ok a⟩ => ⟨events ++ (next a).events, (next a).outcome⟩
  | ⟨events, .error fault⟩ => ⟨events, .error fault⟩

instance : Monad (Run ε) where
  pure := Run.pure
  bind := Run.bind

/-- A single event. -/
def emit (event : ε) : Run ε Unit := ⟨[event], .ok ()⟩

/-- A fault before anything happened. -/
def fail (fault : Fault) : Run ε α := ⟨[], .error fault⟩

/-- A computation without events. -/
def ofExcept (outcome : Except Fault α) : Run ε α := ⟨[], outcome⟩

/-- The same run, with its events seen as events of another type. -/
def mapEvents {δ : Type} (f : ε → δ) (run : Run ε α) : Run δ α :=
  ⟨run.events.map f, run.outcome⟩

@[ext] theorem ext {x y : Run ε α} (hevents : x.events = y.events)
    (houtcome : x.outcome = y.outcome) : x = y := by
  cases x; cases y; simp_all

@[simp] theorem events_pure (a : α) : (pure a : Run ε α).events = [] := rfl

@[simp] theorem outcome_pure (a : α) : (pure a : Run ε α).outcome = .ok a := rfl

@[simp] theorem events_emit (event : ε) : (emit event).events = [event] := rfl

@[simp] theorem outcome_emit (event : ε) : (emit event).outcome = .ok () := rfl

@[simp] theorem events_fail (fault : Fault) : (fail fault : Run ε α).events = [] := rfl

@[simp] theorem outcome_fail (fault : Fault) :
    (fail fault : Run ε α).outcome = .error fault := rfl

@[simp] theorem events_ofExcept (outcome : Except Fault α) :
    (ofExcept outcome : Run ε α).events = [] := rfl

@[simp] theorem outcome_ofExcept (outcome : Except Fault α) :
    (ofExcept outcome : Run ε α).outcome = outcome := rfl

@[simp] theorem events_mapEvents {δ : Type} (f : ε → δ) (run : Run ε α) :
    (run.mapEvents f).events = run.events.map f := rfl

@[simp] theorem outcome_mapEvents {δ : Type} (f : ε → δ) (run : Run ε α) :
    (run.mapEvents f).outcome = run.outcome := rfl

/-- After a result, the next run follows on. -/
theorem bind_of_ok {run : Run ε α} {a : α} (h : run.outcome = .ok a) (next : α → Run ε β) :
    run >>= next = ⟨run.events ++ (next a).events, (next a).outcome⟩ := by
  obtain ⟨events, outcome⟩ := run
  subst h
  rfl

/-- After a fault, nothing follows. -/
theorem bind_of_error {run : Run ε α} {fault : Fault} (h : run.outcome = .error fault)
    (next : α → Run ε β) : run >>= next = ⟨run.events, .error fault⟩ := by
  obtain ⟨events, outcome⟩ := run
  subst h
  rfl

@[simp] theorem fail_bind (fault : Fault) (next : α → Run ε β) :
    (fail fault : Run ε α) >>= next = fail fault := rfl

instance : LawfulMonad (Run ε) := LawfulMonad.mk' (Run ε)
  (by
    rintro α ⟨events, outcome | a⟩
    · rfl
    · exact Run.ext (List.append_nil events) rfl)
  (fun _ _ => rfl)
  (by
    rintro α β γ ⟨events, fault | a⟩ f g
    · rfl
    · show Run.bind (Run.bind _ f) g = Run.bind _ fun x => Run.bind (f x) g
      simp only [Run.bind]
      cases h : (f a).outcome with
      | error fault => cases hrun : f a; simp_all
      | ok b => cases hrun : f a; simp_all)

/-- A run of two parts ends well exactly when both parts do. -/
theorem outcome_bind_eq_ok_iff {run : Run ε α} {next : α → Run ε β} {b : β} :
    (run >>= next).outcome = .ok b ↔
      ∃ a, run.outcome = .ok a ∧ (next a).outcome = .ok b := by
  cases h : run.outcome with
  | error fault => simp [bind_of_error h]
  | ok a => simp [bind_of_ok h]

end Run
end CallSchema
