import CallSchema.Run
import Mathlib.Data.List.Forall2

/-!
# Laws of runs

Three ways to reason about whole runs.  A run over a list ends well exactly when each of its parts does,
and then its events are those of the parts in order (`outcome_mapM_eq_ok_iff`, `events_mapM_of_ok`).
Whatever fault a run ends in is a fault of one of its parts (`FaultsIn`).  Two runs agree along a
relation when the same happens in both and they end alike (`Agree`); agreement carries over from the
parts of a program to the whole, also where the first run may break off (`AgreeUnless`).
-/

namespace CallSchema

/-- A computation of two parts comes to a result when both parts do. -/
theorem bind_eq_ok_iff {ε α β : Type} {first : Except ε α} {next : α → Except ε β} {b : β} :
    (first >>= next) = .ok b ↔ ∃ a, first = .ok a ∧ next a = .ok b := by
  cases first with
  | error fault => simp [bind, Except.bind]
  | ok a => simp [bind, Except.bind]

/-- A computation of two parts ends in a fault when one of its parts does. -/
theorem bind_eq_error_iff {ε α β : Type} {first : Except ε α} {next : α → Except ε β} {fault : ε} :
    (first >>= next) = .error fault ↔
      first = .error fault ∨ ∃ a, first = .ok a ∧ next a = .error fault := by
  cases first with
  | error other => simp [bind, Except.bind]
  | ok a => simp [bind, Except.bind]

/-- What only puts a result together is never at fault. -/
theorem eq_error_of_bind_pure {ε α β : Type} {first : Except ε α} {f : α → β} {fault : ε}
    (h : (first >>= fun a => pure (f a)) = .error fault) : first = .error fault := by
  rcases bind_eq_error_iff.mp h with hfirst | ⟨a, -, hpure⟩
  · exact hfirst
  · cases hpure

theorem map_eq_ok_iff {ε α β : Type} {f : α → β} {first : Except ε α} {b : β} :
    f <$> first = .ok b ↔ ∃ a, first = .ok a ∧ f a = b := by
  cases first with
  | error fault => simp [Functor.map, Except.map]
  | ok a => simp [Functor.map, Except.map]

namespace Run

variable {ε α β γ δ : Type}

/-- How a run of two parts ends is how the outcome of the first part goes on. -/
theorem outcome_bind (run : Run ε α) (next : α → Run ε β) :
    (run >>= next).outcome = run.outcome >>= fun a => (next a).outcome := by
  obtain ⟨events, fault | a⟩ := run
  · rfl
  · rfl

/-- A computation of two parts without events is a run of two parts. -/
theorem ofExcept_bind (first : Except Fault α) (next : α → Except Fault β) :
    (ofExcept (first >>= next) : Run ε β) = ofExcept first >>= fun a => ofExcept (next a) := by
  cases first <;> rfl

theorem ofExcept_map (f : α → β) (first : Except Fault α) :
    (ofExcept (first.map f) : Run ε β) = ofExcept first >>= fun a => pure (f a) := by
  cases first <;> rfl

/-- A run of two parts ends well when the first part does and the second part does after any result. -/
theorem exists_ok_bind {run : Run ε α} {next : α → Run ε β} (h : ∃ a, run.outcome = .ok a)
    (hnext : ∀ a, ∃ b, (next a).outcome = .ok b) : ∃ b, (run >>= next).outcome = .ok b := by
  obtain ⟨a, ha⟩ := h
  obtain ⟨b, hb⟩ := hnext a
  exact ⟨b, outcome_bind_eq_ok_iff.mpr ⟨a, ha, hb⟩⟩

/-! ## Runs over lists -/

/-- A run over a list ends well exactly when the run of each item does. -/
theorem outcome_mapM_eq_ok_iff {f : α → Run ε β} {items : List α} {results : List β} :
    (items.mapM f).outcome = .ok results ↔
      List.Forall₂ (fun item result => (f item).outcome = .ok result) items results := by
  induction items generalizing results with
  | nil =>
      rw [List.mapM_nil, outcome_pure, List.forall₂_nil_left_iff]
      constructor
      · rintro ⟨⟩
        rfl
      · rintro rfl
        rfl
  | cons item items ih =>
      rw [List.mapM_cons, List.forall₂_cons_left_iff]
      constructor
      · intro h
        obtain ⟨first, hfirst, h⟩ := outcome_bind_eq_ok_iff.mp h
        obtain ⟨others, hothers, h⟩ := outcome_bind_eq_ok_iff.mp h
        cases h
        exact ⟨first, others, hfirst, ih.mp hothers, rfl⟩
      · rintro ⟨first, others, hfirst, hothers, rfl⟩
        exact outcome_bind_eq_ok_iff.mpr
          ⟨first, hfirst, outcome_bind_eq_ok_iff.mpr ⟨others, ih.mpr hothers, rfl⟩⟩

/-- What happens in a run over a list that ends well is what happens for each item, in order. -/
theorem events_mapM_of_ok {f : α → Run ε β} {items : List α} {results : List β}
    (h : (items.mapM f).outcome = .ok results) :
    (items.mapM f).events = items.flatMap fun item => (f item).events := by
  induction items generalizing results with
  | nil => rfl
  | cons item items ih =>
      rw [List.mapM_cons] at h ⊢
      obtain ⟨first, hfirst, h⟩ := outcome_bind_eq_ok_iff.mp h
      obtain ⟨others, hothers, -⟩ := outcome_bind_eq_ok_iff.mp h
      rw [bind_of_ok hfirst, bind_of_ok hothers, List.flatMap_cons]
      simp [ih hothers]

/-- A run over a list ends well when the run of each item does. -/
theorem exists_results_of_forall_ok {f : α → Run ε β} {items : List α}
    (h : ∀ item ∈ items, ∃ result, (f item).outcome = .ok result) :
    ∃ results, List.Forall₂ (fun item result => (f item).outcome = .ok result) items results := by
  induction items with
  | nil => exact ⟨[], .nil⟩
  | cons item items ih =>
      obtain ⟨first, hfirst⟩ := h item List.mem_cons_self
      obtain ⟨others, hothers⟩ := ih fun other hmem => h other (List.mem_cons_of_mem item hmem)
      exact ⟨first :: others, .cons hfirst hothers⟩

/-- Nothing happens when a result is only changed. -/
theorem events_bind_pure (run : Run ε α) (f : α → β) :
    (run >>= fun a => pure (f a)).events = run.events := by
  obtain ⟨events, fault | a⟩ := run
  · rfl
  · exact List.append_nil events

/-! ## Faults -/

/-- If a run ends in a fault, the fault has a property. -/
def FaultsIn (P : Fault → Prop) (run : Run ε α) : Prop :=
  ∀ fault, run.outcome = .error fault → P fault

section Faults

variable {P : Fault → Prop}

theorem faultsIn_pure (a : α) : FaultsIn P (pure a : Run ε α) := nofun

theorem faultsIn_emit (event : ε) : FaultsIn P (emit event) := nofun

theorem faultsIn_fail {fault : Fault} (h : P fault) : FaultsIn P (fail fault : Run ε α) := by
  rintro _ ⟨⟩
  exact h

theorem FaultsIn.mono {Q : Fault → Prop} {run : Run ε α} (h : FaultsIn P run)
    (hle : ∀ fault, P fault → Q fault) : FaultsIn Q run :=
  fun fault hfault => hle fault (h fault hfault)

/-- A fault of a program is a fault of one of its parts. -/
theorem FaultsIn.bind {run : Run ε α} {next : α → Run ε β} (h : FaultsIn P run)
    (hnext : ∀ a, FaultsIn P (next a)) : FaultsIn P (run >>= next) := by
  intro fault hfault
  cases houtcome : run.outcome with
  | error other =>
      rw [bind_of_error houtcome] at hfault
      cases hfault
      exact h _ houtcome
  | ok a =>
      rw [bind_of_ok houtcome] at hfault
      exact hnext a fault hfault

end Faults

/-! ## Agreement -/

/-- Two outcomes agree along a relation: results that it relates, or the same fault. -/
inductive OutcomesAgree (R : α → β → Prop) : Except Fault α → Except Fault β → Prop where
  | ok {a : α} {b : β} (h : R a b) : OutcomesAgree R (.ok a) (.ok b)
  | error (fault : Fault) : OutcomesAgree R (.error fault) (.error fault)

/-- Two runs agree along a relation when the same happens in both and their outcomes agree. -/
structure Agree (R : α → β → Prop) (x : Run ε α) (y : Run ε β) : Prop where
  events : x.events = y.events
  outcomes : OutcomesAgree R x.outcome y.outcome

theorem agree_pure {R : α → β → Prop} {a : α} {b : β} (h : R a b) :
    Agree R (pure a : Run ε α) (pure b) := ⟨rfl, .ok h⟩

theorem agree_fail {R : α → β → Prop} (fault : Fault) :
    Agree R (fail fault : Run ε α) (fail fault : Run ε β) := ⟨rfl, .error fault⟩

theorem agree_refl (run : Run ε α) : Agree Eq run run := by
  obtain ⟨events, fault | a⟩ := run
  · exact ⟨rfl, .error fault⟩
  · exact ⟨rfl, .ok rfl⟩

/-- When the second of two agreeing runs ends well, so does the first, in a related result. -/
theorem Agree.exists_left {R : α → β → Prop} {x : Run ε α} {y : Run ε β} (h : Agree R x y) {b : β}
    (hb : y.outcome = .ok b) : ∃ a, x.outcome = .ok a ∧ R a b := by
  obtain ⟨events, outcome⟩ := x
  obtain ⟨events', outcome'⟩ := y
  replace hb : outcome' = .ok b := hb
  subst hb
  cases h.outcomes with
  | ok hrel => exact ⟨_, rfl, hrel⟩

/-- When the first of two agreeing runs ends well, so does the second, in a related result. -/
theorem Agree.exists_right {R : α → β → Prop} {x : Run ε α} {y : Run ε β} (h : Agree R x y) {a : α}
    (ha : x.outcome = .ok a) : ∃ b, y.outcome = .ok b ∧ R a b := by
  obtain ⟨events, outcome⟩ := x
  obtain ⟨events', outcome'⟩ := y
  replace ha : outcome = .ok a := ha
  subst ha
  cases h.outcomes with
  | ok hrel => exact ⟨_, rfl, hrel⟩

theorem agree_ofExcept {R : α → β → Prop} {x : Except Fault α} {y : Except Fault β}
    (h : OutcomesAgree R x y) : Agree R (ofExcept x : Run ε α) (ofExcept y) := ⟨rfl, h⟩

/-- Agreement carries over to the runs that follow. -/
theorem Agree.bind {R : α → β → Prop} {S : γ → δ → Prop} {x : Run ε α} {y : Run ε β}
    {f : α → Run ε γ} {g : β → Run ε δ} (h : Agree R x y) (hnext : ∀ a b, R a b → Agree S (f a) (g b)) :
    Agree S (x >>= f) (y >>= g) := by
  obtain ⟨events, outcome⟩ := x
  obtain ⟨events', outcome'⟩ := y
  obtain ⟨hevents, houtcomes⟩ := h
  replace hevents : events = events' := hevents
  subst hevents
  cases houtcomes with
  | ok hrel =>
      have hrest := hnext _ _ hrel
      exact ⟨congrArg (events ++ ·) hrest.events, hrest.outcomes⟩
  | error fault => exact ⟨rfl, .error fault⟩

/-- Two runs agree along a relation, unless the first breaks off in one of some faults.  Then nothing else
has happened in it than what happens in the second one anyway. -/
inductive AgreeUnless (P : Fault → Prop) (R : α → β → Prop) (x : Run ε α) (y : Run ε β) : Prop where
  | agree (h : Agree R x y)
  | brokenOff {fault : Fault} (hfault : P fault) (houtcome : x.outcome = .error fault)
      (hevents : x.events <+: y.events)

/-- When the first of the runs ends well, so does the second, in a related result. -/
theorem AgreeUnless.exists_right {P : Fault → Prop} {R : α → β → Prop} {x : Run ε α} {y : Run ε β}
    (h : AgreeUnless P R x y) {a : α} (ha : x.outcome = .ok a) : ∃ b, y.outcome = .ok b ∧ R a b := by
  cases h with
  | agree h => exact h.exists_right ha
  | brokenOff hfault houtcome hevents =>
      rw [ha] at houtcome
      cases houtcome

/-- When the second of the runs ends well, the first ends in a related result or broke off. -/
theorem AgreeUnless.exists_left {P : Fault → Prop} {R : α → β → Prop} {x : Run ε α} {y : Run ε β}
    (h : AgreeUnless P R x y) {b : β} (hb : y.outcome = .ok b) :
    (∃ a, x.outcome = .ok a ∧ R a b) ∨ ∃ fault, P fault ∧ x.outcome = .error fault := by
  cases h with
  | agree h => exact Or.inl (h.exists_left hb)
  | brokenOff hfault houtcome hevents => exact Or.inr ⟨_, hfault, houtcome⟩

/-- Agreement carries over to the runs that follow, and so does breaking off. -/
theorem AgreeUnless.bind {P : Fault → Prop} {R : α → β → Prop} {S : γ → δ → Prop} {x : Run ε α}
    {y : Run ε β} {f : α → Run ε γ} {g : β → Run ε δ} (h : AgreeUnless P R x y)
    (hnext : ∀ a b, R a b → AgreeUnless P S (f a) (g b)) :
    AgreeUnless P S (x >>= f) (y >>= g) := by
  obtain ⟨events, outcome⟩ := x
  obtain ⟨events', outcome'⟩ := y
  cases h with
  | agree h =>
      obtain ⟨hevents, houtcomes⟩ := h
      replace hevents : events = events' := hevents
      subst hevents
      cases houtcomes with
      | ok hrel =>
          cases hnext _ _ hrel with
          | agree hrest =>
              exact .agree ⟨congrArg (events ++ ·) hrest.events, hrest.outcomes⟩
          | brokenOff hfault houtcome hevents =>
              exact .brokenOff hfault houtcome ((List.prefix_append_right_inj events).mpr hevents)
      | error fault => exact .agree ⟨rfl, .error fault⟩
  | brokenOff hfault houtcome hevents =>
      replace houtcome : outcome = .error _ := houtcome
      subst houtcome
      refine .brokenOff hfault rfl (hevents.trans ?_)
      -- What happens in the first part of a program happens in the whole of it.
      cases outcome' with
      | ok b => exact List.prefix_append _ _
      | error fault => exact List.prefix_refl _

end Run
end CallSchema
