import CallSchema.Proofs.Registry.Layers
import CallSchema.Proofs.Run
import CallSchema.Registry.Session

/-!
# Growing registries in a session

A step of a session changes one builder or names one registry, or it changes nothing (`Steps`).  What it
puts there is the reserved registry or grew out of what the session holds, so whatever is reached from
the start has the reserved names (`HoldsReserved.after`).  What a step does not name it leaves alone, so
a registry answers as before whatever happens to builders and other registries (`answer_step_after`).
A builder that was driven in any way holds the registrations in the order in which they came
(`Drives.builder_after`), which is what layers of the same registrations come to
(`registrations_are_last_writer_wins`).
-/

namespace CallSchema

namespace Registry

/-- The builder that a step creates or grows. -/
def Command.grows? : Command → Option String
  | .newBuilder builder => some builder
  | .addMatcher builder _ _ => some builder
  | .addAlias builder _ _ => some builder
  | .update builder _ => some builder
  | _ => none

/-- The name that a step gives to a registry. -/
def Command.publishes? : Command → Option String
  | .build _ registry => some registry
  | .reserved registry => some registry
  | .extend _ _ registry => some registry
  | _ => none

/-- The registry that a step only looks into. -/
def Command.asks? : Command → Option String
  | .entries registry => some registry
  | .get registry _ => some registry
  | .contains registry _ => some registry
  | .size registry => some registry
  | .names registry => some registry
  | .matcher registry _ => some registry
  | .resolve registry _ => some registry
  | .check registry _ _ _ => some registry
  | _ => none

/-- The two reserved names have entries. -/
structure HasReserved (registry : Registry) : Prop where
  defaultName : registry.contains (.text defaultName) = true
  argumentsObjectName : registry.contains (.text argumentsObjectName) = true

theorem hasReserved_reserved : HasReserved reserved := ⟨by cbv, by cbv⟩

theorem hasReserved_standard : HasReserved standard := ⟨by cbv, by cbv⟩

theorem HasReserved.putAll {registry : Registry} (h : registry.HasReserved)
    (entries : List (EntryName × Entry)) : HasReserved (registry.putAll entries) := by
  have hkept : ∀ name, registry.contains name = true →
      (registry.putAll entries).contains name = true := by
    intro name hname
    rw [Table.contains_iff_mem_names] at hname ⊢
    exact Table.mem_names_putAll.mpr (Or.inr hname)
  exact ⟨hkept _ h.defaultName, hkept _ h.argumentsObjectName⟩

/-- Extending a registry sets entries. -/
theorem exists_putAll_of_extend {registry extended : Registry} {raw : Value}
    (h : registry.extend raw = .ok extended) : ∃ entries, extended = registry.putAll entries := by
  obtain ⟨layer, -, hlayer⟩ := bind_eq_ok_iff.mp h
  cases hlayer
  exact ⟨layer.entries, rfl⟩

/-- Registering under one name extends a registry, too. -/
theorem exists_putAll_of_single {registry extended : Registry} {raw : Except Fault Value}
    (h : (raw >>= fun raw => registry.extend raw) = .ok extended) :
    ∃ entries, extended = registry.putAll entries := by
  obtain ⟨layer, -, hlayer⟩ := bind_eq_ok_iff.mp h
  exact exists_putAll_of_extend hlayer

namespace Session

variable {session next : Session} {command : Command} {answer : Answer} {registry : Registry}

/-- The reserved registry, and those that grow out of a builder or a registry of the session. -/
inductive Derives (session : Session) : Registry → Prop where
  | reserved : Derives session Registry.reserved
  | builder {name : String} {base : Registry} (h : session.builders.get? name = some base)
      (entries : List (EntryName × Entry)) : Derives session (base.putAll entries)
  | registry {name : String} {base : Registry} (h : session.registries.get? name = some base)
      (entries : List (EntryName × Entry)) : Derives session (base.putAll entries)

/-- What a step leaves behind. -/
inductive Steps (session : Session) (command : Command) : Session → Prop where
  | kept : Steps session command session
  | grown {builder : String} {registry : Registry} (hgrows : command.grows? = some builder)
      (hfrom : session.Derives registry) :
      Steps session command { session with builders := session.builders.put builder registry }
  | published {name : String} {registry : Registry} (hpublishes : command.publishes? = some name)
      (hfrom : session.Derives registry) :
      Steps session command { session with registries := session.registries.put name registry }

theorem steps_of_grow {builder : String} {layer : Registry → Except Fault Registry}
    (hgrows : command.grows? = some builder)
    (hlayer : ∀ registry grown, layer registry = .ok grown →
      ∃ entries, grown = registry.putAll entries)
    (h : (Run.ofExcept (session.grow builder layer) : Run MatcherCall _).outcome =
      .ok (answer, next)) : session.Steps command next := by
  obtain ⟨registry, hregistry, h⟩ := bind_eq_ok_iff.mp h
  obtain ⟨grown, hgrown, h⟩ := bind_eq_ok_iff.mp h
  cases h
  obtain ⟨entries, rfl⟩ := hlayer registry grown hgrown
  exact .grown hgrows (.builder (Table.held_eq_ok_iff.mp hregistry) entries)

/-- A step that only looks leaves the session as it was. -/
theorem steps_of_look {α : Type} {look : Run MatcherCall α} {tell : α → Answer}
    (h : (look >>= fun a => pure (tell a, session)).outcome = .ok (answer, next)) :
    session.Steps command next := by
  obtain ⟨a, -, h⟩ := Run.outcome_bind_eq_ok_iff.mp h
  cases h
  exact .kept

theorem Steps.get?_builders {builder : String} (h : session.Steps command next)
    (hother : command.grows? ≠ some builder) :
    next.builders.get? builder = session.builders.get? builder := by
  cases h with
  | kept => rfl
  | @grown name registry hgrows _ =>
      have hne : builder ≠ name := by
        rintro rfl
        exact hother hgrows
      exact (Table.get?_put _ _ _ _).trans (if_neg hne)
  | published _ _ => rfl

theorem Steps.get?_registries {name : String} (h : session.Steps command next)
    (hother : command.publishes? ≠ some name) :
    next.registries.get? name = session.registries.get? name := by
  cases h with
  | kept => rfl
  | grown _ _ => rfl
  | @published other registry hpublishes _ =>
      have hne : name ≠ other := by
        rintro rfl
        exact hother hpublishes
      exact (Table.get?_put _ _ _ _).trans (if_neg hne)

/-- Every builder and every registry of the session has the reserved names. -/
structure HoldsReserved (session : Session) : Prop where
  builders : ∀ name registry, session.builders.get? name = some registry → registry.HasReserved
  registries : ∀ name registry, session.registries.get? name = some registry → registry.HasReserved

theorem HoldsReserved.hasReserved (h : session.HoldsReserved) (hfrom : session.Derives registry) :
    registry.HasReserved := by
  cases hfrom with
  | reserved => exact hasReserved_reserved
  | builder hbase entries => exact (h.builders _ _ hbase).putAll entries
  | registry hbase entries => exact (h.registries _ _ hbase).putAll entries

theorem HoldsReserved.step (h : session.HoldsReserved) (hstep : session.Steps command next) :
    next.HoldsReserved := by
  cases hstep with
  | kept => exact h
  | grown _ hfrom =>
      refine ⟨fun name registry hregistry => ?_, h.registries⟩
      rcases Table.eq_or_of_get?_put hregistry with rfl | hbefore
      · exact h.hasReserved hfrom
      · exact h.builders name registry hbefore
  | published _ hfrom =>
      refine ⟨h.builders, fun name registry hregistry => ?_⟩
      rcases Table.eq_or_of_get?_put hregistry with rfl | hbefore
      · exact h.hasReserved hfrom
      · exact h.registries name registry hbefore

theorem holdsReserved_start : start.HoldsReserved where
  builders _ _ h := by cases h
  registries name registry h := by
    rcases Table.eq_or_of_get?_put h with rfl | hnone
    · exact hasReserved_standard
    · cases hnone

variable [Host]

/-- The session after steps. -/
def after (session : Session) (commands : List Command) : Session :=
  commands.foldl (fun session command => (session.step command).2) session

theorem steps_of_perform (h : (session.perform command).outcome = .ok (answer, next)) :
    session.Steps command next := by
  cases command with
  | newBuilder builder =>
      cases h
      exact .grown rfl .reserved
  | addMatcher builder names matcher =>
      exact steps_of_grow rfl (fun _ _ => exists_putAll_of_single) h
  | addAlias builder names target =>
      exact steps_of_grow rfl (fun _ _ => exists_putAll_of_single) h
  | update builder raw => exact steps_of_grow rfl (fun _ _ => exists_putAll_of_extend) h
  | build builder name =>
      obtain ⟨built, hbuilt, h⟩ := Run.outcome_bind_eq_ok_iff.mp h
      cases h
      exact .published rfl (.builder (Table.held_eq_ok_iff.mp hbuilt) [])
  | reserved name =>
      cases h
      exact .published rfl .reserved
  | extend base raw name =>
      obtain ⟨extended, hextended, h⟩ := Run.outcome_bind_eq_ok_iff.mp h
      obtain ⟨registry, hregistry, hextend⟩ := bind_eq_ok_iff.mp hextended
      cases h
      obtain ⟨entries, rfl⟩ := exists_putAll_of_extend hextend
      exact .published rfl (.registry (Table.held_eq_ok_iff.mp hregistry) entries)
  | check name argument expr value =>
      obtain ⟨found, -, h⟩ := Run.outcome_bind_eq_ok_iff.mp h
      exact steps_of_look h
  | entries _ | get _ _ | contains _ _ | size _ | names _ | matcher _ _ | resolve _ _ =>
      exact steps_of_look h

theorem step_of_ok (h : (session.perform command).outcome = .ok (answer, next)) :
    session.step command = (⟨(session.perform command).events, .ok answer⟩, next) := by
  unfold step
  generalize session.perform command = run at h
  obtain ⟨events, outcome⟩ := run
  replace h : outcome = .ok (answer, next) := h
  subst h
  rfl

theorem step_of_error {fault : Fault} (h : (session.perform command).outcome = .error fault) :
    session.step command = (⟨(session.perform command).events, .error fault⟩, session) := by
  unfold step
  generalize session.perform command = run at h
  obtain ⟨events, outcome⟩ := run
  replace h : outcome = .error fault := h
  subst h
  rfl

theorem steps_step (session : Session) (command : Command) :
    session.Steps command (session.step command).2 := by
  cases h : (session.perform command).outcome with
  | error fault =>
      rw [step_of_error h]
      exact .kept
  | ok answered =>
      obtain ⟨answer, next⟩ := answered
      rw [step_of_ok h]
      exact steps_of_perform h

/-! ## What a step leaves alone -/

/-- A name keeps its registry as long as no step gives it to another one. -/
theorem get?_registries_after {name : String} {commands : List Command}
    (h : ∀ command ∈ commands, command.publishes? ≠ some name) (session : Session) :
    (session.after commands).registries.get? name = session.registries.get? name := by
  induction commands generalizing session with
  | nil => rfl
  | cons command commands ih =>
      obtain ⟨hcommand, hcommands⟩ := List.forall_mem_cons.mp h
      exact (ih hcommands _).trans ((steps_step session command).get?_registries hcommand)

/-- A step that only looks answers what it sees. -/
theorem answer_step_of_look {α : Type} {look : Run MatcherCall α} {tell : α → Answer}
    (h : session.perform command = look >>= fun a => pure (tell a, session)) :
    (session.step command).1 = look >>= fun a => pure (tell a) := by
  unfold step
  rw [h]
  obtain ⟨events, fault | a⟩ := look
  · rfl
  · rfl

theorem answer_step_eq_of_look {α : Type} {other : Session} {look look' : Run MatcherCall α}
    {tell : α → Answer} (h : session.perform command = look >>= fun a => pure (tell a, session))
    (hother : other.perform command = look' >>= fun a => pure (tell a, other))
    (heq : look = look') : (session.step command).1 = (other.step command).1 := by
  rw [answer_step_of_look h, answer_step_of_look hother, heq]

/-- The answer of a step that only looks into a registry depends on that registry alone. -/
theorem answer_step_congr {other : Session} {name : String} (hasks : command.asks? = some name)
    (h : session.registries.get? name = other.registries.get? name) :
    (session.step command).1 = (other.step command).1 := by
  have hheld : session.registries.held name = other.registries.held name := by
    rw [Table.held, h, Table.held]
  cases command with
  | check registry argument expr value =>
      cases hasks
      refine answer_step_eq_of_look (bind_assoc _ _ _).symm (bind_assoc _ _ _).symm ?_
      rw [hheld]
  | entries _ | get _ _ | contains _ _ | size _ | names _ | matcher _ _ | resolve _ _ =>
      cases hasks
      exact answer_step_eq_of_look rfl rfl (by rw [hheld])
  | _ => cases hasks

/-- A registry answers as before, whatever happens to builders and to other registries. -/
theorem answer_step_after {name : String} {commands : List Command} {look : Command}
    (hasks : look.asks? = some name)
    (h : ∀ command ∈ commands, command.publishes? ≠ some name) (session : Session) :
    ((session.after commands).step look).1 = (session.step look).1 :=
  answer_step_congr hasks (get?_registries_after h session)

/-! ## The reserved names -/

theorem HoldsReserved.after (h : session.HoldsReserved) (commands : List Command) :
    (session.after commands).HoldsReserved := by
  induction commands generalizing session with
  | nil => exact h
  | cons command commands ih => exact ih (h.step (steps_step session command))

/-! ## Builders -/

/-- Steps that register with a builder, in any way, among steps that leave it alone; and what they
register, in order. -/
inductive Drives (builder : String) : List Command → List (String × Entry) → Prop where
  | done : Drives builder [] []
  | matcher {commands : List Command} {registrations : List (String × Entry)} (names : String)
      (matcher : Value) (h : Drives builder commands registrations) :
      Drives builder (.addMatcher builder (.str names) matcher :: commands)
        ((names, Entry.ofValue matcher) :: registrations)
  | pointer {commands : List Command} {registrations : List (String × Entry)} (names : String)
      (target : Value) (h : Drives builder commands registrations) :
      Drives builder (.addAlias builder (.str names) target :: commands)
        ((names, .aliasTo target) :: registrations)
  | update {commands : List Command} {registrations : List (String × Entry)} (layer : Layer)
      (h : Drives builder commands registrations) :
      Drives builder (.update builder layer.toValue :: commands)
        (layer.registrations ++ registrations)
  | other {command : Command} {commands : List Command} {registrations : List (String × Entry)}
      (hother : command.grows? ≠ some builder) (h : Drives builder commands registrations) :
      Drives builder (command :: commands) registrations

/-- A step that grows a builder leaves it grown. -/
theorem builder_step_of_grow {builder : String} (layer : Registry → Except Fault Registry)
    {base grown : Registry}
    (hperform : session.perform command = Run.ofExcept (session.grow builder layer))
    (hbase : session.builders.get? builder = some base) (hgrown : layer base = .ok grown) :
    (session.step command).2.builders.get? builder = some grown := by
  have hgrow : session.grow builder layer =
      .ok (.builder, { session with builders := session.builders.put builder grown }) :=
    bind_eq_ok_iff.mpr
      ⟨base, Table.held_eq_ok_iff.mpr hbase, bind_eq_ok_iff.mpr ⟨grown, hgrown, rfl⟩⟩
  have houtcome := congrArg Run.outcome hperform
  rw [hgrow, Run.outcome_ofExcept] at houtcome
  rw [step_of_ok houtcome]
  exact (Table.get?_put _ _ _ _).trans (if_pos rfl)

/-- A builder that was driven holds what was registered with it, in order. -/
theorem Drives.builder_after {builder : String} {commands : List Command}
    {registrations : List (String × Entry)} {base : Registry}
    (h : Drives builder commands registrations)
    (hbase : session.builders.get? builder = some base) :
    (session.after commands).builders.get? builder =
      some (base.putAll (variantEntries registrations)) := by
  induction h generalizing session base with
  | done => exact hbase
  | matcher names matcher _ ih =>
      rw [variantEntries_cons, Table.putAll_append]
      exact ih (builder_step_of_grow (fun registry => registry.addMatcher (.str names) matcher) rfl
        hbase (addMatcher_text base names matcher))
  | pointer names target _ ih =>
      rw [variantEntries_cons, Table.putAll_append]
      exact ih (builder_step_of_grow (fun registry => registry.addAlias (.str names) target) rfl
        hbase (addAlias_text base names target))
  | update layer _ ih =>
      rw [variantEntries_append, Table.putAll_append]
      exact ih (builder_step_of_grow (fun registry => registry.extend layer.toValue) rfl
        hbase (extend_layer base layer))
  | other hother _ ih =>
      exact ih (((steps_step _ _).get?_builders hother).trans hbase)

/-- Building answers and publishes what the builder holds. -/
theorem step_build {builder : String} (h : session.builders.get? builder = some registry)
    (name : String) :
    (session.step (.build builder name)).1.outcome = .ok (.entries registry.entries) ∧
      (session.step (.build builder name)).2.registries.get? name = some registry := by
  have houtcome : (session.perform (.build builder name)).outcome =
      .ok (session.publish name registry) :=
    Run.outcome_bind_eq_ok_iff.mpr ⟨registry, Table.held_eq_ok_iff.mpr h, rfl⟩
  rw [step_of_ok houtcome]
  exact ⟨rfl, (Table.get?_put _ _ _ _).trans (if_pos rfl)⟩

end Session

/-- Registrations are last-writer-wins, in layers and in builders.  Layers whose names are texts can be
laid over any registry; each name then holds what was registered last under one of its variants, no name
is lost, and the names are listed once each and in order.  Whatever is reached in a session has the
reserved names.  A new builder that is driven in any way builds the registry that layers of the same
registrations make of the reserved one.  And a registry that has been made answers as before, whatever
steps follow, as long as its name is not given away. -/
theorem registrations_are_last_writer_wins [Host] :
    (∀ (base : Registry) (layers : List Layer), ∃ final,
      base.extendAll (layers.map Layer.toValue) = .ok final ∧
        LayeredOver base (layers.flatMap Layer.registrations) final) ∧
    (∀ (commands : List Command) (name : String) (registry : Registry),
      (Session.start.after commands).registries.get? name = some registry →
        registry.HasReserved) ∧
    (∀ (session : Session) (builder name : String) (commands : List Command) (layers : List Layer),
      Session.Drives builder commands (layers.flatMap Layer.registrations) →
        ∃ final, reserved.extendAll (layers.map Layer.toValue) = .ok final ∧
          (((session.after (.newBuilder builder :: commands)).step
            (.build builder name)).1.outcome = .ok (.entries final.entries)) ∧
          ((session.after (.newBuilder builder :: commands)).step
            (.build builder name)).2.registries.get? name = some final) ∧
    ∀ (session : Session) (commands : List Command) (name : String) (look : Command),
      look.asks? = some name → (∀ command ∈ commands, command.publishes? ≠ some name) →
        ((session.after commands).step look).1 = (session.step look).1 := by
  refine ⟨?_, ?_, ?_, ?_⟩
  · intro base layers
    exact ⟨_, extendAll_layers base layers, layeredOver_putAll base _⟩
  · intro commands name registry hregistry
    exact (Session.holdsReserved_start.after commands).registries name registry hregistry
  · intro session builder name commands layers hdrives
    have hnew : ((session.step (.newBuilder builder)).2).builders.get? builder = some reserved :=
      (Table.get?_put _ _ _ _).trans (if_pos rfl)
    exact ⟨_, extendAll_layers reserved layers,
      Session.step_build (hdrives.builder_after hnew) name⟩
  · intro session commands name look hasks hcommands
    exact Session.answer_step_after hasks hcommands session

end Registry
end CallSchema
