import CallSchema.Proofs.Guard.Admission
import CallSchema.Proofs.Guard.Passthrough
import CallSchema.Proofs.Guard.Reruns
import CallSchema.Proofs.Schema.Faults

/-!
# Which values a guard call blames for their shape

A guard call can end in the fault of values that have no call shape.  No strategy raises it, so it comes
from a run of the call (`call_eq_callShape_iff`): from the call values themselves, or from a value that
was taken for the arguments object.  The type of the arguments-object field decides which: a field that
takes a null or a text makes a call fault that was handed a list (`call_blames_null_object`), and where
such fields take nothing but calls, only the call values are blamed (`call_blames_shape_of_run`).
-/

namespace CallSchema

open Relation (ReflTransGen)

variable [Host]

/-- Whatever a field of the schema takes for the arguments object has the shape of a call. -/
def Schema.TakesCalls (registry : Registry) (schema : Schema) : Prop :=
  ∀ fields ∈ schema.leaves, ∀ field ∈ fields, field.name = .str Registry.argumentsObjectName →
    ∀ value, field.Accepts registry value → value.isCallShaped = true

/-- Fields whose type is the arguments-object name itself take nothing but calls, as long as that name
stands for records. -/
theorem Registry.KeepsObjectNames.takesCalls {registry : Registry} {schema : Schema}
    (h : registry.KeepsObjectNames) (hobject : registry.get? (.text "Object") ≠ none)
    (htype : ∀ fields ∈ schema.leaves, ∀ field ∈ fields,
      field.name = .str argumentsObjectName → field.type = .str argumentsObjectName) :
    schema.TakesCalls registry := by
  intro fields hfields field hfield hname value haccepts
  obtain ⟨text, htext, hcheck⟩ := haccepts
  obtain rfl : text = argumentsObjectName :=
    Value.str.inj (htext.symm.trans (htype fields hfields field hfield hname))
  rw [Schema.parse_argumentsObjectName] at hcheck
  rcases h.record_of_accepted hcheck with ⟨kind, entries, rfl⟩ | hnone
  · rfl
  · exact absurd hnone hobject

theorem Callable.receive_ne_callShape (c : Callable) (report : Report) (got : Kind) :
    c.receive report ≠ .error (.callShape got) := by
  intro h
  cases c with
  | supplied callee =>
      replace h : (Host.receive callee report.ok report.reason).mapError Fault.raised =
        .error (.callShape got) := h
      cases hreceive : Host.receive callee report.ok report.reason with
      | ok answer =>
          rw [hreceive] at h
          cases h
      | error raised =>
          rw [hreceive] at h
          cases h
  | standard matcher => cases h
  | never => cases h

theorem Strategy.act_ne_callShape (strategy : Strategy) (report : Report) (got : Kind) :
    (strategy.act report).outcome ≠ .error (.callShape got) := by
  unfold act
  split
  · split <;> simp
  · split <;> simp
  · simp
  · exact Callable.receive_ne_callShape _ _ got
  · exact nofun

namespace Guard

variable {registry : Registry} {schema : Schema} {strict : Bool} {values object reached : Value}

/-- A re-run is on a value that a field of the arguments-object name accepts. -/
theorem Reruns.exists_field (h : Reruns registry schema strict values object) :
    ∃ fields ∈ schema.leaves, ∃ field ∈ fields, field.name = .str Registry.argumentsObjectName ∧
      field.Accepts registry object := by
  obtain ⟨result, hresult, hobject⟩ := h
  obtain ⟨view, hresolved⟩ :
      ∃ view, Pass.Resolved registry schema strict ⟨values, view, result⟩ :=
    exists_resolved hresult
  obtain ⟨fields, hfields, visits, haccount⟩ := hresolved.exists_leaf_account
  obtain ⟨entry, hfind, rfl⟩ := Option.map_eq_some_iff.mp hobject
  obtain ⟨field, hfield, text, hname, htext, hcheck⟩ :=
    haccount.accepted entry (List.mem_of_find?_eq_some hfind)
  have htold := List.find?_some hfind
  exact ⟨fields, hfields, field, hfield, hname.trans (Value.isText_iff.mp htold), text, htext, hcheck⟩

/-- Values without the shape of a call are not resolved anew. -/
theorem Reruns.isCallShaped_left (h : Reruns registry schema strict values object) :
    values.isCallShaped = true := by
  obtain ⟨result, hresult, -⟩ := h
  obtain ⟨-, view, hview, -⟩ := Schema.resolve_eq_ok_iff.mp hresult
  by_contra hshape
  rw [CallView.ofValue_eq_callShape_iff.mpr ⟨Bool.eq_false_iff.mpr hshape, rfl⟩] at hview
  cases hview

/-- From a call, re-runs reach nothing but calls. -/
theorem isCallShaped_of_reaches (htakes : schema.TakesCalls registry)
    (hreached : ReflTransGen (Reruns registry schema strict) values reached)
    (hvalues : values.isCallShaped = true) : reached.isCallShaped = true := by
  induction hreached with
  | refl => exact hvalues
  | tail _ hrerun _ =>
      obtain ⟨fields, hfields, field, hfield, hname, haccepts⟩ := hrerun.exists_field
      exact htakes fields hfields field hfield hname _ haccepts

variable {guard : Guard} {active : Strategy} {schema : Value} {got : Kind}

/-- The fault of values that have no call shape comes from a run of the call. -/
theorem call_eq_callShape_iff :
    (guard.call active values schema strict).outcome = .error (.callShape got) ↔
      (Schema.ofValue schema).shapeFault? = none ∧
        ∃ run, ReflTransGen (Reruns guard.registry (Schema.ofValue schema) strict) values run ∧
          run.isCallShaped = false ∧ got = run.kind := by
  constructor
  · intro h
    obtain ⟨last, hlast⟩ := exists_lastRun guard.registry (Schema.ofValue schema) strict values
    have hsettle := hlast.outcome_settle
    cases hresult : ((Schema.ofValue schema).resolve guard.registry last strict).outcome with
    | error fault =>
        obtain ⟨hcall, -⟩ := call_of_reached_fault active hlast.reached hresult
        rw [h] at hcall
        obtain rfl : .callShape got = fault := Except.error.inj hcall
        obtain ⟨hschema, hshape, hgot⟩ := Schema.resolve_eq_callShape_iff.mp hresult
        exact ⟨hschema, last, hlast.reached, hshape, hgot⟩
    | ok result =>
        have hcall := h.symm.trans (outcome_call_of_settle (hsettle.trans hresult))
        cases hact : ((guard.strategy active).act ⟨result.ok, result.fail⟩).outcome with
        | error fault =>
            rw [hact] at hcall
            cases hcall
            exact absurd hact (Strategy.act_ne_callShape _ _ got)
        | ok answer =>
            rw [hact] at hcall
            cases hcall
  · rintro ⟨hschema, run, hreached, hshape, hgot⟩
    exact (call_of_reached_fault active hreached
      (Schema.resolve_eq_callShape_iff.mpr ⟨hschema, hshape, hgot⟩)).1

/-- Which values a guard call blames for their shape.  The call ends in the fault of a shape exactly when
one of its runs is on values that have no call shape, and the fault names the kind of those.  When
arguments-object fields take nothing but calls, those values are the call values. -/
theorem call_blames_shape_of_run (guard : Guard) (schema : Value) (strict : Bool) :
    (∀ (active : Strategy) (values : Value) (got : Kind),
      (guard.call active values schema strict).outcome = .error (.callShape got) ↔
        (Schema.ofValue schema).shapeFault? = none ∧
          ∃ run, ReflTransGen (Reruns guard.registry (Schema.ofValue schema) strict) values run ∧
            run.isCallShaped = false ∧ got = run.kind) ∧
    ((Schema.ofValue schema).TakesCalls guard.registry →
      ∀ (active : Strategy) (values : Value) (got : Kind),
        (guard.call active values schema strict).outcome = .error (.callShape got) ↔
          (Schema.ofValue schema).shapeFault? = none ∧ values.isCallShaped = false ∧
            got = values.kind) := by
  refine ⟨fun _ _ _ => call_eq_callShape_iff, ?_⟩
  intro htakes active values got
  rw [call_eq_callShape_iff]
  refine and_congr_right fun _ => ?_
  constructor
  · rintro ⟨run, hreached, hshape, hgot⟩
    have hvalues : values.isCallShaped = false := by
      by_contra hvalues
      rw [isCallShaped_of_reaches htakes hreached (by simpa using hvalues)] at hshape
      cases hshape
    -- Values without a shape are not resolved anew, so the run is the first one.
    rcases hreached.cases_head with rfl | ⟨object, hrerun, -⟩
    · exact ⟨hshape, hgot⟩
    · rw [hrerun.isCallShaped_left] at hvalues
      cases hvalues
  · rintro ⟨hshape, hgot⟩
    exact ⟨values, .refl, hshape, hgot⟩

/-- The schema that takes a lone record takes nothing but calls. -/
theorem takesCalls_argumentsObjectSchema :
    (Schema.ofValue argumentsObjectSchema).TakesCalls Registry.standard := by
  have hobject : Registry.standard.get? (.text "Object") =
      some (Registry.standardEntry .isPlainObject) := by
    cbv
  refine Registry.keepsObjectNames_standard.takesCalls (by simp [hobject]) ?_
  intro fields hfields field hfield _
  rw [show fields = [Schema.objectField] from List.mem_singleton.mp hfields] at hfield
  rw [List.mem_singleton.mp hfield]
  rfl

omit [Host] in
/-- Where a lone record is taken, a text is blamed for its shape, and a call without values is not. -/
theorem call_blames_shape_of_run_lone_record :
    letI := Host.quiet
    (Schema.ofValue argumentsObjectSchema).TakesCalls Guard.standard.registry ∧
    (Guard.standard.call .raise (.str "x") argumentsObjectSchema true).outcome =
      .error (.callShape .str) ∧
    (Guard.standard.call .raise (.seq .list []) argumentsObjectSchema true).outcome ≠
      .error (.callShape .null) := by
  let _ := Host.quiet
  have hblames := (call_blames_shape_of_run Guard.standard argumentsObjectSchema true).2
    takesCalls_argumentsObjectSchema .raise
  refine ⟨takesCalls_argumentsObjectSchema, (hblames _ _).mpr ⟨rfl, rfl, rfl⟩, ?_⟩
  intro hblamed
  obtain ⟨-, hshape, -⟩ := (hblames _ _).mp hblamed
  cases hshape

/-! ## An arguments object that may be left out -/

/-- A schema whose arguments object is optional. -/
def optionalObjectSchema : Value :=
  .record .plain [(.str Registry.argumentsObjectName, .str "opt Object")]

/-- Left out, an optional arguments object is null, which has no call shape. -/
theorem reruns_optionalObjectSchema :
    Reruns Registry.standard (Schema.ofValue optionalObjectSchema) false (.seq .list []) .null :=
  ⟨⟨[(.str Registry.argumentsObjectName, .null)], none, 1⟩, by cbv, by cbv⟩

omit [Host] in
/-- An empty list is a call, and it is blamed for a null that the caller did not pass. -/
theorem call_blames_null_object :
    letI := Host.quiet
    (Guard.standard.call .raise (.seq .list []) optionalObjectSchema false).outcome =
      .error (.callShape .null) ∧
    (Value.seq .list []).isCallShaped = true ∧
    ¬ ∀ (guard : Guard) (active : Strategy) (values schema : Value) (strict : Bool) (got : Kind),
      (guard.call active values schema strict).outcome = .error (.callShape got) →
        values.isCallShaped = false := by
  let _ := Host.quiet
  have hblamed : (Guard.standard.call .raise (.seq .list []) optionalObjectSchema false).outcome =
      .error (.callShape .null) :=
    call_eq_callShape_iff.mpr ⟨rfl, .null, .single reruns_optionalObjectSchema, rfl, rfl⟩
  refine ⟨hblamed, rfl, ?_⟩
  intro hall
  cases hall _ _ _ _ _ _ hblamed

end Guard
end CallSchema
