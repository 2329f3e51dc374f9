import CallSchema.Proofs.Schema.Strictness
import CallSchema.Proofs.Schema.Walk
import CallSchema.Proofs.TypeExpr.Absence
import CallSchema.Proofs.TypeExpr.Denotation

/-!
# Calls without values

Past the end of a call every field is checked on null.  Where all fields are optional at their roots, a
walk past the end either binds each of them to null or ends in a fault: an optional expression asks its
inner expression even about null, and a matcher of the caller may end in an error
(`optional_faults_on_null`).
`optional_accepts_null_iff` says exactly when null is accepted.
-/

namespace CallSchema

theorem CallView.valueAt_of_size_le {view : CallView} {index : Nat} (h : view.size ≤ index) :
    view.valueAt index = .null := by
  rw [valueAt, List.getD_eq_getElem?_getD, List.getElem?_eq_none h, Option.getD_none]

/-- The match in which fields from a cursor on all take null. -/
def Match.allNull (cursor : Nat) (fields : List Field) : Match :=
  ⟨fields.map fun field => (field.name, .null), none, cursor + fields.length⟩

theorem Match.take_allNull (cursor : Nat) (field : Field) (fields : List Field) :
    (allNull (cursor + 1) fields).take field.name .null = allNull cursor (field :: fields) := by
  simp [allNull, take, Nat.add_assoc, Nat.add_comm 1]

variable [Host]

/-- The field's type answers on null. -/
def Field.AnswersNull (registry : Registry) (field : Field) : Prop :=
  ∃ text answer, field.type = .str text ∧
    TypeExpr.AnswersNull registry field.name (TypeExpr.parse text) answer

/-- An optional type answers on null when its inner expression does. -/
theorem Field.answersNull_iff {registry : Registry} {field : Field} {text : String}
    {inner : TypeExpr} (htype : field.type = .str text)
    (hparse : TypeExpr.parse text = .optional inner) :
    field.AnswersNull registry ↔
      ∃ answer, TypeExpr.AnswersNull registry field.name inner answer := by
  constructor
  · rintro ⟨other, answer, hother, hanswer⟩
    obtain rfl : text = other := Value.str.inj (htype.symm.trans hother)
    rw [hparse] at hanswer
    cases hanswer with
    | optional h => exact ⟨_, h⟩
  · rintro ⟨answer, hanswer⟩
    refine ⟨text, true, htype, ?_⟩
    rw [hparse]
    exact .optional hanswer

namespace Schema

open TypeExpr (AnswersNull outcome_check_optional_null_eq_ok_iff)

variable {registry : Registry} {view : CallView} {cursor : Nat} {field : Field}
  {fields : List Field} {result : Match} {strict : Bool}

/-- Past the end of a call an optional field takes null and never ends the walk by refusing, so the rest
is walked, unless its type does not answer on null. -/
theorem walk_cons_past_end_eq_ok_iff (hoptional : field.IsOptional) (hcursor : view.size ≤ cursor) :
    (walk registry view cursor (field :: fields)).outcome = .ok result ↔
      field.AnswersNull registry ∧ ∃ others,
        (walk registry view (cursor + 1) fields).outcome = .ok others ∧
          result = others.take field.name .null := by
  obtain ⟨text, inner, htype, hparse⟩ := hoptional
  have htext : field.typeText = .ok text := by rw [Field.typeText, htype]
  rw [Field.answersNull_iff htype hparse]
  rw [walk]
  rw [CallView.valueAt_of_size_le hcursor, htext]
  constructor
  · intro h
    obtain ⟨_, ⟨⟩, h⟩ := Run.outcome_bind_eq_ok_iff.mp h
    obtain ⟨verdict, hverdict, h⟩ := Run.outcome_bind_eq_ok_iff.mp h
    rw [hparse] at hverdict
    obtain ⟨rfl, hanswers⟩ := outcome_check_optional_null_eq_ok_iff.mp hverdict
    obtain ⟨others, hothers, ⟨⟩⟩ := Run.outcome_bind_eq_ok_iff.mp h
    exact ⟨hanswers, others, hothers, rfl⟩
  · rintro ⟨hanswers, others, hothers, rfl⟩
    have hverdict : ((TypeExpr.parse text).check registry field.name .null).outcome =
        .ok .accepted := by
      rw [hparse]
      exact outcome_check_optional_null_eq_ok_iff.mpr ⟨rfl, hanswers⟩
    refine Run.outcome_bind_eq_ok_iff.mpr ⟨text, rfl, ?_⟩
    refine Run.outcome_bind_eq_ok_iff.mpr ⟨.accepted, hverdict, ?_⟩
    exact Run.outcome_bind_eq_ok_iff.mpr ⟨others, hothers, rfl⟩

/-- A walk over optional fields past the end of a call binds all of them to null, if each of them answers
on null, and never refuses. -/
theorem walk_past_end_eq_ok_iff (hoptional : ∀ field ∈ fields, field.IsOptional)
    (hcursor : view.size ≤ cursor) :
    (walk registry view cursor fields).outcome = .ok result ↔
      result = Match.allNull cursor fields ∧ ∀ field ∈ fields, field.AnswersNull registry := by
  induction fields generalizing cursor result with
  | nil =>
      constructor
      · rintro ⟨⟩
        exact ⟨rfl, List.forall_mem_nil _⟩
      · rintro ⟨rfl, -⟩
        rfl
  | cons field fields ih =>
      obtain ⟨hfield, hfields⟩ := List.forall_mem_cons.mp hoptional
      rw [walk_cons_past_end_eq_ok_iff hfield hcursor, List.forall_mem_cons]
      constructor
      · rintro ⟨hanswers, others, hothers, rfl⟩
        obtain ⟨rfl, hrest⟩ := (ih hfields (Nat.le_succ_of_le hcursor)).mp hothers
        exact ⟨Match.take_allNull cursor field fields, hanswers, hrest⟩
      · rintro ⟨rfl, hanswers, hrest⟩
        refine ⟨hanswers, Match.allNull (cursor + 1) fields, ?_, ?_⟩
        · exact (ih hfields (Nat.le_succ_of_le hcursor)).mpr ⟨rfl, hrest⟩
        · exact (Match.take_allNull cursor field fields).symm

/-- A call without values binds optional fields to null in the same way, and no value is left over. -/
theorem matchFields_empty_eq_ok_iff (hoptional : ∀ field ∈ fields, field.IsOptional)
    (hempty : view.values = []) :
    (matchFields registry view strict fields).outcome = .ok result ↔
      result = Match.allNull 0 fields ∧ ∀ field ∈ fields, field.AnswersNull registry := by
  have hsize : view.size = 0 := by rw [CallView.size, hempty, List.length_nil]
  rw [← walk_past_end_eq_ok_iff hoptional (Nat.le_of_eq hsize), matchFields,
    Run.outcome_bind_eq_ok_iff]
  -- There is no value that a strict match could refuse.
  have hkept (walked : Match) : walked.conclude view strict = .ok walked := by
    cases strict with
    | false => rfl
    | true => exact Match.refuseLeftover_of_le (hsize ▸ Nat.zero_le _)
  constructor
  · rintro ⟨walked, hwalked, h⟩
    obtain rfl : walked = result := Except.ok.inj ((hkept walked).symm.trans h)
    exact hwalked
  · intro h
    exact ⟨result, h, hkept result⟩

/-- An optional expression accepts null exactly when its inner expression answers on null; otherwise its
check ends in the fault of the inner one, and it never refuses null.  A call without values is resolved
against optional fields exactly when the type of each answers on null, and then all of them are bound to
null.  Over a registry that is reliable for the names it uses every expression answers on null, for an
argument whose name can be written. -/
theorem optional_accepts_null_iff (registry : Registry) :
    (∀ (inner : TypeExpr) (argument : Value) (verdict : Verdict),
      ((TypeExpr.optional inner).check registry argument .null).outcome = .ok verdict ↔
        verdict = .accepted ∧ ∃ answer, AnswersNull registry argument inner answer) ∧
    (∀ (inner : TypeExpr) (argument : Value) (fault : Fault),
      ((TypeExpr.optional inner).check registry argument .null).outcome = .error fault ↔
        (inner.check registry argument .null).outcome = .error fault) ∧
    (∀ (fields : List Field) (values : Value) (view : CallView) (strict : Bool) (result : Match),
      (∀ field ∈ fields, field.IsOptional) → CallView.ofValue values = .ok view →
        view.values = [] →
          (((flat fields).resolve registry values strict).outcome = .ok result ↔
            result = Match.allNull 0 fields ∧ ∀ field ∈ fields, field.AnswersNull registry)) ∧
    ∀ (inner : TypeExpr) (argument : Value), registry.ReliableFor inner.typeNames →
      inner.isProper = true → argument.Writable →
        ∃ answer, AnswersNull registry argument inner answer := by
  refine ⟨fun inner argument verdict => outcome_check_optional_null_eq_ok_iff,
    fun inner argument fault => TypeExpr.outcome_check_optional_null_eq_error_iff, ?_, ?_⟩
  · intro fields values view strict result hoptional hview hempty
    rw [resolve_of_view hview]
    exact matchFields_empty_eq_ok_iff hoptional hempty
  · rintro inner argument hregistry hproper ⟨argumentText, hargument⟩
    obtain ⟨verdict, hverdict, -⟩ :=
      TypeExpr.settles_of_isProper hregistry hproper hargument .null
    exact ⟨verdict.isAccepted, TypeExpr.answersNull_of_check hverdict⟩

def optionalFields : List Field :=
  [⟨.str "port", .str "opt num"⟩, ⟨.str "tags", .str "opt str arr or num"⟩]

omit [Host] in
/-- Over the standard registry a strict call without values binds two optional fields to null. -/
theorem optional_accepts_null_iff_standard :
    letI := Host.quiet
    (∀ field ∈ optionalFields, field.IsOptional) ∧ Registry.standard.Reliable ∧
    CallView.ofValue (.seq .list []) = .ok ⟨[], []⟩ ∧
    ((flat optionalFields).resolve Registry.standard (.seq .list []) true).outcome =
      .ok ⟨[(.str "port", .null), (.str "tags", .null)], none, 2⟩ := by
  let _ := Host.quiet
  obtain ⟨-, -, hempty, hreliable⟩ := optional_accepts_null_iff Registry.standard
  have hanswers (name text : String) :=
    hreliable (TypeExpr.parse text) (.str name) (Registry.reliable_standard _)
      (TypeExpr.isProper_ofChars _) (Value.writable_str name)
  have hoptional : ∀ field ∈ optionalFields, field.IsOptional :=
    List.forall_mem_cons.mpr ⟨⟨"opt num", _, rfl, by cbv⟩,
      List.forall_mem_cons.mpr ⟨⟨"opt str arr or num", _, rfl, by cbv⟩, List.forall_mem_nil _⟩⟩
  have hall : ∀ field ∈ optionalFields, field.AnswersNull Registry.standard := by
    obtain ⟨port, hport⟩ := hanswers "port" "opt num"
    obtain ⟨tags, htags⟩ := hanswers "tags" "opt str arr or num"
    exact List.forall_mem_cons.mpr ⟨⟨"opt num", port, rfl, hport⟩,
      List.forall_mem_cons.mpr ⟨⟨"opt str arr or num", tags, rfl, htags⟩, List.forall_mem_nil _⟩⟩
  refine ⟨hoptional, Registry.reliable_standard, rfl, ?_⟩
  exact (hempty optionalFields (.seq .list []) ⟨[], []⟩ true _ hoptional rfl rfl).mpr ⟨rfl, hall⟩

/-- The error of measuring null. -/
def noLength : Raised := ⟨"TypeError", "object of type 'NoneType' has no len()"⟩

/-- The host on which null cannot be measured; nothing that is asked there accepts anything. -/
@[reducible] def measuringHost : Host where
  answer callee value :=
    match callee, value with
    | .primitive "len", .null => .error noLength
    | _, _ => .ok false
  receive _ _ _ := .ok ()
  room := 0x8000000000000000

/-- The standard registry with the function of the language that measures, and with a name that is its own
alias. -/
def faultingRegistry : Registry :=
  Registry.standard.putAll [
    (.text "Sized", .matcher (.callable (.supplied (.primitive "len")))),
    (.text "loop", .aliasTo (.str "loop"))]

omit [Host] in
/-- An optional expression does not accept null whatever its inner type: null has no length, and a cycle
of aliases ends nowhere, so both checks end in a fault, as does a call without values. -/
theorem optional_faults_on_null :
    letI := measuringHost
    ((TypeExpr.optional (.leaf "Sized")).check faultingRegistry (.str "x") .null).outcome =
      .error (.raised noLength) ∧
    ((TypeExpr.optional (.leaf "loop")).check faultingRegistry (.str "x") .null).outcome =
      .error (.aliasCycle (.str "loop") 32) ∧
    ((flat [⟨.str "x", .str "opt Sized"⟩]).resolve faultingRegistry (.seq .list []) false).outcome =
      .error (.raised noLength) ∧
    ¬ ∀ (registry : Registry) (inner : TypeExpr) (argument : String),
      ((TypeExpr.optional inner).check registry (.str argument) .null).outcome = .ok .accepted := by
  let _ := measuringHost
  have hfault : ((TypeExpr.optional (.leaf "Sized")).check faultingRegistry (.str "x") .null).outcome =
      .error (.raised noLength) := by cbv
  refine ⟨hfault, by cbv, by cbv, ?_⟩
  intro hall
  have haccepted := hall faultingRegistry (.leaf "Sized") "x"
  rw [hfault] at haccepted
  cases haccepted

end Schema
end CallSchema
