import CallSchema.Proofs.Guard.PassAccount
import Mathlib.Logic.Relation

/-!
# Taking a lone record for the arguments of a call

A schema may list the arguments-object schema in front of a record of fields, so that a call is made
either with the fields one by one or with a lone record of them.  The values of the lone record are
guarded by the same list of schemas, and so a record whose first value is again a record is taken for
another lone record (`lone_record_call_accepts_inner_record`).

`lone_record_call_is_accepted_along_first_values` says how far this goes.  Each pass either accepts its
values by the fields or hands its first value on, which it does only when that value is a record and the
fields do not accept two or more of its values.  So an accepted call on a lone record ends at a record
that the fields accept, and that stands behind first values only.
-/

namespace CallSchema

namespace Registry

/-- The registry has the two object names as they are in the reserved or in the standard registry. -/
structure KeepsObjectNames (registry : Registry) : Prop where
  argumentsObject : registry.get? (.text argumentsObjectName) = some (.aliasTo (.str "Object"))
  object : registry.get? (.text "Object") = none ∨
    registry.get? (.text "Object") = some (standardEntry .isPlainObject)

theorem keepsObjectNames_reserved : KeepsObjectNames reserved := ⟨by cbv, Or.inl (by cbv)⟩

theorem keepsObjectNames_standard : KeepsObjectNames standard := ⟨by cbv, Or.inr (by cbv)⟩

variable {registry extended layer : Registry}

/-- Layers that use neither name leave them as they are. -/
theorem KeepsObjectNames.extend {raw : Value} (h : registry.KeepsObjectNames)
    (hlayer : unfold raw = .ok layer) (hextended : registry.extend raw = .ok extended)
    (hobject : .text argumentsObjectName ∉ layer.names) (hplain : .text "Object" ∉ layer.names) :
    extended.KeepsObjectNames := by
  rw [Registry.extend, hlayer] at hextended
  obtain rfl : registry.putAll layer.entries = extended := Except.ok.inj hextended
  constructor
  · rw [Table.get?_putAll_of_not_mem registry hobject]
    exact h.argumentsObject
  · rw [Table.get?_putAll_of_not_mem registry hplain]
    exact h.object

/-- A value that the arguments-object name accepts is a record, unless the default matcher decides. -/
theorem KeepsObjectNames.record_of_accepted [Host] (h : registry.KeepsObjectNames)
    {argument value : Value}
    (haccepted : (TypeExpr.checkLeaf registry argument argumentsObjectName value).outcome =
      .ok .accepted) :
    (∃ kind entries, value = .record kind entries) ∨ registry.get? (.text "Object") = none := by
  rcases h.object with hobject | hobject
  · exact Or.inr hobject
  · have hresolve : registry.resolve (.str argumentsObjectName) =
        .ok ⟨.str "Object", .callable (.standard .isPlainObject)⟩ := by
      simp [resolve, lookupLimit, follow, lookup, entryOf, EntryName.ofValue?, present,
        h.argumentsObject, hobject, standardEntry, Except.map, bind, Except.bind, pure, Except.pure]
    obtain ⟨resolution, hresolution, hanswer⟩ := TypeExpr.checkLeaf_eq_accepted_iff.mp haccepted
    cases hresolve.symm.trans hresolution
    cases value with
    | record kind entries => exact Or.inl ⟨kind, entries, rfl⟩
    | _ => cases hanswer

end Registry

theorem CallView.head?_of_valueAt_zero (view : CallView) (h : view.valueAt 0 ≠ .null) :
    view.values.head? = some (view.valueAt 0) := by
  obtain ⟨keys, values⟩ := view
  cases values with
  | nil => exact absurd rfl h
  | cons value values => rfl

namespace Schema

/-- The field of the schema that takes a lone record for the arguments of a call. -/
def objectField : Field :=
  ⟨.str Registry.argumentsObjectName, .str Registry.argumentsObjectName⟩

theorem parse_argumentsObjectName :
    TypeExpr.parse Registry.argumentsObjectName = .leaf Registry.argumentsObjectName := by cbv

variable [Host] {registry : Registry} {view : CallView} {strict : Bool} {fields : List Field}
  {result : Match}

/-- A walk over the arguments-object field alone takes the first value or refuses it. -/
theorem walk_objectField
    (h : (walk registry view 0 [objectField]).outcome = .ok result) :
    (∃ reason, result = Match.refused reason 0) ∨
    (result = ⟨[(.str Registry.argumentsObjectName, view.valueAt 0)], none, 1⟩ ∧
      (TypeExpr.checkLeaf registry (.str Registry.argumentsObjectName) Registry.argumentsObjectName
        (view.valueAt 0)).outcome = .ok .accepted) := by
  unfold walk at h
  obtain ⟨text, htext, h⟩ := Run.outcome_bind_eq_ok_iff.mp h
  obtain ⟨verdict, hverdict, h⟩ := Run.outcome_bind_eq_ok_iff.mp h
  cases htext
  rw [parse_argumentsObjectName] at hverdict
  cases verdict with
  | accepted =>
      cases h
      exact Or.inr ⟨rfl, hverdict⟩
  | refused reason soft =>
      -- A leaf never refuses softly, so the walk ends here.
      obtain rfl : soft = false := TypeExpr.soft_eq_false_of_checkLeaf hverdict
      cases h
      exact Or.inl ⟨reason, rfl⟩

theorem matchFields_objectField
    (h : (matchFields registry view strict [objectField]).outcome = .ok result) :
    (result.argumentsObject? = none ∧ result.ok = false) ∨
    (result.argumentsObject? = some (view.valueAt 0) ∧ result.consumed = 1 ∧
      (TypeExpr.checkLeaf registry (.str Registry.argumentsObjectName) Registry.argumentsObjectName
        (view.valueAt 0)).outcome = .ok .accepted) := by
  obtain ⟨walked, hwalked, hresult⟩ := Run.outcome_bind_eq_ok_iff.mp h
  rcases walk_objectField hwalked with ⟨reason, rfl⟩ | ⟨rfl, haccepted⟩
  · rcases Match.conclude_eq_ok_iff.mp hresult with ⟨rfl, -⟩ | ⟨-, hfail, -⟩
    · exact Or.inl ⟨rfl, rfl⟩
    · cases hfail
  · -- A value left over adds a reason, but the arguments object stays.
    refine Or.inr ?_
    rcases Match.conclude_eq_ok_iff.mp hresult with ⟨rfl, -⟩ | ⟨-, -, -, reason, -, rfl⟩
    · exact ⟨by simp [Match.argumentsObject?, Value.isText], rfl, haccepted⟩
    · exact ⟨by simp [Match.argumentsObject?, Value.isText], rfl, haccepted⟩

end Schema

namespace Guard

open Schema

variable [Host]

/-- The fields accept the call values. -/
def Accepts (registry : Registry) (fields : List Field) (strict : Bool) (values : Value) : Prop :=
  ∃ result, ((flat fields).resolve registry values strict).outcome = .ok result ∧ result.ok = true

/-- The first of some call values is taken for the arguments of the call. -/
structure HandedOn (registry : Registry) (fields : List Field) (strict : Bool)
    (values first : Value) : Prop where
  isFirst : ∃ view, CallView.ofValue values = .ok view ∧ view.values.head? = some first
  /-- It is a record, unless the default matcher decides what is one. -/
  isRecord : (∃ kind entries, first = .record kind entries) ∨ registry.get? (.text "Object") = none
  /-- The fields refuse the call values or accept no more than the first of them. -/
  notTaken : ∀ result, ((flat fields).resolve registry values strict).outcome = .ok result →
    result.ok = true → result.consumed ≤ 1

variable {registry : Registry} {fields : List Field} {strict : Bool} {values : Value}
  {pass last : Pass} {passes : List Pass}

theorem not_accepts_of_refused {result : Match}
    (h : ((flat fields).resolve registry values strict).outcome = .ok result)
    (hrefuses : result.ok = false) : ¬ Accepts registry fields strict values := by
  rintro ⟨other, hother, hok⟩
  obtain rfl : result = other := Except.ok.inj (h.symm.trans hother)
  rw [hok] at hrefuses
  cases hrefuses

/-- The match of a pass against the arguments-object schema and some fields is the better one of their
matches. -/
theorem Pass.Resolved.exists_better
    (h : pass.Resolved registry (oneOf [flat [objectField], flat fields]) strict) :
    ∃ lone own,
      (matchFields registry pass.view strict [objectField]).outcome = .ok lone ∧
      (matchFields registry pass.view strict fields).outcome = .ok own ∧
      pass.result = lone.better own := by
  obtain ⟨-, hresult⟩ := h.resolveView_eq
  rw [resolveView_oneOf] at hresult
  obtain ⟨results, hresults, hbest⟩ := Run.outcome_bind_eq_ok_iff.mp hresult
  cases Run.outcome_mapM_eq_ok_iff.mp hresults with
  | @cons _ lone _ _ hlone hrest =>
      cases hrest with
      | @cons _ own _ _ hown hnil =>
          cases hnil
          rw [resolveView] at hlone hown
          exact ⟨lone, own, hlone, hown, (Except.ok.inj hbest).symm⟩

theorem Pass.Resolved.resolve_flat_eq_ok_iff {schema : Schema} {result : Match}
    (h : pass.Resolved registry schema strict) :
    ((flat fields).resolve registry pass.values strict).outcome = .ok result ↔
      (matchFields registry pass.view strict fields).outcome = .ok result := by
  rw [resolve_flat, h.view_eq]
  exact Iff.rfl

/-- A pass that accepts without an arguments object accepts by the fields. -/
theorem Pass.Resolved.accepts_of_no_object
    (h : pass.Resolved registry (oneOf [flat [objectField], flat fields]) strict)
    (hobject : pass.result.argumentsObject? = none) (hok : pass.result.ok = true) :
    Accepts registry fields strict pass.values := by
  obtain ⟨lone, own, hlone, hown, hbetter⟩ := h.exists_better
  rcases Match.better_eq_or lone own with hkept | hkept
  · -- The arguments-object schema accepts nothing without an arguments object.
    rw [hbetter, hkept] at hobject hok
    rcases matchFields_objectField hlone with ⟨-, hrefuses⟩ | ⟨htakes, -, -⟩
    · rw [hok] at hrefuses
      cases hrefuses
    · rw [hobject] at htakes
      cases htakes
  · rw [hbetter, hkept] at hok
    exact ⟨own, h.resolve_flat_eq_ok_iff.mpr hown, hok⟩

/-- A pass that holds an arguments object hands its first value on. -/
theorem Pass.Resolved.handedOn_of_object {object : Value} (hkeeps : registry.KeepsObjectNames)
    (hnames : ∀ field ∈ fields, field.name ≠ .str Registry.argumentsObjectName)
    (h : pass.Resolved registry (oneOf [flat [objectField], flat fields]) strict)
    (hobject : pass.result.argumentsObject? = some object) (hne : object ≠ .null) :
    HandedOn registry fields strict pass.values object := by
  obtain ⟨lone, own, hlone, hown, hbetter⟩ := h.exists_better
  obtain ⟨visits, haccount⟩ := exists_account_of_matchFields hown
  have hownObject := haccount.argumentsObject?_eq_none hnames
  -- The fields take nothing for the arguments object, so their match was not the better one.
  have hkept : lone.better own = lone := by
    rcases Match.better_eq_or lone own with hkept | hkept
    · exact hkept
    · rw [hbetter, hkept, hownObject] at hobject
      cases hobject
  rw [hbetter, hkept] at hobject
  rcases matchFields_objectField hlone with ⟨htakes, -⟩ | ⟨htakes, hconsumed, haccepted⟩
  · rw [hobject] at htakes
    cases htakes
  · obtain rfl : object = pass.view.valueAt 0 := Option.some.inj (hobject.symm.trans htakes)
    refine ⟨⟨pass.view, h.view_eq, pass.view.head?_of_valueAt_zero hne⟩,
      hkeeps.record_of_accepted haccepted, ?_⟩
    intro result hresult hok
    obtain rfl : own = result :=
      Except.ok.inj (hown.symm.trans (h.resolve_flat_eq_ok_iff.mp hresult))
    by_contra hlt
    have houtranks : own.outranks lone = true := by
      rw [Match.outranks_iff]
      cases hlone : lone.ok with
      | true => exact Or.inr ⟨hok, by omega⟩
      | false => exact Or.inl ⟨hok, rfl⟩
    rw [Match.better_eq_right houtranks] at hkept
    rw [hkept, hobject] at hownObject
    cases hownObject

/-- What passes are made on has a view, so it is not null. -/
theorem Passes.ne_null {schema : Schema} (h : Passes registry schema strict values passes) :
    values ≠ .null := by
  rintro rfl
  generalize hvalues : Value.null = values at h
  cases h with
  | last hresolved _ => cases (congrArg CallView.ofValue hvalues).trans hresolved.view_eq
  | again hresolved _ _ => cases (congrArg CallView.ofValue hvalues).trans hresolved.view_eq

/-- Passes that end in an accepting one lead, along first values, to values that the fields accept. -/
theorem Passes.exists_accepted (hkeeps : registry.KeepsObjectNames)
    (hnames : ∀ field ∈ fields, field.name ≠ .str Registry.argumentsObjectName)
    (h : Passes registry (oneOf [flat [objectField], flat fields]) strict values passes)
    (hlast : passes.getLast? = some last) (hok : last.result.ok = true) :
    ∃ reached, Relation.ReflTransGen (HandedOn registry fields strict) values reached ∧
      Accepts registry fields strict reached := by
  induction h with
  | @last pass hresolved hobject =>
      cases hlast
      exact ⟨_, .refl, hresolved.accepts_of_no_object hobject hok⟩
  | @again pass object passes hresolved hobject hrest ih =>
      have hlast' : passes.getLast? = some last := by
        cases passes with
        | nil => cases hrest
        | cons next passes => rwa [List.getLast?_cons_cons] at hlast
      obtain ⟨reached, hreached, haccepts⟩ := ih hlast'
      exact ⟨reached, .head (hresolved.handedOn_of_object hkeeps hnames hobject hrest.ne_null)
        hreached, haccepts⟩

/-- A call on a lone record that is reported as accepted: the fields accept the record as a value, or
they accept what is reached from it by going, any number of times, from call values to the first of
them, as `HandedOn` allows. -/
theorem lone_record_call_is_accepted_along_first_values {guard : Guard} {active : Strategy}
    {kind kind' : RecordKind} {entries fields : List (Value × Value)} {reason : Option String}
    (hkeeps : guard.registry.KeepsObjectNames)
    (hnames : ∀ field ∈ fields, field.1 ≠ .str Registry.argumentsObjectName)
    (hreported : Event.reported (guard.strategy active) ⟨true, reason⟩ ∈
      (guard.call active (.seq .list [.record kind entries])
        (.seq .list [argumentsObjectSchema, .record kind' fields]) strict).events) :
    Accepts guard.registry (fieldsOfEntries fields) strict (.seq .list [.record kind entries]) ∨
    ∃ reached,
      Relation.ReflTransGen (HandedOn guard.registry (fieldsOfEntries fields) strict)
        (.record kind entries) reached ∧
      Accepts guard.registry (fieldsOfEntries fields) strict reached := by
  obtain ⟨result, hsettle, -, hreport⟩ := mem_reported_call_iff.mp hreported
  obtain ⟨earlier, last, hpasses, rfl⟩ := exists_passes hsettle
  have hok : last.result.ok = true := (congrArg Report.ok hreport).symm
  have hfieldNames : ∀ field ∈ fieldsOfEntries fields,
      field.name ≠ .str Registry.argumentsObjectName := List.forall_mem_map.mpr hnames
  obtain ⟨reached, hreached, haccepts⟩ :=
    Passes.exists_accepted hkeeps hfieldNames hpasses List.getLast?_concat hok
  rcases hreached.cases_head with rfl | ⟨first, hfirst, hrest⟩
  · exact Or.inl haccepts
  · -- The first value of the call is the record itself.
    obtain ⟨view, hview, hhead⟩ := hfirst.isFirst
    cases hview
    cases hhead
    exact Or.inr ⟨reached, hrest, haccepts⟩

/-! ## A record inside a record -/

/-- A text; or a lone record of it. -/
def textSchema : Value :=
  .seq .list [argumentsObjectSchema, .record .plain [(.str "a", .str "str")]]

/-- The record that the fields accept. -/
def innerRecord : Value := .record .plain [(.str "a", .str "v")]

/-- A record around it, under a name that is not the field's. -/
def outerRecord : Value := .record .plain [(.str "x", innerRecord)]

/-- The pass on the inner record takes its text. -/
def innerPass : Pass :=
  ⟨innerRecord, ⟨[.str "a"], [.str "v"]⟩, ⟨[(.str "a", .str "v")], none, 1⟩⟩

/-- The pass on the outer record takes the inner one for the arguments of the call. -/
def outerPass : Pass :=
  ⟨outerRecord, ⟨[.str "x"], [innerRecord]⟩,
    ⟨[(.str Registry.argumentsObjectName, innerRecord)], none, 1⟩⟩

/-- The pass on the lone record takes it for the arguments of the call. -/
def loneOuterPass : Pass :=
  ⟨.seq .list [outerRecord], ⟨[.int 0], [outerRecord]⟩,
    ⟨[(.str Registry.argumentsObjectName, outerRecord)], none, 1⟩⟩

theorem passes_outerRecord :
    Passes Registry.standard (Schema.ofValue textSchema) true loneOuterPass.values
      [loneOuterPass, outerPass, innerPass] := by
  have hinner : Passes Registry.standard (Schema.ofValue textSchema) true innerPass.values
      [innerPass] := .last ⟨rfl, by cbv⟩ (by cbv)
  have houter : Passes Registry.standard (Schema.ofValue textSchema) true outerPass.values
      [outerPass, innerPass] := .again ⟨rfl, by cbv⟩ (by cbv) hinner
  exact .again ⟨rfl, by cbv⟩ (by cbv) houter

omit [Host] in
theorem lone_record_call_is_accepted_along_first_values_outerRecord :
    letI := Host.quiet
    standard.registry.KeepsObjectNames ∧
    (∀ field ∈ [(Value.str "a", Value.str "str")],
      field.1 ≠ .str Registry.argumentsObjectName) ∧
    Event.reported (standard.strategy .raise) ⟨true, none⟩ ∈
      (standard.call .raise (.seq .list [outerRecord]) textSchema true).events ∧
    (Accepts standard.registry (fieldsOfEntries [(.str "a", .str "str")]) true
        (.seq .list [outerRecord]) ∨
      ∃ reached,
        Relation.ReflTransGen
          (HandedOn standard.registry (fieldsOfEntries [(.str "a", .str "str")]) true)
          outerRecord reached ∧
        Accepts standard.registry (fieldsOfEntries [(.str "a", .str "str")]) true reached) := by
  let _ := Host.quiet
  have hreported : Event.reported (standard.strategy .raise) ⟨true, none⟩ ∈
      (standard.call .raise (.seq .list [outerRecord]) textSchema true).events :=
    passes_outerRecord.reported standard .raise rfl rfl
  have hnames : ∀ field ∈ [(Value.str "a", Value.str "str")],
      field.1 ≠ .str Registry.argumentsObjectName := by
    simp [Registry.argumentsObjectName]
  exact ⟨Registry.keepsObjectNames_standard, hnames, hreported,
    lone_record_call_is_accepted_along_first_values Registry.keepsObjectNames_standard hnames
      hreported⟩

omit [Host] in
/-- A call on a lone record can be reported as accepted although the fields accept neither the record
as a value nor the values in it: here they accept only a record inside it. -/
theorem lone_record_call_accepts_inner_record :
    letI := Host.quiet
    ¬ ∀ (guard : Guard) (active : Strategy) (strict : Bool) (kind kind' : RecordKind)
        (entries fields : List (Value × Value)) (reason : Option String),
      guard.registry.KeepsObjectNames →
      (∀ field ∈ fields, field.1 ≠ .str Registry.argumentsObjectName) →
      Event.reported (guard.strategy active) ⟨true, reason⟩ ∈
        (guard.call active (.seq .list [.record kind entries])
          (.seq .list [argumentsObjectSchema, .record kind' fields]) strict).events →
      Accepts guard.registry (fieldsOfEntries fields) strict
          (.seq .list [.record kind entries]) ∨
        Accepts guard.registry (fieldsOfEntries fields) strict (.record kind entries) := by
  let _ := Host.quiet
  intro h
  have hreported : Event.reported (standard.strategy .raise) ⟨true, none⟩ ∈
      (standard.call .raise (.seq .list [outerRecord]) textSchema true).events :=
    passes_outerRecord.reported standard .raise rfl rfl
  have hrefused : ∀ values,
      ((flat (fieldsOfEntries [(.str "a", .str "str")])).resolve Registry.standard values
        true).outcome = .ok ⟨[], some "`a` is not string", 0⟩ →
      ¬ Accepts standard.registry (fieldsOfEntries [(.str "a", .str "str")]) true values :=
    fun _ hresult => not_accepts_of_refused hresult rfl
  rcases h standard .raise true .plain .plain _ _ none Registry.keepsObjectNames_standard
    (by simp [Registry.argumentsObjectName]) hreported with hlone | houter
  · exact hrefused _ (by cbv) hlone
  · exact hrefused _ (by cbv) houter

end Guard
end CallSchema
