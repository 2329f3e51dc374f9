import CallSchema.Proofs.Schema.Composition
import CallSchema.Proofs.Schema.Faults
import CallSchema.Proofs.TypeExpr.Denotation

/-!
# Schemas with a type that is not text

A type is read when the walk reaches its field, and a refusal ends the walk.  So a field whose type is
not text is reported only where the fields in front of it accept their values
(`malformed_field_is_reported_iff`); where one of them refuses, the call is refused as if the schema were
well formed (`malformed_field_is_not_always_reported`).  Optional fields never end a walk by refusing,
so behind them a malformed field is always reported.  The report names the field, so a name that cannot be
written takes its place with a fault of its own.
-/

namespace CallSchema

/-- Whether the field's type is text. -/
def Field.hasText (field : Field) : Bool :=
  match field.type with
  | .str _ => true
  | _ => false

theorem Field.exists_typeText {field : Field} (h : field.hasText = true) :
    ∃ text, field.typeText = .ok text := by
  obtain ⟨name, type⟩ := field
  cases type with
  | str text => exact ⟨text, rfl⟩
  | _ => cases h

/-- The report of a field whose type is not text, or the fault of writing it. -/
def Field.report (field : Field) : Fault :=
  match field.name.shown with
  | .ok nameText => .typeNotText nameText field.type.kind
  | .error fault => fault

theorem Field.typeText_of_hasText_eq_false {field : Field} (h : field.hasText = false) :
    field.typeText = .error field.report := by
  obtain ⟨name, type⟩ := field
  unfold typeText report
  cases type with
  | str text => cases h
  | _ => cases name.shown <;> rfl

/-- A field whose type is not text is reported as misuse of the schema if its name can be written. -/
theorem Field.family?_report_iff {field : Field} :
    field.report.family? = some .schema ↔ field.name.Writable := by
  unfold report
  cases hname : field.name.shown with
  | ok nameText => exact iff_of_true rfl ⟨nameText, hname⟩
  | error fault =>
      refine iff_of_false ?_ ?_
      · rw [(Value.fromText_of_shown hname).family?_eq_none]
        exact nofun
      · rintro ⟨nameText, htext⟩
        cases hname.symm.trans htext

namespace Schema

/-- Every schema with a malformed type has a first field of that kind. -/
theorem exists_first_malformed {fields : List Field} (hbad : ∃ field ∈ fields, field.hasText = false) :
    ∃ before bad after, fields = before ++ bad :: after ∧ bad.hasText = false ∧
      ∀ field ∈ before, field.hasText = true := by
  have hbad' : ∃ field ∈ fields, (!field.hasText) = true := by simpa using hbad
  obtain ⟨bad, hfind⟩ := Option.isSome_iff_exists.mp
    (List.find?_isSome.mpr hbad')
  obtain ⟨hmalformed, before, after, hfields, hbefore⟩ := List.find?_eq_some_iff_append.mp hfind
  exact ⟨before, bad, after, hfields, by simpa using hmalformed, by simpa using hbefore⟩

section

variable [Host] {registry : Registry} {view : CallView} {cursor : Nat} {strict : Bool}
  {before after fields : List Field} {bad : Field} {values : Value} {result : Match}

/-! ## A field whose type is not text -/

theorem matchFields_malformed (hbad : bad.hasText = false) :
    matchFields registry view strict (bad :: after) = Run.fail bad.report := by
  rw [matchFields, walk, bad.typeText_of_hasText_eq_false hbad]
  rfl

/-- Resolving fields with a malformed one among them: the plain match of those in front decides. -/
theorem outcome_resolve_malformed (hbad : bad.hasText = false) :
    ((flat (before ++ bad :: after)).resolve registry values strict).outcome =
      ((flat before).resolve registry values false).outcome >>= fun result =>
        if result.ok then .error bad.report else .ok result := by
  show (Run.ofExcept (CallView.ofValue values) >>= fun view =>
    matchFields registry view strict (before ++ bad :: after)).outcome =
      (Run.ofExcept (CallView.ofValue values) >>= fun view =>
        matchFields registry view false before).outcome >>= _
  simp only [matchFields_append, matchFields_malformed hbad, Run.outcome_bind, bind_assoc]
  congr 1
  funext view
  congr 1
  funext result
  cases result.ok with
  | true => rfl
  | false => rfl

/-! ## The fields in front -/

/-- Over a reliable registry a walk over fields whose types are text and whose names can be written ends in
a match. -/
theorem exists_walk_of_reliable (hregistry : registry.Reliable)
    (htext : ∀ field ∈ fields, field.hasText = true)
    (hnames : ∀ field ∈ fields, field.name.Writable) (cursor : Nat) :
    ∃ result, (walk registry view cursor fields).outcome = .ok result := by
  induction fields generalizing cursor with
  | nil => exact ⟨_, rfl⟩
  | cons field fields ih =>
      obtain ⟨hfield, hfields⟩ := List.forall_mem_cons.mp htext
      obtain ⟨⟨nameText, hname⟩, hnames⟩ := List.forall_mem_cons.mp hnames
      refine Run.exists_ok_bind (field.exists_typeText hfield) fun text => ?_
      obtain ⟨verdict, hverdict, -⟩ := TypeExpr.settles_of_isProper (hregistry _)
        (TypeExpr.isProper_ofChars text.toList) hname (view.valueAt cursor)
      refine Run.exists_ok_bind ⟨verdict, hverdict⟩ fun verdict => ?_
      cases verdict with
      | accepted => exact Run.exists_ok_bind (ih hfields hnames (cursor + 1)) fun _ => ⟨_, rfl⟩
      | refused reason soft =>
          cases soft with
          | true => exact ih hfields hnames cursor
          | false => exact ⟨_, rfl⟩

/-- A walk over optional fields never ends in a refusal. -/
theorem ok_of_isOptional (hoptional : ∀ field ∈ fields, field.IsOptional)
    (h : (walk registry view cursor fields).outcome = .ok result) : result.ok = true := by
  obtain ⟨visits, hvisits⟩ := exists_walked h
  cases hfail : result.fail with
  | none => exact Match.ok_eq_true_iff.mpr hfail
  | some reason =>
      -- The last field visited would have refused, and hard.
      have hending := hvisits.ending
      rw [hfail] at hending
      obtain ⟨earlier, last, rfl, -, hverdict⟩ := hending.eq_some
      have hlast : last ∈ earlier ++ [last] := List.mem_append_right _ (List.mem_singleton.mpr rfl)
      have hfield := hending.reached.subset (List.mem_map_of_mem hlast)
      obtain ⟨text, htype, hcheck⟩ := hvisits.judged last hlast
      obtain ⟨other, inner, hother, hparse⟩ := hoptional _ hfield
      obtain rfl : text = other := Value.str.inj (htype.symm.trans hother)
      rw [hparse, hverdict] at hcheck
      cases TypeExpr.soft_of_check_optional hcheck

/-- A plain match against fields is the walk over them. -/
theorem resolve_plain_eq_ok_iff :
    ((flat fields).resolve registry values false).outcome = .ok result ↔
      ∃ view, CallView.ofValue values = .ok view ∧
        (walk registry view 0 fields).outcome = .ok result := by
  show (Run.ofExcept (CallView.ofValue values) >>= fun view =>
    matchFields registry view false fields).outcome = .ok result ↔ _
  rw [Run.outcome_bind_eq_ok_iff]
  refine exists_congr fun view => and_congr_right fun _ => ?_
  rw [matchFields_plain]

theorem not_schema_fault_of_hasText (htext : ∀ field ∈ fields, field.hasText = true) {fault : Fault}
    (h : ((flat fields).resolve registry values false).outcome = .error fault) :
    fault.family? ≠ some .schema := by
  have hfaults : Run.FaultsIn (fun fault => fault.family? ≠ some .schema)
      ((flat fields).resolve registry values false) := by
    refine Run.FaultsIn.bind (fun fault h => CallView.family?_ne_schema_of_ofValue h) fun view => ?_
    refine Run.FaultsIn.bind ?_ fun _ => Run.faultsIn_pure _
    refine faultsIn_walk registry view (fun fault => Fault.FromCheck.family?_ne_schema) ?_ 0
    intro field hfield fault hfault
    obtain ⟨text, htypeText⟩ := field.exists_typeText (htext field hfield)
    rw [htypeText] at hfault
    cases hfault
  exact hfaults fault h

/-- When a schema with a type that is not text is reported.  Its first such field splits it.  Whatever
the registry and the call values are, the schema is reported exactly when the fields in front, as a
schema of their own, accept the values in a plain match and the name of that field, which the report
cites, can be written; when they refuse the values, so does the whole schema, in the same match.  Over a
reliable registry fields with names that can be written always do one or the other, and they accept all
values if they are all optional. -/
theorem malformed_field_is_reported_iff (hbad : ∃ field ∈ fields, field.hasText = false) :
    ∃ before bad after, fields = before ++ bad :: after ∧ bad.hasText = false ∧
      (∀ field ∈ before, field.hasText = true) ∧
      ∀ (registry : Registry) (values : Value) (strict : Bool),
        ((∃ fault, ((flat fields).resolve registry values strict).outcome = .error fault ∧
            fault.family? = some .schema) ↔
          bad.name.Writable ∧
            ∃ result, ((flat before).resolve registry values false).outcome = .ok result ∧
              result.ok = true) ∧
        (∀ result, ((flat before).resolve registry values false).outcome = .ok result →
          ((flat fields).resolve registry values strict).outcome =
            if result.ok then .error bad.report else .ok result) ∧
        (registry.Reliable → (∀ field ∈ before, field.name.Writable) →
          ∀ view, CallView.ofValue values = .ok view →
          ∃ result, ((flat before).resolve registry values false).outcome = .ok result ∧
            ((∀ field ∈ before, field.IsOptional) → result.ok = true)) := by
  obtain ⟨before, bad, after, rfl, hmalformed, htext⟩ := exists_first_malformed hbad
  refine ⟨before, bad, after, rfl, hmalformed, htext, ?_⟩
  intro registry values strict
  have houtcome : ((flat (before ++ bad :: after)).resolve registry values strict).outcome = _ :=
    outcome_resolve_malformed hmalformed
  refine ⟨?_, ?_, ?_⟩
  · cases hbefore : ((flat before).resolve registry values false).outcome with
    | error other =>
        rw [hbefore] at houtcome
        refine iff_of_false ?_ (by simp)
        rintro ⟨fault, hfault, hfamily⟩
        rw [houtcome] at hfault
        cases hfault
        exact not_schema_fault_of_hasText htext hbefore hfamily
    | ok result =>
        rw [hbefore] at houtcome
        rw [houtcome]
        cases hok : result.ok with
        | true => simp [bind, Except.bind, hok, Field.family?_report_iff]
        | false => simp [bind, Except.bind, hok]
  · intro result hresult
    rw [houtcome, hresult]
    rfl
  · intro hregistry hnames view hview
    obtain ⟨result, hwalk⟩ : ∃ result, (walk registry view 0 before).outcome = .ok result :=
      exists_walk_of_reliable hregistry htext hnames 0
    exact ⟨result, resolve_plain_eq_ok_iff.mpr ⟨view, hview, hwalk⟩,
      fun hoptional => ok_of_isOptional hoptional hwalk⟩

end

/-! ## A malformed field behind a text -/

/-- A text, and a field with a number for its type. -/
def malformedFields : List Field :=
  [⟨.str "a", .str "str"⟩, ⟨.str "b", .int 1⟩]

theorem malformed_malformedFields : ∃ field ∈ malformedFields, field.hasText = false :=
  ⟨⟨.str "b", .int 1⟩, by simp [malformedFields], rfl⟩

theorem writable_malformedFields : ∀ field ∈ malformedFields, field.name.Writable :=
  List.forall_mem_cons.mpr ⟨Value.writable_str "a",
    List.forall_mem_cons.mpr ⟨Value.writable_str "b", List.forall_mem_nil _⟩⟩

/-- Behind a text that is accepted the number is reported. -/
theorem malformed_field_is_reported_iff_behind_text :
    letI := Host.quiet
    (∃ field ∈ malformedFields, field.hasText = false) ∧
    ((flat malformedFields).resolve Registry.standard (.seq .list [.str "x"]) true).outcome =
      .error (.typeNotText "b" .int) := by
  let _ := Host.quiet
  obtain ⟨before, bad, after, hsplit, hbad, htext, hreports⟩ :=
    malformed_field_is_reported_iff malformed_malformedFields
  -- The first field has a text for its type, so the number is that of the second one.
  obtain ⟨rfl, rfl⟩ : before = [⟨.str "a", .str "str"⟩] ∧ bad = ⟨.str "b", .int 1⟩ := by
    rcases before with _ | ⟨first, _ | ⟨second, before⟩⟩
    · cases hsplit
      cases hbad
    · cases hsplit
      exact ⟨rfl, rfl⟩
    · obtain ⟨-, hrest⟩ := List.cons.inj hsplit
      obtain ⟨rfl, -⟩ := List.cons.inj hrest
      cases htext ⟨.str "b", .int 1⟩ (by simp)
  obtain ⟨-, hreported, -⟩ := hreports Registry.standard (.seq .list [.str "x"]) true
  exact ⟨malformed_malformedFields, hreported ⟨[(.str "a", .str "x")], none, 1⟩ (by cbv)⟩

/-- Whether a malformed schema is reported depends on the call values: in front of a number that is no
text, the walk does not come to the malformed field. -/
theorem malformed_field_is_not_always_reported :
    letI := Host.quiet
    ((flat malformedFields).resolve Registry.standard (.seq .list [.str "x"]) false).outcome =
      .error (.typeNotText "b" .int) ∧
    ((flat malformedFields).resolve Registry.standard (.seq .list [.int 1]) false).outcome =
      .ok ⟨[], some "`a` is not string", 0⟩ ∧
    ¬ ∀ (registry : Registry) (fields : List Field) (values : Value) (view : CallView)
        (strict : Bool),
      registry.Reliable → (∃ field ∈ fields, field.hasText = false) →
        (∀ field ∈ fields, field.name.Writable) →
        CallView.ofValue values = .ok view →
          ∃ fault, ((flat fields).resolve registry values strict).outcome = .error fault ∧
            fault.family? = some .schema := by
  let _ := Host.quiet
  have hrefused : ((flat malformedFields).resolve Registry.standard (.seq .list [.int 1])
      false).outcome = .ok ⟨[], some "`a` is not string", 0⟩ := by cbv
  refine ⟨by cbv, hrefused, ?_⟩
  intro hall
  obtain ⟨fault, hfault, -⟩ := hall Registry.standard malformedFields (.seq .list [.int 1])
    ⟨[.int 0], [.int 1]⟩ false Registry.reliable_standard malformed_malformedFields
    writable_malformedFields rfl
  rw [hrefused] at hfault
  cases hfault

end Schema
end CallSchema
