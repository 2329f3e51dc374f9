import CallSchema.Proofs.Call.Bound
import CallSchema.Proofs.Guard.PassAccount

/-!
# What a guarded function runs on

A guarded function whose schema has one field per parameter, in their order, is matched by position:
the values of the bound parameters are offered to the fields one after another.  When a parameter is
left out, or an optional field is passed over, the values behind it meet other fields than their own, and
so the function can run on a value that its own field refuses (`runs_on_value_refused_by_own_field`).

`runs_on_accepted_values` says what is sure.  Every value that the function runs on was accepted
by some field, by later ones for later values.  It was accepted by its own field if all parameters are
bound, or if those before it are bound and no field up to its own is optional.
-/

namespace CallSchema

variable [Host]

/-- The field's type accepts the value. -/
def Field.Accepts (registry : Registry) (field : Field) (value : Value) : Prop :=
  ∃ text, field.type = .str text ∧
    ((TypeExpr.parse text).check registry field.name value).outcome = .ok .accepted

namespace Visit

variable {registry : Registry} {view : CallView} {visit : Visit}

theorem Judged.accepts_of_takes (h : visit.Judged registry view) (htakes : visit.takes = true) :
    visit.field.Accepts registry (visit.value view) := by
  obtain ⟨field, cursor, verdict⟩ := visit
  obtain ⟨text, htext, hcheck⟩ := h
  cases verdict with
  | accepted => exact ⟨text, htext, hcheck⟩
  | refused reason soft => exact absurd htakes Bool.false_ne_true

/-- Only an optional field is passed over. -/
theorem Judged.takes_of_not_optional (h : visit.Judged registry view) (hgoes : visit.stops = false)
    (hneeded : ¬ visit.field.IsOptional) : visit.takes = true := by
  by_contra htakes
  obtain ⟨text, inner, -, htext, hparse, -⟩ :=
    h.passedOver (Bool.eq_false_iff.mpr htakes) hgoes
  exact hneeded ⟨text, inner, htext, hparse⟩

end Visit

namespace Schema.Account

variable {registry : Registry} {view : CallView} {strict : Bool} {fields : List Field}
  {visits : List Visit} {result : Match}

theorem forall₂_takers (h : Account registry view strict fields visits result) :
    List.Forall₂ (Field.Accepts registry) ((visits.filter Visit.takes).map Visit.field)
      (result.parsed.map Prod.snd) := by
  rw [h.parsed_eq, List.map_map, List.forall₂_map_left_iff, List.forall₂_map_right_iff,
    List.forall₂_same]
  intro visit hvisit
  obtain ⟨hmem, htakes⟩ := List.mem_filter.mp hvisit
  exact (h.judged visit hmem).accepts_of_takes htakes

/-- An accepting strict match took every value of the call, by fields in their order. -/
theorem exists_takers (h : Account registry view true fields visits result)
    (hok : result.ok = true) :
    ∃ takers : List Field, takers.Sublist fields ∧
      List.Forall₂ (Field.Accepts registry) takers view.values := by
  have hsize := h.size_le_of_ok hok
  have hvalues : (result.parsed.map Prod.snd).take view.size = view.values := by
    rw [h.values_eq, List.take_of_length_le hsize]
    exact List.take_left
  have hsublist : ((visits.filter Visit.takes).map Visit.field).Sublist fields :=
    (List.filter_sublist.map _).trans h.reached.sublist
  refine ⟨_, (List.take_sublist view.size _).trans hsublist, ?_⟩
  have htaken := List.forall₂_take view.size h.forall₂_takers
  rwa [hvalues] at htaken

/-- When an accepting match passes over none of the first fields, each of them took the value at its own
index. -/
theorem accepts_at_index (h : Account registry view strict fields visits result)
    (hok : result.ok = true) {before after : List Field} {field : Field}
    (hfields : fields = before ++ field :: after)
    (htakes : ∀ visit ∈ visits.take (before.length + 1), visit.takes = true) :
    field.Accepts registry (view.valueAt before.length) := by
  obtain ⟨hvisited, -⟩ := h.complete_of_ok hok
  rw [hfields] at hvisited
  obtain ⟨first, rest, rfl, rfl, hrest⟩ := List.map_eq_append_iff.mp hvisited
  obtain ⟨visit, last, rfl, rfl, -⟩ := List.map_eq_cons_iff.mp hrest
  have hfirst : (first ++ visit :: last).take (first.length + 1) = first ++ [visit] := by
    simp [List.take_append]
  rw [List.length_map, hfirst] at htakes
  -- All visits before this one took a value, so it happens at the cursor of its own index.
  have hcursor : visit.cursor = first.length := by
    rw [h.cursor_eq first visit last rfl]
    exact List.countP_eq_length.mpr fun other hmem => htakes other (List.mem_append_left _ hmem)
  rw [List.length_map, ← hcursor]
  exact (h.judged visit (by simp)).accepts_of_takes (htakes visit (by simp))

/-- An accepting strict match of as many values as there are fields passes over none. -/
theorem takes_of_full (h : Account registry view true fields visits result)
    (hok : result.ok = true) (hfull : fields.length ≤ view.size) :
    ∀ visit ∈ visits, visit.takes = true := by
  obtain ⟨hvisited, -⟩ := h.complete_of_ok hok
  have hlength : visits.length = fields.length := by rw [← hvisited, List.length_map]
  have hconsumed : result.consumed = visits.countP Visit.takes := by
    rw [h.consumed_eq, h.parsed_eq, List.length_map, List.countP_eq_length_filter]
  have hle := visits.countP_le_length (p := Visit.takes)
  have hsize := h.size_le_of_ok hok
  exact List.countP_eq_length.mp (by omega)

theorem takes_of_not_optional (h : Account registry view strict fields visits result)
    (hok : result.ok = true) {count : Nat}
    (hneeded : ∀ field ∈ fields.take count, ¬ field.IsOptional) :
    ∀ visit ∈ visits.take count, visit.takes = true := by
  obtain ⟨hvisited, hgoes⟩ := h.complete_of_ok hok
  intro visit hvisit
  have hmem : visit ∈ visits := List.mem_of_mem_take hvisit
  have hfield : visit.field ∈ fields.take count := by
    rw [← hvisited, ← List.map_take]
    exact List.mem_map_of_mem hvisit
  exact (h.judged visit hmem).takes_of_not_optional (hgoes visit hmem) (hneeded _ hfield)

end Schema.Account

namespace Guarded

variable {function : Guarded} {active : Strategy} {arguments : Arguments}

/-- The function runs when the arguments bind and the guard answers. -/
theorem outcome_validate_eq_ok_iff :
    (function.validate active arguments).outcome = .ok () ↔
      ∃ bound, function.signature.bindArguments arguments = .ok bound ∧
        ∃ parsed, (function.guard.call active (.bound function.signature bound) function.schema
          function.strict).outcome = .ok parsed := by
  unfold validate Signature.bind
  rw [Run.outcome_bind_eq_ok_iff]
  cases function.signature.bindArguments arguments with
  | error fault => simp
  | ok bound =>
      constructor
      · rintro ⟨value, hvalue, hcall⟩
        cases hvalue
        obtain ⟨parsed, hcall, -⟩ := Run.outcome_bind_eq_ok_iff.mp hcall
        exact ⟨bound, rfl, parsed, hcall⟩
      · rintro ⟨other, hother, parsed, hcall⟩
        cases hother
        exact ⟨_, rfl, Run.outcome_bind_eq_ok_iff.mpr ⟨parsed, hcall, rfl⟩⟩

/-- The schema has one field per parameter, under its name and in its place.  No parameter collects
others, and none has the arguments-object name. -/
structure Mirrors (function : Guarded) (entries : List (Value × Value)) : Prop where
  schema_eq : ∃ kind, function.schema = .record kind entries
  names_eq : entries.map Prod.fst = function.signature.map fun p => .str p.name
  plain : function.signature.Plain
  name_ne : ∀ p ∈ function.signature, p.name ≠ Registry.argumentsObjectName

variable {entries : List (Value × Value)} {bound : List (String × Value)}

omit [Host] in
theorem Mirrors.entry_name_ne (h : function.Mirrors entries) :
    ∀ entry ∈ entries, entry.1 ≠ .str Registry.argumentsObjectName := by
  intro entry hentry
  obtain ⟨p, hp, hname⟩ := List.mem_map.mp (h.names_eq ▸ List.mem_map_of_mem hentry)
  rw [← hname]
  exact fun heq => h.name_ne p hp (Value.str.inj heq)

omit [Host] in
theorem Mirrors.length_fields (h : function.Mirrors entries) :
    (Schema.fieldsOfEntries entries).length = function.signature.length := by
  have hlength := congrArg List.length h.names_eq
  rw [List.length_map, List.length_map] at hlength
  rw [Schema.fieldsOfEntries, List.length_map, hlength]

omit [Host] in
/-- The field of a parameter stands at the parameter's place. -/
theorem Mirrors.split_fields (h : function.Mirrors entries) {before after : Signature}
    {p : Parameter} (hsignature : function.signature = before ++ p :: after) :
    ∃ first field last, Schema.fieldsOfEntries entries = first ++ field :: last ∧
      first.length = before.length ∧ field.name = .str p.name := by
  have hnames : (Schema.fieldsOfEntries entries).map Field.name =
      before.map (fun p => .str p.name) ++ .str p.name :: after.map fun p => .str p.name := by
    have hentries := h.names_eq
    rw [hsignature, List.map_append, List.map_cons] at hentries
    rw [← hentries, Schema.fieldsOfEntries, List.map_map]
    rfl
  obtain ⟨first, rest, hsplit, hfirst, hrest⟩ := List.map_eq_append_iff.mp hnames
  obtain ⟨field, last, rfl, hname, -⟩ := List.map_eq_cons_iff.mp hrest
  exact ⟨first, field, last, hsplit, by simpa using congrArg List.length hfirst, hname⟩

/-- A call that runs has an accepting match of its own values. -/
theorem Mirrors.exists_accepting_match (h : function.Mirrors entries)
    (hraise : function.guard.strategy active = .raise)
    (hbound : function.signature.bindArguments arguments = .ok bound)
    (hruns : (function.validate active arguments).outcome = .ok ()) :
    ∃ view result visits, view.values = function.signature.boundValues bound ∧
      result.ok = true ∧ Schema.Account function.guard.registry view function.strict
        (Schema.fieldsOfEntries entries) visits result := by
  obtain ⟨other, hother, parsed, hcall⟩ := outcome_validate_eq_ok_iff.mp hruns
  obtain rfl : bound = other := Except.ok.inj (hbound.symm.trans hother)
  obtain ⟨result, hsettle, hact, -⟩ := Guard.outcome_call_eq_ok_iff.mp hcall
  have hok : result.ok = true := by
    rw [hraise] at hact
    cases hok : result.ok with
    | true => rfl
    | false =>
        rw [hok] at hact
        cases hact
  -- No field can hold an arguments object, so the first pass is the only one.
  obtain ⟨kind, hschema⟩ := h.schema_eq
  rw [hschema] at hsettle
  obtain ⟨earlier, last, hpasses, rfl⟩ := Guard.exists_passes hsettle
  obtain ⟨pass, hpass, hview, visits, haccount⟩ :=
    hpasses.exists_pass_of_flat (List.forall_mem_map.mpr h.entry_name_ne)
  obtain rfl : last = pass := by simpa using congrArg List.getLast? hpass
  exact ⟨last.view, last.result, visits, CallView.values_of_bound h.plain hview, hok, haccount⟩

/-- The field of the parameter's name accepts the value. -/
def OwnFieldAccepts (registry : Registry) (entries : List (Value × Value)) (p : Parameter)
    (value : Value) : Prop :=
  ∃ field ∈ Schema.fieldsOfEntries entries, field.name = .str p.name ∧
    field.Accepts registry value

/-- What a guarded function runs on, when its schema has one field per parameter and its guard is strict
and raises.  Each value was accepted by some field, the values of later parameters by later fields.  The
value of a parameter was accepted by the parameter's own field if all parameters are bound, or if all
before it are bound and no field up to its own is optional. -/
theorem runs_on_accepted_values (hmirrors : function.Mirrors entries)
    (hstrict : function.strict = true)
    (hraise : function.guard.strategy active = .raise)
    (hbound : function.signature.bindArguments arguments = .ok bound)
    (hruns : (function.validate active arguments).outcome = .ok ()) :
    (∃ takers : List Field, takers.Sublist (Schema.fieldsOfEntries entries) ∧
      List.Forall₂ (Field.Accepts function.guard.registry) takers
        (function.signature.boundValues bound)) ∧
    ∀ before p after value, function.signature = before ++ p :: after →
      bound.lookup p.name = some value →
      (∀ q ∈ function.signature, (bound.lookup q.name).isSome) ∨
        ((∀ q ∈ before, (bound.lookup q.name).isSome) ∧
          ∀ field ∈ (Schema.fieldsOfEntries entries).take (before.length + 1),
            ¬ field.IsOptional) →
      OwnFieldAccepts function.guard.registry entries p value := by
  obtain ⟨view, result, visits, hvalues, hok, haccount⟩ :=
    hmirrors.exists_accepting_match hraise hbound hruns
  rw [hstrict] at haccount
  refine ⟨hvalues ▸ haccount.exists_takers hok, ?_⟩
  intro before p after value hsignature hvalue hown
  obtain ⟨first, field, last, hfields, hlength, hname⟩ := hmirrors.split_fields hsignature
  have hbefore : ∀ q ∈ before, (bound.lookup q.name).isSome := by
    rcases hown with hall | ⟨hbefore, -⟩
    · exact fun q hmem => hall q (hsignature ▸ List.mem_append_left _ hmem)
    · exact hbefore
  have hat : view.valueAt first.length = value := by
    rw [CallView.valueAt, List.getD_eq_getElem?_getD, hvalues, hsignature, hlength,
      Signature.boundValues_getElem? hbefore hvalue, Option.getD_some]
  -- Up to the field of the parameter none was passed over.
  have htakes : ∀ visit ∈ visits.take (first.length + 1), visit.takes = true := by
    rcases hown with hall | ⟨-, hneeded⟩
    · have hsize : (Schema.fieldsOfEntries entries).length ≤ view.size := by
        rw [hmirrors.length_fields, CallView.size, hvalues, Signature.length_boundValues hall]
      exact fun visit hvisit =>
        haccount.takes_of_full hok hsize visit (List.mem_of_mem_take hvisit)
    · exact haccount.takes_of_not_optional hok (hlength ▸ hneeded)
  have hfield : field ∈ Schema.fieldsOfEntries entries :=
    hfields ▸ List.mem_append_right _ List.mem_cons_self
  exact ⟨field, hfield, hname, hat ▸ haccount.accepts_at_index hok hfields htakes⟩

theorem runs_of_passes {passes : List Guard.Pass} {last : Guard.Pass}
    (hraise : function.guard.strategy active = .raise)
    (hbound : function.signature.bindArguments arguments = .ok bound)
    (hpasses : Guard.Passes function.guard.registry (Schema.ofValue function.schema)
      function.strict (.bound function.signature bound) passes)
    (hlast : passes.getLast? = some last) (hok : last.result.ok = true) :
    (function.validate active arguments).outcome = .ok () := by
  obtain ⟨other, hother, hsettle⟩ := hpasses.settle_eq_ok
  obtain rfl : last = other := Option.some.inj (hlast.symm.trans hother)
  have hact : ((function.guard.strategy active).act
      ⟨last.result.ok, last.result.fail⟩).outcome = .ok () := by
    rw [hraise, hok]
    rfl
  exact outcome_validate_eq_ok_iff.mpr
    ⟨bound, hbound, _, Guard.outcome_call_eq_ok_iff.mpr ⟨last.result, hsettle, hact, rfl⟩⟩

/-! ## Optional fields passed over -/

/-- A parameter that can be passed either way. -/
def parameter (name : String) (isOptional : Bool) : Parameter :=
  ⟨name, .positionalOrKeyword, isOptional⟩

/-- A text, and a number and a text that may be left out. -/
def threeEntries : List (Value × Value) :=
  [(.str "a", .str "str"), (.str "b", .str "opt num"), (.str "c", .str "opt str")]

/-- A function of a text, a number and a text, guarded by its own fields. -/
def threeFunction : Guarded :=
  ⟨.standard, .record .plain threeEntries, true,
    [parameter "a" false, parameter "b" true, parameter "c" true]⟩

/-- The call without the number: the number's field is passed over. -/
def threePass : Guard.Pass :=
  ⟨.bound threeFunction.signature [("a", .str "x"), ("c", .str "y")],
    ⟨[.int 0, .str "c"], [.str "x", .str "y"]⟩,
    ⟨[(.str "a", .str "x"), (.str "c", .str "y")], none, 2⟩⟩

omit [Host] in
theorem runs_on_accepted_values_without_number :
    letI := Host.quiet
    threeFunction.Mirrors threeEntries ∧
    threeFunction.strict = true ∧
    threeFunction.guard.strategy .raise = .raise ∧
    threeFunction.signature.bindArguments ⟨[.str "x"], [("c", .str "y")]⟩ =
      .ok [("a", .str "x"), ("c", .str "y")] ∧
    (threeFunction.validate .raise ⟨[.str "x"], [("c", .str "y")]⟩).outcome = .ok () ∧
    (∃ takers : List Field, takers.Sublist (Schema.fieldsOfEntries threeEntries) ∧
      List.Forall₂ (Field.Accepts Registry.standard) takers [.str "x", .str "y"]) ∧
    OwnFieldAccepts Registry.standard threeEntries (parameter "a" false) (.str "x") := by
  let _ := Host.quiet
  have hmirrors : threeFunction.Mirrors threeEntries :=
    ⟨⟨.plain, rfl⟩, rfl, by decide, by decide⟩
  have hbound : threeFunction.signature.bindArguments ⟨[.str "x"], [("c", .str "y")]⟩ =
      .ok [("a", .str "x"), ("c", .str "y")] := by cbv
  have hpasses : Guard.Passes Registry.standard (Schema.ofValue threeFunction.schema) true
      threePass.values [threePass] := .last ⟨by cbv, by cbv⟩ (by cbv)
  have hruns : (threeFunction.validate .raise ⟨[.str "x"], [("c", .str "y")]⟩).outcome =
      .ok () := runs_of_passes rfl hbound hpasses rfl rfl
  obtain ⟨htakers, hown⟩ := runs_on_accepted_values hmirrors rfl rfl hbound hruns
  have hneeded : ∀ field ∈ (Schema.fieldsOfEntries threeEntries).take 1, ¬ field.IsOptional := by
    intro field hmem
    obtain rfl : field = ⟨.str "a", .str "str"⟩ := List.mem_singleton.mp hmem
    have hleaf : TypeExpr.parse "str" = .leaf "str" := by cbv
    rintro ⟨text, inner, ⟨⟩, hparse⟩
    rw [hleaf] at hparse
    cases hparse
  have ha : OwnFieldAccepts Registry.standard threeEntries (parameter "a" false) (.str "x") :=
    hown [] _ _ _ rfl rfl (Or.inr ⟨by simp, hneeded⟩)
  exact ⟨hmirrors, rfl, rfl, hbound, hruns, htakers, ha⟩

/-- A function of a number and a text that may both be left out, guarded by its own fields. -/
def twoFunction : Guarded :=
  ⟨.standard, .record .plain [(.str "a", .str "opt num"), (.str "b", .str "opt str")], true,
    [parameter "a" true, parameter "b" true]⟩

/-- The call with a text for the number: the number's field is passed over. -/
def twoPass : Guard.Pass :=
  ⟨.bound twoFunction.signature [("a", .str "x")], ⟨[.int 0], [.str "x"]⟩,
    ⟨[(.str "b", .str "x")], none, 1⟩⟩

omit [Host] in
/-- A guarded function can run on a value that the field of its own parameter refuses: called with a
text for `a`, it runs since the optional field of `a` is passed over and that of `b` takes the text. -/
theorem runs_on_value_refused_by_own_field :
    letI := Host.quiet
    ¬ ∀ (function : Guarded) (active : Strategy) (arguments : Arguments)
        (entries : List (Value × Value)) (bound : List (String × Value)),
      function.guard.registry = Registry.standard →
      function.Mirrors entries →
      function.strict = true →
      function.guard.strategy active = .raise →
      function.signature.bindArguments arguments = .ok bound →
      (function.validate active arguments).outcome = .ok () →
      ∀ p ∈ function.signature, ∀ value, bound.lookup p.name = some value →
        OwnFieldAccepts function.guard.registry entries p value := by
  let _ := Host.quiet
  intro h
  have hmirrors : twoFunction.Mirrors
      [(.str "a", .str "opt num"), (.str "b", .str "opt str")] :=
    ⟨⟨.plain, rfl⟩, rfl, by decide, by decide⟩
  have hbound : twoFunction.signature.bindArguments ⟨[.str "x"], []⟩ =
      .ok [("a", .str "x")] := by cbv
  have hpasses : Guard.Passes Registry.standard (Schema.ofValue twoFunction.schema) true
      twoPass.values [twoPass] := .last ⟨by cbv, by cbv⟩ (by cbv)
  have hruns : (twoFunction.validate .raise ⟨[.str "x"], []⟩).outcome = .ok () :=
    runs_of_passes rfl hbound hpasses rfl rfl
  obtain ⟨field, hfield, hname, text, htext, haccepted⟩ :=
    h twoFunction .raise _ _ _ rfl hmirrors rfl rfl hbound hruns (parameter "a" true)
      List.mem_cons_self (.str "x") rfl
  have hrefused : ((TypeExpr.parse "opt num").check Registry.standard (.str "a")
      (.str "x")).outcome =
      .ok (.refused "`a` is not number" true) := by cbv
  rcases List.mem_cons.mp hfield with rfl | hfield
  · cases htext
    cases hrefused.symm.trans haccepted
  · obtain rfl : field = ⟨.str "b", .str "opt str"⟩ := List.mem_singleton.mp hfield
    simp [parameter] at hname

end Guarded
end CallSchema
