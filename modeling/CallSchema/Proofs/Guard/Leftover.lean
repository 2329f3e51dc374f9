import CallSchema.Proofs.Guard.PassAccount

/-!
# Values that a strict call leaves over

A strict match refuses values that no field took.  A guard, however, goes on to the arguments object of
a match before it looks at whether that match refuses, and reports only the last pass.  So a strict call
can be reported as accepted although an earlier pass left values over
(`strict_call_leaves_value_beside_record`).

`strict_call_takes_all_iff` says exactly when no pass does.  A pass that accepts its values takes them
all, and so the last pass of a call that is reported as accepted always does.  An earlier pass that
refuses its values takes them all exactly when the field that refuses was reached past the last of them.
-/

namespace CallSchema
namespace Guard

/-- The match of the pass consumed at least as many fields as the pass has values. -/
def Pass.TakesAll (pass : Pass) : Prop := pass.view.size ≤ pass.result.consumed

variable [Host]

/-- The match of the pass is that of a leaf of the schema, whose walk was stopped by a field that was
reached past the last value. -/
def Pass.RefusedPastEnd (registry : Registry) (schema : Schema) (pass : Pass) : Prop :=
  ∃ fields ∈ schema.leaves, ∃ before last,
    Schema.Account registry pass.view true fields (before ++ [last]) pass.result ∧
      last.stops = true ∧ pass.view.size ≤ last.cursor

variable {registry : Registry} {schema : Schema} {strict : Bool} {values : Value}
  {passes earlier : List Pass} {pass last : Pass}

/-- A strict pass takes all values exactly when it accepts them, or when it refuses them because of a
field that was reached past the last one. -/
theorem Pass.Resolved.takesAll_iff (h : pass.Resolved registry schema true) :
    pass.TakesAll ↔ pass.result.ok = true ∨ pass.RefusedPastEnd registry schema := by
  constructor
  · intro htakes
    obtain ⟨fields, hfields, visits, haccount⟩ := h.exists_leaf_account
    cases hfail : pass.result.fail with
    | none => exact Or.inl (Match.ok_eq_true_iff.mpr hfail)
    | some reason =>
        rcases haccount.fail_eq_some reason hfail with
          ⟨before, last, hvisits, -, hcursor, hverdict⟩ | ⟨-, -, -, hlt, -⟩
        · subst hvisits
          refine Or.inr ⟨fields, hfields, before, last, haccount,
            Visit.stops_of_verdict hverdict, ?_⟩
          rw [hcursor]
          exact htakes
        · -- Refused for a value left over, the pass did not take all.
          exact absurd htakes (Nat.not_le_of_lt hlt)
  · rintro (hok | ⟨fields, -, before, last, haccount, hstops, hcursor⟩)
    · obtain ⟨fields, -, visits, haccount⟩ := h.exists_leaf_account
      exact haccount.size_le_of_ok hok
    · have hmem : last ∈ before ++ [last] := List.mem_append_right _ (List.mem_singleton.mpr rfl)
      -- The account tells why the match refuses; only the field that stopped the walk can be why.
      cases hfail : pass.result.fail with
      | none =>
          have hgoes := (haccount.fail_eq_none_iff.mp hfail).1.2 last hmem
          rw [hgoes] at hstops
          cases hstops
      | some reason =>
          rcases haccount.fail_eq_some reason hfail with
            ⟨before', last', hvisits, -, hconsumed, -⟩ | ⟨-, -, hgoes, -, -⟩
          · obtain ⟨-, hlast⟩ := List.append_inj' hvisits rfl
            obtain ⟨rfl, -⟩ := List.cons.inj hlast
            rw [Pass.TakesAll, ← hconsumed]
            exact hcursor
          · rw [hgoes last hmem] at hstops
            cases hstops

/-- What a strict call that is reported as accepted has taken.  Its last pass accepts.  None of its
passes (they are unique, `Passes.unique`) leaves values over if and only if each earlier one accepts its
values or refuses them because of a field that was reached past the last one.  In particular a lone
value is never left over. -/
theorem strict_call_takes_all_iff {guard : Guard} {active : Strategy} {schema : Value}
    {reason : Option String}
    (h : Event.reported (guard.strategy active) ⟨true, reason⟩ ∈
      (guard.call active values schema true).events) :
    ∃ earlier last,
      Passes guard.registry (Schema.ofValue schema) true values (earlier ++ [last]) ∧
      last.result.ok = true ∧
      ((∀ pass ∈ earlier ++ [last], pass.TakesAll) ↔
        ∀ pass ∈ earlier, pass.result.ok = true ∨
          pass.RefusedPastEnd guard.registry (Schema.ofValue schema)) ∧
      (∀ pass ∈ earlier, pass.view.size ≤ 1 → pass.TakesAll) := by
  obtain ⟨result, hsettle, -, hreport⟩ := mem_reported_call_iff.mp h
  obtain ⟨earlier, last, hpasses, rfl⟩ := exists_passes hsettle
  have hok : last.result.ok = true := (congrArg Report.ok hreport).symm
  have hresolved := hpasses.resolved
  have hlast := hresolved last (List.mem_append_right _ (List.mem_singleton.mpr rfl))
  have hearlier := fun pass hmem => hresolved pass (List.mem_append_left [last] hmem)
  refine ⟨earlier, last, hpasses, hok, ⟨?_, ?_⟩, ?_⟩
  · intro hall pass hmem
    exact (hearlier pass hmem).takesAll_iff.mp (hall pass (List.mem_append_left _ hmem))
  · intro hall pass hmem
    rcases List.mem_append.mp hmem with hmem | hmem
    · exact (hearlier pass hmem).takesAll_iff.mpr (hall pass hmem)
    · rw [List.mem_singleton.mp hmem]
      exact hlast.takesAll_iff.mpr (Or.inl hok)
  · intro pass hmem hlone
    obtain ⟨object, hobject⟩ := hpasses.exists_object pass hmem
    exact Nat.le_trans hlone ((hearlier pass hmem).consumed_pos hobject)

/-! ## A record that is passed through -/

def sampleRecord : Value := .record .plain [(.str "a", .str "x"), (.str "b", .int 1)]

/-- The two fields, or a lone record of them. -/
def sampleSchema : Value :=
  .seq .list [argumentsObjectSchema,
    .record .plain [(.str "a", .str "str"), (.str "b", .str "num")]]

/-- The pass on the record itself accepts it. -/
def recordPass : Pass :=
  ⟨sampleRecord, ⟨[.str "a", .str "b"], [.str "x", .int 1]⟩,
    ⟨[(.str "a", .str "x"), (.str "b", .int 1)], none, 2⟩⟩

/-- The pass on a lone record takes it for the arguments object. -/
def lonePass : Pass :=
  ⟨.seq .list [sampleRecord], ⟨[.int 0], [sampleRecord]⟩,
    ⟨[(.str Registry.argumentsObjectName, sampleRecord)], none, 1⟩⟩

/-- The pass on a record with a text beside it takes the record and refuses the text. -/
def besidePass : Pass :=
  ⟨.seq .list [sampleRecord, .str "extra"], ⟨[.int 0, .int 1], [sampleRecord, .str "extra"]⟩,
    ⟨[(.str Registry.argumentsObjectName, sampleRecord)], some "Unexpected argument \"extra\"", 1⟩⟩

theorem passes_recordPass :
    Passes Registry.standard (Schema.ofValue sampleSchema) true recordPass.values [recordPass] :=
  .last ⟨rfl, by cbv⟩ (by cbv)

/-- A lone record is accepted in two passes that leave nothing over. -/
theorem passes_lonePass :
    Passes Registry.standard (Schema.ofValue sampleSchema) true lonePass.values
      [lonePass, recordPass] :=
  .again ⟨rfl, by cbv⟩ (by cbv) passes_recordPass

/-- A record with a text beside it is accepted in two passes, the first of which refuses. -/
theorem passes_besidePass :
    Passes Registry.standard (Schema.ofValue sampleSchema) true besidePass.values
      [besidePass, recordPass] :=
  .again ⟨rfl, by cbv⟩ (by cbv) passes_recordPass

omit [Host] in
theorem strict_call_takes_all_iff_lone_record :
    letI := Host.quiet
    Event.reported (standard.strategy .raise) ⟨true, none⟩ ∈
      (standard.call .raise lonePass.values sampleSchema true).events ∧
    ∃ earlier last,
      Passes standard.registry (Schema.ofValue sampleSchema) true lonePass.values
        (earlier ++ [last]) ∧
      last.result.ok = true ∧
      ((∀ pass ∈ earlier ++ [last], pass.TakesAll) ↔
        ∀ pass ∈ earlier, pass.result.ok = true ∨
          pass.RefusedPastEnd standard.registry (Schema.ofValue sampleSchema)) ∧
      (∀ pass ∈ earlier, pass.view.size ≤ 1 → pass.TakesAll) := by
  let _ := Host.quiet
  have h : Event.reported (standard.strategy .raise) ⟨true, none⟩ ∈
      (standard.call .raise lonePass.values sampleSchema true).events :=
    Passes.reported standard .raise passes_lonePass rfl rfl
  exact ⟨h, strict_call_takes_all_iff h⟩

omit [Host] in
/-- A strict call can be reported as accepted although one of its passes left a value over: the text
beside the record is neither parsed nor reported. -/
theorem strict_call_leaves_value_beside_record :
    letI := Host.quiet
    ¬ ∀ (guard : Guard) (active : Strategy) (values schema : Value) (reason : Option String)
        (passes : List Pass),
      Event.reported (guard.strategy active) ⟨true, reason⟩ ∈
        (guard.call active values schema true).events →
      Passes guard.registry (Schema.ofValue schema) true values passes →
      ∀ pass ∈ passes, pass.TakesAll := by
  let _ := Host.quiet
  intro h
  have hreported : Event.reported (standard.strategy .raise) ⟨true, none⟩ ∈
      (standard.call .raise besidePass.values sampleSchema true).events :=
    Passes.reported standard .raise passes_besidePass rfl rfl
  have htakes : (2 : Nat) ≤ 1 :=
    h standard .raise besidePass.values sampleSchema none [besidePass, recordPass] hreported
      passes_besidePass besidePass List.mem_cons_self
  omega

end Guard
end CallSchema
