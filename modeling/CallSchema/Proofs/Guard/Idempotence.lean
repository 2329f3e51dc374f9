import CallSchema.Proofs.Guard.PassAccount
import CallSchema.Proofs.Guard.Reruns
import CallSchema.Proofs.Schema.Locality

/-!
# Guarding the answer of a strict call

The answer of an accepted strict call is a record of the values that the last pass took, with nulls
for the arguments that were left out.  Taken as call values it has the same value at each index as the
values of that pass, and as many values as the match took (`valueAt_onParsed`), so every candidate is
matched as before and the same match is kept (`onParsed`): a strict call on the answer of a strict call
settles at once and answers the same (`strict_call_is_idempotent`).

The keys of the answer are not those of the call, though.  A value that a losing candidate leaves over is
refused by its key if that is a text, and is written if not; so a value that cannot be written makes the
second call a fault (`strict_call_on_unwritten_answer`).
-/

namespace CallSchema
namespace Guard

/-- The pass on what a pass has parsed. -/
def Pass.onParsed (pass : Pass) : Pass where
  values := .record .plain pass.result.parsed
  view := CallView.ofEntries pass.result.parsed
  result := pass.result

namespace Pass.Resolved

variable [Host] {registry : Registry} {schema : Schema} {pass : Pass}

/-- What an accepting strict pass has parsed are the values of the pass, padded with nulls. -/
theorem values_onParsed (h : pass.Resolved registry schema true) (hok : pass.result.ok = true) :
    ∃ count, pass.onParsed.view.values = pass.view.values ++ List.replicate count .null := by
  obtain ⟨fields, -, visits, haccount⟩ := h.exists_leaf_account
  have hsize := haccount.size_le_of_ok hok
  refine ⟨pass.result.consumed - pass.view.size, ?_⟩
  show pass.result.parsed.map Prod.snd = _
  rw [haccount.values_eq, List.take_of_length_le hsize]

theorem valueAt_onParsed (h : pass.Resolved registry schema true) (hok : pass.result.ok = true)
    (index : Nat) : pass.onParsed.view.valueAt index = pass.view.valueAt index := by
  obtain ⟨count, hvalues⟩ := h.values_onParsed hok
  exact CallView.valueAt_of_padded hvalues index

theorem size_onParsed (h : pass.Resolved registry schema true) :
    pass.onParsed.view.size = pass.result.consumed := by
  obtain ⟨fields, -, visits, haccount⟩ := h.exists_leaf_account
  rw [haccount.consumed_eq]
  exact List.length_map _

/-- An accepting strict pass is made again, with the same match, on what it has parsed, unless a value in
it is left over and cannot be written. -/
theorem onParsed (h : pass.Resolved registry schema true) (hok : pass.result.ok = true) :
    pass.onParsed.Resolved registry schema true ∨
      ∃ fault, Schema.UnwrittenLeftover pass.onParsed.view fault ∧
        (schema.resolve registry pass.onParsed.values true).outcome = .error fault := by
  obtain ⟨hshape, hresult⟩ := h.resolveView_eq
  rcases Schema.resolveView_strict_of_same_values (h.valueAt_onParsed hok) hresult hok
    (Nat.le_of_eq h.size_onParsed) with hagain | ⟨fault, hfault, houtcome⟩
  · exact Or.inl ⟨rfl, Schema.resolve_eq_ok_iff.mpr ⟨hshape, pass.onParsed.view, rfl, hagain⟩⟩
  · refine Or.inr ⟨fault, hfault, ?_⟩
    have hview : CallView.ofValue pass.onParsed.values = .ok pass.onParsed.view := rfl
    rw [Schema.resolve_of_view hview, hshape]
    exact houtcome

end Pass.Resolved

/-- What is left over of an answer and cannot be written stands in it under a key that is no text. -/
theorem exists_entry_of_unwrittenLeftover {parsed : List (Value × Value)} {fault : Fault}
    (h : Schema.UnwrittenLeftover (CallView.ofEntries parsed) fault) :
    ∃ entry ∈ parsed, (∀ key, entry.1 ≠ .str key) ∧ entry.2.preview = .error fault := by
  obtain ⟨index, hlt, hreason⟩ := h
  obtain ⟨hkey, hpreview⟩ := Match.leftoverReason_eq_error_iff.mp hreason
  replace hlt : index < parsed.length := by simpa [CallView.size, CallView.ofEntries] using hlt
  refine ⟨parsed[index], List.getElem_mem hlt, ?_, ?_⟩
  · simpa [CallView.keyAt, CallView.ofEntries, hlt] using hkey
  · simpa [CallView.valueAt, CallView.ofEntries, hlt] using hpreview

variable [Host]

/-- A strict call on what an accepted strict call has answered is reported as accepted and answers the
same arguments, in the same order and with the same values, and it is settled in a single pass; unless
the answer holds a value, under a key that is no text, which cannot be written, and the call ends in the
fault of writing it. -/
theorem strict_call_is_idempotent {guard : Guard} {active : Strategy} {values schema : Value}
    {parsed : List (Value × Value)} {reason : Option String}
    (hreported : Event.reported (guard.strategy active) ⟨true, reason⟩ ∈
      (guard.call active values schema true).events)
    (hanswer : (guard.call active values schema true).outcome = .ok parsed) :
    ((guard.call active (.record .plain parsed) schema true).outcome = .ok parsed ∧
      Event.reported (guard.strategy active) ⟨true, none⟩ ∈
        (guard.call active (.record .plain parsed) schema true).events ∧
      ∃ pass,
        Passes guard.registry (Schema.ofValue schema) true (.record .plain parsed) [pass]) ∨
    ∃ entry ∈ parsed, ∃ fault, (∀ key, entry.1 ≠ .str key) ∧ entry.2.preview = .error fault ∧
      fault.FromText ∧
      (guard.call active (.record .plain parsed) schema true).outcome = .error fault ∧
      (guard.call active (.record .plain parsed) schema true).reports = [] := by
  obtain ⟨result, hsettle, hact, rfl⟩ := outcome_call_eq_ok_iff.mp hanswer
  obtain ⟨other, hother, -, hreport⟩ := mem_reported_call_iff.mp hreported
  obtain rfl : result = other := Except.ok.inj (hsettle.symm.trans hother)
  have hok : result.ok = true := (congrArg Report.ok hreport).symm
  obtain ⟨earlier, last, hpasses, rfl⟩ := exists_passes hsettle
  have hlast := hpasses.resolved last (List.mem_append_right _ (List.mem_singleton.mpr rfl))
  rcases hlast.onParsed hok with hresolved | ⟨fault, hfault, houtcome⟩
  · -- The match of the last pass holds no arguments object, and neither does that of the pass on it.
    have hagain : Passes guard.registry (Schema.ofValue schema) true last.onParsed.values
        [last.onParsed] := .last hresolved hpasses.last_object
    obtain ⟨_, hfinal, hsettled⟩ := hagain.settle_eq_ok
    cases hfinal
    exact Or.inl ⟨outcome_call_eq_ok_iff.mpr ⟨last.result, hsettled, hact, rfl⟩,
      hagain.reported guard active rfl hok, last.onParsed, hagain⟩
  · obtain ⟨entry, hentry, hkey, hpreview⟩ := exists_entry_of_unwrittenLeftover hfault
    obtain ⟨hends, hreports⟩ := call_of_reached_fault active .refl houtcome
    exact Or.inr ⟨entry, hentry, fault, hkey, hpreview, Value.fromText_of_preview hpreview, hends,
      hreports⟩

/-! ## A record with an argument left out -/

/-- A text and, if one wants, a number; or a lone record of them. -/
def partialSchema : Value :=
  .seq .list [argumentsObjectSchema,
    .record .plain [(.str "a", .str "str"), (.str "b", .str "opt num")]]

/-- A record of the text alone. -/
def partialRecord : Value := .record .plain [(.str "a", .str "x")]

/-- The pass on the record takes its only field, and a null for the number. -/
def partialPass : Pass :=
  ⟨partialRecord, ⟨[.str "a"], [.str "x"]⟩, ⟨[(.str "a", .str "x"), (.str "b", .null)], none, 2⟩⟩

/-- The pass on the lone record takes it for the arguments of the call. -/
def lonePartialPass : Pass :=
  ⟨.seq .list [partialRecord], ⟨[.int 0], [partialRecord]⟩,
    ⟨[(.str Registry.argumentsObjectName, partialRecord)], none, 1⟩⟩

theorem passes_partialRecord :
    Passes Registry.standard (Schema.ofValue partialSchema) true lonePartialPass.values
      [lonePartialPass, partialPass] := by
  have hrecord : Passes Registry.standard (Schema.ofValue partialSchema) true partialPass.values
      [partialPass] := .last ⟨rfl, by cbv⟩ (by cbv)
  exact .again ⟨rfl, by cbv⟩ (by cbv) hrecord

omit [Host] in
theorem strict_call_is_idempotent_partialRecord :
    letI := Host.quiet
    Event.reported (standard.strategy .raise) ⟨true, none⟩ ∈
      (standard.call .raise (.seq .list [partialRecord]) partialSchema true).events ∧
    (standard.call .raise (.seq .list [partialRecord]) partialSchema true).outcome =
      .ok [(.str "a", .str "x"), (.str "b", .null)] ∧
    (standard.call .raise (.record .plain [(.str "a", .str "x"), (.str "b", .null)]) partialSchema
      true).outcome = .ok [(.str "a", .str "x"), (.str "b", .null)] ∧
    Event.reported (standard.strategy .raise) ⟨true, none⟩ ∈
      (standard.call .raise (.record .plain [(.str "a", .str "x"), (.str "b", .null)])
        partialSchema true).events ∧
    ∃ pass, Passes standard.registry (Schema.ofValue partialSchema) true
      (.record .plain [(.str "a", .str "x"), (.str "b", .null)]) [pass] := by
  let _ := Host.quiet
  have hreported : Event.reported (standard.strategy .raise) ⟨true, none⟩ ∈
      (standard.call .raise (.seq .list [partialRecord]) partialSchema true).events :=
    passes_partialRecord.reported standard .raise rfl rfl
  have hanswer : (standard.call .raise (.seq .list [partialRecord]) partialSchema true).outcome =
      .ok [(.str "a", .str "x"), (.str "b", .null)] := by
    obtain ⟨last, hlast, hsettle⟩ := passes_partialRecord.settle_eq_ok
    cases hlast
    exact outcome_call_eq_ok_iff.mpr ⟨_, hsettle, rfl, rfl⟩
  refine ⟨hreported, hanswer, ?_⟩
  -- All keys of the answer are texts.
  rcases strict_call_is_idempotent hreported hanswer with hagain | ⟨entry, hentry, _, hkey, -⟩
  · exact hagain
  · rcases List.mem_cons.mp hentry with rfl | hentry
    · exact absurd rfl (hkey "a")
    · obtain rfl := List.mem_singleton.mp hentry
      exact absurd rfl (hkey "b")

/-! ## A number that cannot be written -/

/-- No argument, or a number under a number. -/
def numberedSchema : Value :=
  .seq .list [.record .plain [], .record .plain [(.int 1, .str "num")]]

/-- A number under a name. -/
def namedNumber (n : Int) : Value := .record .plain [(.str "k", .int n)]

/-- The pass on a named number takes it under the number of the schema. -/
def namedNumberPass (n : Int) : Pass :=
  ⟨namedNumber n, ⟨[.str "k"], [.int n]⟩, ⟨[(.int 1, .int n)], none, 1⟩⟩

/-- The fields that take no argument refuse a named number by its name, also one that cannot be written. -/
theorem passes_namedNumber (n : Int) :
    Passes Registry.standard (Schema.ofValue numberedSchema) true (namedNumberPass n).values
      [namedNumberPass n] := .last ⟨rfl, by cbv⟩ (by cbv)

omit [Host] in
/-- In the answer the least number that is not written out stands under a number, and the fields that take
no argument cannot refuse it: the same call on the answer is a fault. -/
theorem strict_call_on_unwritten_answer :
    letI := Host.quiet
    (standard.call .raise (namedNumber digitBound) numberedSchema true).outcome =
      .ok [(.int 1, .int digitBound)] ∧
    Event.reported (standard.strategy .raise) ⟨true, none⟩ ∈
      (standard.call .raise (namedNumber digitBound) numberedSchema true).events ∧
    (standard.call .raise (.record .plain [(.int 1, .int digitBound)]) numberedSchema true).outcome =
      .error .tooManyDigits := by
  let _ := Host.quiet
  obtain ⟨last, hlast, hsettle⟩ := (passes_namedNumber digitBound).settle_eq_ok
  cases hlast
  refine ⟨outcome_call_eq_ok_iff.mpr ⟨_, hsettle, rfl, rfl⟩,
    (passes_namedNumber digitBound).reported standard .raise rfl rfl, ?_⟩
  have hreason : Match.leftoverReason ⟨[.int 1], [.int digitBound]⟩ 0 = .error .tooManyDigits :=
    Match.leftoverReason_eq_error_iff.mpr ⟨nofun, Value.preview_digitBound⟩
  have hfirst : (Schema.matchFields Registry.standard ⟨[.int 1], [.int digitBound]⟩ true []).outcome =
      .error .tooManyDigits := Schema.matchFields_of_unwritten rfl rfl Nat.zero_lt_one hreason
  refine (call_of_reached_fault .raise .refl ?_).1
  have hview : CallView.ofValue (.record .plain [(.int 1, .int digitBound)]) =
      .ok ⟨[.int 1], [.int digitBound]⟩ := rfl
  rw [Schema.resolve_of_view hview]
  show (Schema.resolveView Registry.standard _ true (.oneOf [.flat [], _])).outcome = _
  rw [Schema.resolveView, Schema.resolveEach, Schema.resolveView, Run.bind_of_error hfirst]
  rfl

end Guard
end CallSchema
