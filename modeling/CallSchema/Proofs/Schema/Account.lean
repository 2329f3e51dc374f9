import CallSchema.Proofs.Schema.Strictness
import CallSchema.Proofs.Schema.Walk
import CallSchema.Registry.Standard
import Mathlib

/-!
# The account of a match

What a match of a call against fields says about the call, over the visits of its walk (`Account`):
which fields took which values, which fields were passed over, and why the call was refused if it was.
No value is lost, repeated or taken out of order: the values taken are the first ones of the call, with
nulls past its end.
-/

namespace CallSchema
namespace CallView

/-- The first values of a call, padded with nulls past the end. -/
theorem map_valueAt_range (view : CallView) (count : Nat) :
    (List.range count).map view.valueAt =
      view.values.take count ++ List.replicate (count - view.size) .null := by
  apply List.ext_getElem
  · simp only [List.length_map, List.length_range, List.length_append, List.length_take,
      List.length_replicate, CallView.size]
    omega
  · intro index hleft hright
    rw [List.getElem_map, List.getElem_range, CallView.valueAt, List.getD_eq_getElem?_getD]
    have hcount : index < count := by simpa using hleft
    by_cases hindex : index < view.values.length
    · rw [List.getElem_append_left (by rw [List.length_take]; omega), List.getElem_take,
        List.getElem?_eq_getElem hindex, Option.getD_some]
    · rw [List.getElem_append_right (by rw [List.length_take]; omega), List.getElem_replicate,
        List.getElem?_eq_none (by omega), Option.getD_none]

end CallView

namespace Schema

variable [Host]

/-- The account of a match of a call against fields, over the visits of the walk. -/
structure Account (registry : Registry) (view : CallView) (strict : Bool) (fields : List Field)
    (visits : List Visit) (result : Match) : Prop where
  /-- The fields visited are the first ones, in order. -/
  reached : visits.map Visit.field <+: fields
  judged : ∀ visit ∈ visits, visit.Judged registry view
  /-- A field is judged on the value behind those that fields before it took. -/
  cursor_eq : ∀ before visit after, visits = before ++ visit :: after →
    visit.cursor = before.countP Visit.takes
  parsed_eq : result.parsed = (visits.filter Visit.takes).map (Visit.pair view)
  consumed_eq : result.consumed = result.parsed.length
  names_sublist : (result.parsed.map Prod.fst).Sublist (fields.map Field.name)
  value_at : ∀ index, index < result.consumed →
    (result.parsed[index]?).map Prod.snd = some (view.valueAt index)
  values_eq : result.parsed.map Prod.snd =
    view.values.take result.consumed ++ List.replicate (result.consumed - view.size) .null
  accepted : ∀ entry ∈ result.parsed, ∃ field ∈ fields, ∃ text,
    field.name = entry.1 ∧ field.type = .str text ∧
      ((TypeExpr.parse text).check registry field.name entry.2).outcome = .ok .accepted
  passedOver : ∀ visit ∈ visits, visit.takes = false → visit.stops = false →
    visit.PassedOver registry view
  /-- A call is accepted when every field was visited, none stopped the walk and, in a strict match, no
  value is left over. -/
  fail_eq_none_iff : result.fail = none ↔
    (visits.map Visit.field = fields ∧ ∀ visit ∈ visits, visit.stops = false) ∧
      (strict = true → view.size ≤ result.consumed)
  /-- A call is refused for the reason of the field that stopped the walk or, if none did and the match
  is strict, for the first value left over. -/
  fail_eq_some : ∀ reason, result.fail = some reason →
    (∃ before last, visits = before ++ [last] ∧ (∀ visit ∈ before, visit.stops = false) ∧
      last.cursor = result.consumed ∧ last.verdict = .refused reason false) ∨
    (strict = true ∧ visits.map Visit.field = fields ∧
      (∀ visit ∈ visits, visit.stops = false) ∧ result.consumed < view.size ∧
      Match.leftoverReason view result.consumed = .ok reason)

variable {registry : Registry} {view : CallView} {strict : Bool} {fields : List Field}
  {visits : List Visit} {walked result : Match}

/-- The values that a walk from the start took. -/
theorem Walked.values_eq_range (h : Walked registry view 0 fields visits walked) :
    walked.parsed.map Prod.snd = (List.range walked.consumed).map view.valueAt := by
  have hcursor := map_cursor_filter_takes h.cursor_eq
  rw [h.parsed_eq, h.consumed_eq, Nat.zero_add, List.range_eq_range', ← hcursor, List.map_map,
    List.map_map]
  rfl

theorem Walked.consumed_eq_length (h : Walked registry view 0 fields visits walked) :
    walked.consumed = walked.parsed.length := by
  rw [h.consumed_eq, h.parsed_eq, List.length_map, Nat.zero_add, List.countP_eq_length_filter]

theorem Walked.names_sublist (h : Walked registry view 0 fields visits walked) :
    (walked.parsed.map Prod.fst).Sublist (fields.map Field.name) := by
  have htaken : ((visits.filter Visit.takes).map Visit.field).Sublist fields :=
    (List.filter_sublist.map _).trans h.ending.reached.sublist
  rw [h.parsed_eq, List.map_map]
  have hnames := htaken.map Field.name
  rwa [List.map_map] at hnames

/-- What was parsed was accepted by the expression of its own field. -/
theorem Walked.accepted (h : Walked registry view 0 fields visits walked) :
    ∀ entry ∈ walked.parsed, ∃ field ∈ fields, ∃ text,
      field.name = entry.1 ∧ field.type = .str text ∧
        ((TypeExpr.parse text).check registry field.name entry.2).outcome =
          .ok .accepted := by
  intro entry hentry
  rw [h.parsed_eq] at hentry
  obtain ⟨visit, hvisit, rfl⟩ := List.mem_map.mp hentry
  obtain ⟨hmem, htakes⟩ := List.mem_filter.mp hvisit
  have hfield : visit.field ∈ fields :=
    h.ending.reached.subset (List.mem_map.mpr ⟨visit, hmem, rfl⟩)
  obtain ⟨text, htext, hcheck⟩ := h.judged visit hmem
  obtain ⟨field, cursor, verdict⟩ := visit
  cases verdict with
  | accepted => exact ⟨field, hfield, text, rfl, htext, hcheck⟩
  | refused reason soft => exact absurd htakes Bool.false_ne_true

/-- The visit that stops a walk happens at the last cursor. -/
theorem Walked.cursor_of_stopped (h : Walked registry view 0 fields visits walked)
    {before : List Visit} {last : Visit} (hvisits : visits = before ++ [last])
    (hstops : last.stops = true) : last.cursor = walked.consumed := by
  have hneg : ¬ last.takes = true := by
    rw [Visit.takes_eq_false_of_stops hstops]
    exact Bool.false_ne_true
  rw [h.cursor_eq before last [] hvisits, h.consumed_eq, hvisits, List.countP_append,
    List.countP_cons_of_neg hneg, List.countP_nil]
  omega

/-- Why a match refuses: the last visit stopped the walk, or no visit did and a value is left over. -/
theorem Walked.refusal (h : Walked registry view 0 fields visits walked)
    (hresult : walked.conclude view strict = .ok result) {reason : String}
    (hreason : result.fail = some reason) :
    (∃ before last, visits = before ++ [last] ∧ (∀ visit ∈ before, visit.stops = false) ∧
      last.cursor = walked.consumed ∧ last.verdict = .refused reason false) ∨
    (strict = true ∧ visits.map Visit.field = fields ∧
      (∀ visit ∈ visits, visit.stops = false) ∧ walked.consumed < view.size ∧
      Match.leftoverReason view walked.consumed = .ok reason) := by
  have hending := h.ending
  rcases Match.conclude_eq_ok_iff.mp hresult with
    ⟨rfl, -⟩ | ⟨hstrict, hfail, hlt, other, hleft, rfl⟩
  · rw [hreason] at hending
    obtain ⟨before, last, hvisits, hgoes, hverdict⟩ := hending.eq_some
    have hcursor := h.cursor_of_stopped hvisits (Visit.stops_of_verdict hverdict)
    exact Or.inl ⟨before, last, hvisits, hgoes, hcursor, hverdict⟩
  · obtain ⟨hall, hgoes⟩ := hending.fail_eq_none_iff.mp hfail
    obtain rfl : other = reason := Option.some.inj hreason
    exact Or.inr ⟨hstrict, hall, hgoes, hlt, hleft⟩

/-- A walk from the start gives the account of the match that it comes to. -/
theorem Walked.account (h : Walked registry view 0 fields visits walked)
    (hresult : walked.conclude view strict = .ok result) :
    Account registry view strict fields visits result := by
  have hconclude := Match.conclude_eq_ok_iff.mp hresult
  have hparsed : result.parsed = walked.parsed := by
    rcases hconclude with ⟨rfl, -⟩ | ⟨-, -, -, reason, -, rfl⟩ <;> rfl
  have hconsumed : result.consumed = walked.consumed := by
    rcases hconclude with ⟨rfl, -⟩ | ⟨-, -, -, reason, -, rfl⟩ <;> rfl
  exact {
    reached := h.ending.reached
    judged := h.judged
    cursor_eq := by
      intro before visit after heq
      rw [h.cursor_eq before visit after heq, Nat.zero_add]
    parsed_eq := by rw [hparsed, h.parsed_eq]
    consumed_eq := by rw [hparsed, hconsumed, h.consumed_eq_length]
    names_sublist := hparsed ▸ h.names_sublist
    value_at := by
      intro index hindex
      rw [hconsumed] at hindex
      rw [hparsed, ← List.getElem?_map, h.values_eq_range, List.getElem?_map,
        List.getElem?_range hindex, Option.map_some]
    values_eq := by
      rw [hparsed, hconsumed, h.values_eq_range, CallView.map_valueAt_range]
    accepted := hparsed ▸ h.accepted
    passedOver := by
      intro visit hmem htakes hstops
      exact (h.judged visit hmem).passedOver htakes hstops
    fail_eq_none_iff := by
      rw [hconsumed, ← h.ending.fail_eq_none_iff]
      rcases hconclude with ⟨rfl, hle⟩ | ⟨rfl, hfail, hlt, reason, -, rfl⟩
      · exact ⟨fun hfail => ⟨hfail, fun hstrict => hle hstrict hfail⟩, And.left⟩
      · exact iff_of_false nofun fun hall => Nat.not_lt.mpr (hall.2 rfl) hlt
    fail_eq_some := by
      intro reason hreason
      rw [hconsumed]
      exact h.refusal hresult hreason
  }

/-- Every match of a view against fields has its account. -/
theorem exists_account_of_matchFields
    (h : (matchFields registry view strict fields).outcome = .ok result) :
    ∃ visits, Account registry view strict fields visits result := by
  obtain ⟨walked, hwalked, hresult⟩ := Run.outcome_bind_eq_ok_iff.mp h
  obtain ⟨visits, hvisits⟩ := exists_walked hwalked
  exact ⟨visits, hvisits.account hresult⟩

/-- An accepting match visited every field, and none stopped its walk. -/
theorem Account.complete_of_ok (h : Account registry view strict fields visits result)
    (hok : result.ok = true) :
    visits.map Visit.field = fields ∧ ∀ visit ∈ visits, visit.stops = false :=
  (h.fail_eq_none_iff.mp (Match.ok_eq_true_iff.mp hok)).1

theorem Account.size_le_of_ok (h : Account registry view true fields visits result)
    (hok : result.ok = true) : view.size ≤ result.consumed :=
  (h.fail_eq_none_iff.mp (Match.ok_eq_true_iff.mp hok)).2 rfl

/-- Every match of call values against fields has its account: what was parsed are the first values of
the call under names of fields in their order, each accepted by its own field; a field that took no
value was passed over as an optional one; and the reason of a refusal is that of the field that stopped
the walk, or of the first value left over. -/
theorem exists_account {values : Value}
    (h : ((flat fields).resolve registry values strict).outcome = .ok result) :
    ∃ view visits, CallView.ofValue values = .ok view ∧
      Account registry view strict fields visits result := by
  obtain ⟨view, hview, hmatch⟩ := Run.outcome_bind_eq_ok_iff.mp h
  obtain ⟨visits, haccount⟩ := exists_account_of_matchFields hmatch
  exact ⟨view, visits, hview, haccount⟩

omit [Host] in
/-- The first optional field is passed over, the text it refuses goes to the second, and the null behind
it is left over. -/
theorem exists_account_of_passed_over :
    letI := Host.quiet
    ((flat [⟨.str "port", .str "opt num"⟩, ⟨.str "host", .str "str"⟩]).resolve Registry.standard
      (.seq .list [.str "x", .null]) true).outcome =
        .ok ⟨[(.str "host", .str "x")], some "Unexpected argument \"None\"", 1⟩ ∧
    ∃ view visits, CallView.ofValue (.seq .list [.str "x", .null]) = .ok view ∧
      Account Registry.standard view true
        [⟨.str "port", .str "opt num"⟩, ⟨.str "host", .str "str"⟩] visits
        ⟨[(.str "host", .str "x")], some "Unexpected argument \"None\"", 1⟩ := by
  let _ := Host.quiet
  have h : ((flat [⟨.str "port", .str "opt num"⟩, ⟨.str "host", .str "str"⟩]).resolve
      Registry.standard (.seq .list [.str "x", .null]) true).outcome =
        .ok ⟨[(.str "host", .str "x")], some "Unexpected argument \"None\"", 1⟩ := by cbv
  exact ⟨h, exists_account h⟩

end Schema
end CallSchema
