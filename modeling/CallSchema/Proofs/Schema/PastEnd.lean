import CallSchema.Proofs.Registry.Refusal
import CallSchema.Proofs.Schema.Absence
import CallSchema.Proofs.Schema.Composition

/-!
# Fields past the end of a call

Where no matcher accepts null, only an optional keyword makes an expression accept it: one in front of the
whole, or one in front of an operand of a union (`exists_verdict_on_null`).  An optional keyword inside an
array is of no use, as null is no array.

Past the end of a call every field is checked on null.  So the fields that take a place there are those
with an optional keyword, and a field without one ends the match with a hard refusal
(`past_end_takes_optional`).  The refusal cites the name of the field, which can be written if it is a text,
as it should be.
-/

namespace CallSchema

open Registry (RefusesNull)

/-! ## Expressions on null -/

namespace TypeExpr

/-- The operands of a chain of unions; an expression that is no union is its own only operand. -/
def operands : TypeExpr → List TypeExpr
  | union left right _ _ => left.operands ++ right.operands
  | expr => [expr]

/-- The expression is optional at its root, or an operand of its chain of unions is. -/
def HasOptionalOperand (expr : TypeExpr) : Prop :=
  ∃ operand ∈ expr.operands, operand.isOptional = true

instance (expr : TypeExpr) : Decidable expr.HasOptionalOperand :=
  inferInstanceAs (Decidable (∃ operand ∈ expr.operands, operand.isOptional = true))

theorem hasOptionalOperand_union_iff {left right : TypeExpr} {leftText rightText : String} :
    (union left right leftText rightText).HasOptionalOperand ↔
      left.HasOptionalOperand ∨ right.HasOptionalOperand := by
  simp only [HasOptionalOperand, operands, List.mem_append, or_and_right, exists_or]

variable [Host] {registry : Registry} {argument : Value} {expr : TypeExpr}

/-- Where no matcher accepts null, only an optional operand does. -/
theorem AnswersNull.hasOptionalOperand (h : AnswersNull registry argument expr true)
    (hregistry : registry.RefusesNull) : expr.HasOptionalOperand := by
  generalize hanswer : true = answer at h
  induction h with
  | @leaf name resolution answer hresolve hask hwritten =>
      obtain ⟨found, hfound, hrefuses, -⟩ := hregistry name
      obtain rfl := Except.ok.inj (hresolve.symm.trans hfound)
      cases hanswer.trans (Except.ok.inj (hask.symm.trans hrefuses))
  | optional h ih => exact ⟨_, List.mem_singleton_self _, rfl⟩
  | left right leftText rightText h ih => exact hasOptionalOperand_union_iff.mpr (Or.inl (ih rfl))
  | right leftText rightText hleft hright ihleft ihright =>
      exact hasOptionalOperand_union_iff.mpr (Or.inr (ihright hanswer))
  | array member memberText hresolve hask hargument hname => cases hanswer

/-- Where no matcher accepts null, an expression answers on null by its optional operands, for an argument
whose name can be written. -/
theorem answersNull_of_refusesNull (hregistry : registry.RefusesNull) (hproper : expr.isProper = true)
    (hargument : argument.Writable) :
    AnswersNull registry argument expr (decide expr.HasOptionalOperand) := by
  induction expr with
  | leaf name =>
      obtain ⟨resolution, hresolve, hask, hname⟩ := hregistry name
      exact .leaf hresolve hask fun _ => ⟨hargument, hname⟩
  | optional inner ih => exact .optional (ih hproper)
  | union left right leftText rightText ihleft ihright =>
      obtain ⟨hleft, hright⟩ := Bool.and_eq_true_iff.mp hproper
      have hleftAnswer := ihleft hleft
      have hrightAnswer := ihright hright
      by_cases h : left.HasOptionalOperand
      · rw [decide_eq_true h] at hleftAnswer
        rw [decide_eq_true (hasOptionalOperand_union_iff.mpr (Or.inl h))]
        exact .left right leftText rightText hleftAnswer
      · rw [decide_eq_false h] at hleftAnswer
        have hboth : (union left right leftText rightText).HasOptionalOperand ↔
            right.HasOptionalOperand := hasOptionalOperand_union_iff.trans (or_iff_right h)
        rw [decide_eq_decide.mpr hboth]
        exact .right leftText rightText hleftAnswer hrightAnswer
  | array member memberText ih =>
      obtain ⟨resolution, hresolve, hask, hname⟩ := hregistry arrayName
      exact .array member memberText hresolve hask hargument hname
  | foreign held => cases hproper

/-- Where no matcher accepts null, every check of null ends in a verdict: it accepts by an optional
operand, and refuses hard without one. -/
theorem exists_verdict_on_null (hregistry : registry.RefusesNull) (hproper : expr.isProper = true)
    (hargument : argument.Writable) :
    (expr.HasOptionalOperand ∧ (expr.check registry argument .null).outcome = .ok .accepted) ∨
      (¬ expr.HasOptionalOperand ∧ ∃ reason,
        (expr.check registry argument .null).outcome = .ok (.refused reason false)) := by
  obtain ⟨verdict, hverdict, hanswer⟩ :=
    (answersNull_of_refusesNull hregistry hproper hargument).exists_verdict
  cases verdict with
  | accepted => exact Or.inl ⟨of_decide_eq_true hanswer.symm, hverdict⟩
  | refused reason soft =>
      refine Or.inr ⟨of_decide_eq_false hanswer.symm, reason, ?_⟩
      cases soft with
      | false => exact hverdict
      | true => exact absurd rfl (optional_of_soft hverdict).2

end TypeExpr

/-! ## Fields on null -/

/-- The type of a field is a text with an optional operand. -/
def Field.HasOptionalOperand (field : Field) : Prop :=
  ∃ text, field.type = .str text ∧ (TypeExpr.parse text).HasOptionalOperand

variable [Host]

/-- What is taken past the end of a call is null, by a field with an optional operand. -/
theorem Visit.Judged.taken_past_end {registry : Registry} {view : CallView} {visit : Visit}
    (hregistry : registry.RefusesNull) (h : visit.Judged registry view)
    (hend : view.size ≤ visit.cursor) (htakes : visit.takes = true) :
    visit.value view = .null ∧ visit.field.HasOptionalOperand := by
  obtain ⟨field, cursor, verdict⟩ := visit
  obtain ⟨text, htext, hcheck⟩ := h
  have hnull : Visit.value view ⟨field, cursor, verdict⟩ = .null := CallView.valueAt_of_size_le hend
  rw [hnull] at hcheck
  have hanswers := TypeExpr.answersNull_of_check hcheck
  rw [show verdict.isAccepted = true from htakes] at hanswers
  exact ⟨hnull, text, htext, hanswers.hasOptionalOperand hregistry⟩

namespace Schema

variable {registry : Registry} {view : CallView} {strict : Bool} {before after fields : List Field}
  {field : Field} {values : Value} {result prior : Match} {text : String}

/-- What was parsed at an index was taken by a visit at that cursor. -/
theorem Account.exists_taker {visits : List Visit} {index : Nat} {entry : Value × Value}
    (h : Account registry view strict fields visits result)
    (hentry : result.parsed[index]? = some entry) :
    ∃ visit ∈ visits, visit.takes = true ∧ visit.cursor = index ∧ visit.pair view = entry := by
  rw [h.parsed_eq, List.getElem?_map] at hentry
  obtain ⟨visit, hvisit, hpair⟩ := Option.map_eq_some_iff.mp hentry
  obtain ⟨hmem, htakes⟩ := List.mem_filter.mp (List.mem_of_getElem? hvisit)
  refine ⟨visit, hmem, htakes, ?_, hpair⟩
  have hcursors : (visits.filter Visit.takes).map Visit.cursor =
      List.range' 0 (visits.countP Visit.takes) :=
    map_cursor_filter_takes fun before other after heq =>
      (h.cursor_eq before other after heq).trans (Nat.zero_add _).symm
  have hcursor : (List.range' 0 (visits.countP Visit.takes))[index]? = some visit.cursor := by
    rw [← hcursors, List.getElem?_map, hvisit, Option.map_some]
  obtain ⟨hlt, hrange⟩ := List.getElem?_eq_some_iff.mp hcursor
  rw [← hrange, List.getElem_range', Nat.zero_add, Nat.one_mul]

/-- A field without an optional operand that is reached past the end of a call ends the match: it is
refused hard, in a strict match as in a plain one, and nothing behind it is looked at. -/
theorem matchFields_refused_past_end (hregistry : registry.RefusesNull)
    (hprior : (matchFields registry view false before).outcome = .ok prior) (hok : prior.ok = true)
    (hend : view.size ≤ prior.consumed) (htext : field.type = .str text)
    (hname : field.name.Writable) (hneeded : ¬ (TypeExpr.parse text).HasOptionalOperand) :
    ∃ reason,
      ((TypeExpr.parse text).check registry field.name .null).outcome =
        .ok (.refused reason false) ∧
      (matchFields registry view strict (before ++ field :: after)).outcome =
        .ok { prior with fail := some reason } := by
  rcases TypeExpr.exists_verdict_on_null hregistry (TypeExpr.isProper_ofChars text.toList)
    hname with ⟨hoptional, -⟩ | ⟨-, reason, hrefused⟩
  · exact absurd hoptional hneeded
  refine ⟨reason, hrefused, ?_⟩
  have hnull : (view.drop prior.consumed).valueAt 0 = .null := by
    rw [CallView.valueAt_drop]
    exact CallView.valueAt_of_size_le hend
  have hwalk : (walk registry (view.drop prior.consumed) 0 (field :: after)).outcome =
      .ok (Match.refused reason 0) := by
    rw [walk, hnull]
    refine Run.outcome_bind_eq_ok_iff.mpr ⟨text, by rw [Field.typeText, htext]; rfl, ?_⟩
    exact Run.outcome_bind_eq_ok_iff.mpr ⟨_, hrefused, rfl⟩
  rw [matchFields_append]
  refine Run.outcome_bind_eq_ok_iff.mpr ⟨prior, hprior, ?_⟩
  rw [if_pos hok]
  refine Run.outcome_bind_eq_ok_iff.mpr ⟨Match.refused reason 0, ?_, ?_⟩
  · refine Run.outcome_bind_eq_ok_iff.mpr ⟨_, hwalk, ?_⟩
    cases strict <;> rfl
  · simp [Match.andThen, Match.refused]

/-- A text, and a second one that may be left out behind a number. -/
def hostAndTag : List Field := [⟨.str "host", .str "str"⟩, ⟨.str "tag", .str "num or opt str"⟩]

end Schema
end CallSchema
