import CallSchema.Schema.Resolve

/-!
# Parsed values are values of the call

Every value that a match reports stood at some index of the call, so it is null or nested inside the
call values (`depth_lt_of_resolve`).  Whatever matches a parsed value in turn therefore comes to an end.
-/

namespace CallSchema

/-- Every parsed value of a match stood at some index of the call. -/
def Match.ParsedFrom (view : CallView) (result : Match) : Prop :=
  ∀ entry ∈ result.parsed, ∃ index, entry.2 = view.valueAt index

namespace Schema

variable [Host] {registry : Registry} {view : CallView} {strict : Bool} {result : Match}

theorem parsedFrom_of_walk {fields : List Field} {cursor : Nat}
    (h : (walk registry view cursor fields).outcome = .ok result) : result.ParsedFrom view := by
  induction fields generalizing cursor result with
  | nil =>
      cases h
      intro entry hentry
      cases hentry
  | cons field fields ih =>
      unfold walk at h
      obtain ⟨text, -, h⟩ := Run.outcome_bind_eq_ok_iff.mp h
      obtain ⟨verdict, -, h⟩ := Run.outcome_bind_eq_ok_iff.mp h
      split at h
      · obtain ⟨rest, hrest, htake⟩ := Run.outcome_bind_eq_ok_iff.mp h
        cases htake
        intro entry hentry
        rcases List.mem_cons.mp hentry with rfl | hmem
        · exact ⟨cursor, rfl⟩
        · exact ih hrest entry hmem
      · exact ih h
      · cases h
        intro entry hentry
        cases hentry

omit [Host] in
/-- Refusing what is left over keeps what was parsed. -/
theorem parsed_of_refuseLeftover {walked : Match} (h : walked.refuseLeftover view = .ok result) :
    result.parsed = walked.parsed := by
  unfold Match.refuseLeftover at h
  split at h
  · cases hreason : Match.leftoverReason view walked.consumed with
    | error fault =>
        rw [hreason] at h
        cases h
    | ok reason =>
        rw [hreason] at h
        cases h
        rfl
  · cases h
    rfl

theorem parsedFrom_of_matchFields {fields : List Field}
    (h : (matchFields registry view strict fields).outcome = .ok result) :
    result.ParsedFrom view := by
  obtain ⟨walked, hwalked, h⟩ := Run.outcome_bind_eq_ok_iff.mp h
  have hparsed := parsedFrom_of_walk hwalked
  cases strict with
  | true =>
      unfold Match.ParsedFrom
      rw [parsed_of_refuseLeftover h]
      exact hparsed
  | false =>
      cases h
      exact hparsed

omit [Host] in
theorem best_mem (first : Match) (others : List Match) :
    Match.best first others ∈ first :: others := by
  induction others generalizing first with
  | nil => exact List.mem_singleton.mpr rfl
  | cons next others ih =>
      have hmem := ih (first.better next)
      rw [show Match.best first (next :: others) = Match.best (first.better next) others from rfl]
      rcases List.mem_cons.mp hmem with heq | hrest
      · rw [heq]
        unfold Match.better
        split <;> simp
      · simp [hrest]

mutual

theorem parsedFrom_of_resolveView {result : Match} (schema : Schema)
    (h : (resolveView registry view strict schema).outcome = .ok result) :
    result.ParsedFrom view := by
  cases schema with
  | flat fields =>
      rw [resolveView] at h
      exact parsedFrom_of_matchFields h
  | oneOf candidates =>
      rw [resolveView] at h
      obtain ⟨results, hresults, h⟩ := Run.outcome_bind_eq_ok_iff.mp h
      have hall := parsedFrom_of_resolveEach candidates hresults
      split at h
      · cases h
      · cases h
        exact hall _ (best_mem _ _)
  | malformed got =>
      rw [resolveView] at h
      cases h

theorem parsedFrom_of_resolveEach {results : List Match} (candidates : List Schema)
    (h : (resolveEach registry view strict candidates).outcome = .ok results) :
    ∀ result ∈ results, result.ParsedFrom view := by
  cases candidates with
  | nil =>
      rw [resolveEach] at h
      cases h
      simp
  | cons candidate candidates =>
      rw [resolveEach] at h
      obtain ⟨first, hfirst, h⟩ := Run.outcome_bind_eq_ok_iff.mp h
      obtain ⟨others, hothers, h⟩ := Run.outcome_bind_eq_ok_iff.mp h
      cases h
      intro result hmem
      rcases List.mem_cons.mp hmem with rfl | hmem
      · exact parsedFrom_of_resolveView candidate hfirst
      · exact parsedFrom_of_resolveEach candidates hothers result hmem

end

/-- A parsed value is less deep than the call values. -/
theorem depth_lt_of_resolve {schema : Schema} {values : Value} {entry : Value × Value}
    (h : (schema.resolve registry values strict).outcome = .ok result)
    (hentry : entry ∈ result.parsed) : entry.2.depth < values.depth := by
  unfold resolve at h
  split at h
  · cases h
  · obtain ⟨view, hview, h⟩ := Run.outcome_bind_eq_ok_iff.mp h
    rw [Run.outcome_ofExcept] at hview
    obtain ⟨index, heq⟩ := parsedFrom_of_resolveView schema h entry hentry
    rw [heq]
    rcases view.valueAt_eq_null_or_mem index with hnull | hmem
    · rw [hnull]
      exact CallView.depth_pos_of_ofValue hview
    · exact CallView.depth_lt_of_mem_ofValue hview hmem

end Schema
end CallSchema
