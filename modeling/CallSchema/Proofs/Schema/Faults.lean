import CallSchema.Proofs.Schema.Strictness
import CallSchema.Schema.Resolve

/-!
# What a resolution blames

A fault that ends a resolution says who is to blame.  A check blames the registry or a matcher, and
never the schema or the call values (`faultsIn_check`); a walk over fields also blames a type that is
not text, and a resolution a schema without a shape (`faultsIn_resolveView`).  So call values are blamed
only when they have no view themselves (`resolve_eq_callShape_iff`).
-/

namespace CallSchema

/-- A fault of a check: none of the library's own, or that a chain of aliases does not end. -/
def Fault.FromCheck (fault : Fault) : Prop :=
  fault.family? = none ∨ fault.family? = some .aliasCycle

/-- A fault of resolving a view of a call: that of a check, or of the schema. -/
def Fault.FromView (fault : Fault) : Prop :=
  fault.FromCheck ∨ fault.family? = some .schema

theorem Fault.FromText.fromCheck {fault : Fault} (h : fault.FromText) : fault.FromCheck :=
  Or.inl h.family?_eq_none

theorem Fault.FromCheck.family?_ne_schema {fault : Fault} (h : fault.FromCheck) :
    fault.family? ≠ some .schema := by
  rcases h with hnone | hcycle
  · rw [hnone]
    exact nofun
  · rw [hcycle]
    exact nofun

theorem Fault.FromCheck.ne_callShape {fault : Fault} (h : fault.FromCheck) (got : Kind) :
    fault ≠ .callShape got := by
  rintro rfl
  rcases h with hnone | hcycle
  · cases hnone
  · cases hcycle

open Run (FaultsIn faultsIn_pure faultsIn_emit faultsIn_fail)

/-! ## Matchers -/

section Matchers

variable {fault : Fault}

theorem Value.fromCheck_of_measured {value : Value} (h : value.measured = .error fault) :
    fault.FromCheck := by
  unfold measured at h
  split at h
  · split at h
    · cases h
    · cases h
      exact Or.inl rfl
  · cases h
    exact Or.inl rfl

theorem Value.fromCheck_of_walked {value : Value} (h : value.walked = .error fault) :
    fault.FromCheck := by
  unfold walked at h
  split at h
  · cases h
  · cases h
    exact Or.inl rfl

variable [Host]

theorem Callable.fromCheck_of_answer {c : Callable} {value : Value}
    (h : c.answer value = .error fault) : fault.FromCheck := by
  cases c with
  | supplied callee =>
      replace h : (Host.answer callee value).mapError Fault.raised = .error fault := h
      cases hanswer : Host.answer callee value with
      | ok answer =>
          rw [hanswer] at h
          cases h
      | error raised =>
          rw [hanswer] at h
          cases h
          exact Or.inl rfl
  | standard matcher => cases h
  | never => cases h

theorem Value.faultsIn_ask (matcher value : Value) :
    FaultsIn Fault.FromCheck (matcher.ask value) := by
  cases matcher with
  | callable c => exact (faultsIn_emit _).bind fun _ fault h => Callable.fromCheck_of_answer h
  | _ => exact faultsIn_fail (Or.inl rfl)

end Matchers

/-! ## Names -/

namespace Registry

variable {registry : Registry} {first name : Value} {fault : Fault}

theorem fromCheck_of_lookup (h : registry.lookup name = .error fault) : fault.FromCheck := by
  unfold lookup entryOf at h
  split at h
  · cases h
  · cases h
    exact Or.inl rfl
  · cases h

theorem fromCheck_of_follow {lookups : Nat}
    (h : registry.follow first lookups name = .error fault) : fault.FromCheck := by
  induction lookups generalizing name with
  | zero =>
      cases h
      exact Or.inr rfl
  | succ lookups ih =>
      rw [follow] at h
      cases hlookup : registry.lookup name with
      | error other =>
          rw [hlookup] at h
          cases h
          exact fromCheck_of_lookup hlookup
      | ok found =>
          rw [hlookup] at h
          cases found with
          | none => cases h
          | some entry =>
              cases entry with
              | matcher value => cases h
              | aliasTo target => exact ih h

end Registry

/-! ## Expressions -/

namespace TypeExpr

theorem faultsIn_shown (value : Value) :
    FaultsIn Fault.FromCheck (Run.ofExcept value.shown : Run MatcherCall String) :=
  fun _ h => (Value.fromText_of_shown h).fromCheck

theorem faultsIn_allAccepted {check : Value → Run MatcherCall Verdict}
    (h : ∀ element, FaultsIn Fault.FromCheck (check element)) (elements : List Value) :
    FaultsIn Fault.FromCheck (allAccepted check elements) := by
  induction elements with
  | nil => exact faultsIn_pure _
  | cons element elements ih =>
      refine (h element).bind fun verdict => ?_
      cases verdict with
      | accepted => exact ih
      | refused reason soft => exact faultsIn_pure _

theorem faultsIn_eachAccepted {check : Value → Run MatcherCall Verdict}
    (h : ∀ element, FaultsIn Fault.FromCheck (check element)) (value : Value) :
    FaultsIn Fault.FromCheck (eachAccepted check value) := by
  rw [eachAccepted_eq]
  exact FaultsIn.bind (fun fault h => Value.fromCheck_of_walked h) fun elements =>
    faultsIn_allAccepted h elements

variable [Host] (registry : Registry) (argument : Value)

theorem faultsIn_checkLeaf (name : String) (value : Value) :
    FaultsIn Fault.FromCheck (checkLeaf registry argument name value) := by
  refine FaultsIn.bind (fun fault h => Registry.fromCheck_of_follow h) fun resolution => ?_
  refine FaultsIn.bind (Value.faultsIn_ask _ value) fun answer => ?_
  cases answer with
  | true => exact faultsIn_pure _
  | false =>
      exact (faultsIn_shown argument).bind fun _ =>
        (faultsIn_shown resolution.name).bind fun _ => faultsIn_pure _

/-- A check blames neither the schema nor the call values. -/
theorem faultsIn_check (expr : TypeExpr) (value : Value) :
    FaultsIn Fault.FromCheck (expr.check registry argument value) := by
  induction expr generalizing value with
  | leaf name => exact faultsIn_checkLeaf registry argument name value
  | optional inner ih =>
      refine (ih value).bind fun verdict => ?_
      cases verdict with
      | accepted => exact faultsIn_pure _
      | refused reason soft => cases value <;> exact faultsIn_pure _
  | union left right leftText rightText ihleft ihright =>
      refine (ihleft value).bind fun first => ?_
      cases first with
      | accepted => exact faultsIn_pure _
      | refused reason soft =>
          refine (ihright value).bind fun second => ?_
          cases second with
          | accepted => exact faultsIn_pure _
          | refused reason soft => exact (faultsIn_shown argument).bind fun _ => faultsIn_pure _
  | array member memberText ih =>
      refine (faultsIn_checkLeaf registry argument arrayName value).bind fun verdict => ?_
      cases verdict with
      | refused reason soft => exact faultsIn_pure _
      | accepted =>
          refine (faultsIn_eachAccepted ih value).bind fun all => ?_
          cases all with
          | true => exact faultsIn_pure _
          | false => exact (faultsIn_shown argument).bind fun _ => faultsIn_pure _
  | foreign held => exact faultsIn_fail (Or.inl rfl)

end TypeExpr

/-! ## Call values -/

/-- Whether call values have a shape that can be indexed: views, bound calls, records, and sequences
other than text and bytes. -/
def Value.isCallShaped : Value → Bool
  | view _ _ => true
  | bound _ _ => true
  | seq _ _ => true
  | range _ _ _ => true
  | record _ _ => true
  | _ => false

namespace CallView

variable [Host]

/-- A range is not blamed for its shape: what can go wrong is its length. -/
theorem fromCheck_of_ofRange {start stop step : Int} {fault : Fault}
    (h : ofRange start stop step = .error fault) : fault.FromCheck := by
  unfold ofRange at h
  cases hlength : (Value.range start stop step).measured with
  | error other =>
      rw [hlength] at h
      cases h
      exact Value.fromCheck_of_measured hlength
  | ok length =>
      rw [hlength] at h
      by_cases hroom : length < Host.room
      · simp only [bind, Except.bind, hroom, if_true] at h
        cases h
      · simp only [bind, Except.bind, hroom, if_false] at h
        cases h
        exact Or.inl rfl

/-- Why call values have no view: they have no shape, or they cannot be measured. -/
theorem fault_of_ofValue {values : Value} {fault : Fault} (h : ofValue values = .error fault) :
    fault.FromCheck ∨ (values.isCallShaped = false ∧ fault = .callShape values.kind) := by
  cases values with
  | view keys held => cases h
  | bound parameters arguments => cases h
  | seq kind items => cases h
  | range start stop step => exact Or.inl (fromCheck_of_ofRange h)
  | record kind entries => cases h
  | _ =>
      cases h
      exact Or.inr ⟨rfl, rfl⟩

theorem family?_ne_schema_of_ofValue {values : Value} {fault : Fault}
    (h : ofValue values = .error fault) : fault.family? ≠ some .schema := by
  rcases fault_of_ofValue h with hcheck | ⟨-, rfl⟩
  · exact hcheck.family?_ne_schema
  · exact nofun

/-- Call values are blamed for their shape exactly when they have none. -/
theorem ofValue_eq_callShape_iff {values : Value} {got : Kind} :
    ofValue values = .error (.callShape got) ↔ values.isCallShaped = false ∧ got = values.kind := by
  constructor
  · intro h
    rcases fault_of_ofValue h with hcheck | ⟨hshape, heq⟩
    · exact absurd rfl (hcheck.ne_callShape got)
    · exact ⟨hshape, Fault.callShape.inj heq⟩
  · rintro ⟨hshape, rfl⟩
    cases values with
    | view keys held => cases hshape
    | bound parameters arguments => cases hshape
    | seq kind items => cases hshape
    | range start stop step => cases hshape
    | record kind entries => cases hshape
    | _ => rfl

end CallView

/-! ## Schemas -/

/-- The type of a field is blamed on the schema, unless the name of the field cannot be written. -/
theorem Field.fromView_of_typeText {field : Field} {fault : Fault}
    (h : field.typeText = .error fault) : fault.FromView := by
  unfold typeText at h
  split at h
  · cases h
  · rcases bind_eq_error_iff.mp h with h | ⟨name, -, h⟩
    · exact Or.inl (Value.fromText_of_shown h).fromCheck
    · cases h
      exact Or.inr rfl

namespace Schema

theorem family?_of_shapeFault? {schema : Schema} {fault : Fault} (h : schema.shapeFault? = some fault) :
    fault.family? = some .schema := by
  unfold shapeFault? at h
  split at h
  · cases h
    rfl
  · cases h
    rfl
  · cases h

variable [Host] (registry : Registry) (view : CallView)

/-- A fault of a walk is a fault of a check, or that of a type which is not text. -/
theorem faultsIn_walk {P : Fault → Prop} (hcheck : ∀ fault, fault.FromCheck → P fault)
    {fields : List Field}
    (htype : ∀ field ∈ fields, ∀ fault, field.typeText = .error fault → P fault) (cursor : Nat) :
    FaultsIn P (walk registry view cursor fields) := by
  induction fields generalizing cursor with
  | nil => exact faultsIn_pure _
  | cons field fields ih =>
      obtain ⟨hfield, hfields⟩ := List.forall_mem_cons.mp htype
      refine FaultsIn.bind hfield fun text => ?_
      refine FaultsIn.bind ((TypeExpr.faultsIn_check _ _ _ _).mono hcheck) fun verdict => ?_
      cases verdict with
      | accepted => exact (ih hfields (cursor + 1)).bind fun _ => faultsIn_pure _
      | refused reason soft =>
          cases soft with
          | true => exact ih hfields cursor
          | false => exact faultsIn_pure _

theorem faultsIn_matchFields (strict : Bool) (fields : List Field) :
    FaultsIn Fault.FromView (matchFields registry view strict fields) := by
  refine FaultsIn.bind (faultsIn_walk registry view (fun _ => Or.inl) ?_ 0) fun walked => ?_
  · exact fun field _ fault h => field.fromView_of_typeText h
  · exact fun fault h => Or.inl (Match.fromText_of_conclude h).fromCheck

mutual

/-- Resolving a view blames the schema or what its checks blame. -/
theorem faultsIn_resolveView (strict : Bool) (schema : Schema) :
    FaultsIn Fault.FromView (resolveView registry view strict schema) := by
  cases schema with
  | flat fields =>
      rw [resolveView]
      exact faultsIn_matchFields registry view strict fields
  | oneOf candidates =>
      rw [resolveView]
      refine (faultsIn_resolveEach strict candidates).bind fun results => ?_
      cases results with
      | nil => exact faultsIn_fail (Or.inr rfl)
      | cons first others => exact faultsIn_pure _
  | malformed got =>
      rw [resolveView]
      exact faultsIn_fail (Or.inr rfl)

theorem faultsIn_resolveEach (strict : Bool) (candidates : List Schema) :
    FaultsIn Fault.FromView (resolveEach registry view strict candidates) := by
  cases candidates with
  | nil =>
      rw [resolveEach]
      exact faultsIn_pure _
  | cons candidate candidates =>
      rw [resolveEach]
      refine (faultsIn_resolveView strict candidate).bind fun first => ?_
      exact (faultsIn_resolveEach strict candidates).bind fun others => faultsIn_pure _

end

variable {registry : Registry} {schema : Schema} {values : Value} {strict : Bool}

/-- A resolution blames the shape of the call values exactly when they have none, unless the schema has
none either. -/
theorem resolve_eq_callShape_iff {got : Kind} :
    (schema.resolve registry values strict).outcome = .error (.callShape got) ↔
      schema.shapeFault? = none ∧ values.isCallShaped = false ∧ got = values.kind := by
  rw [← CallView.ofValue_eq_callShape_iff]
  unfold resolve
  cases hshape : schema.shapeFault? with
  | some fault =>
      refine iff_of_false ?_ (by simp)
      rintro ⟨⟩
      cases family?_of_shapeFault? hshape
  | none =>
      cases hview : CallView.ofValue values with
      | error fault =>
          constructor
          · rintro ⟨⟩
            exact ⟨rfl, rfl⟩
          · rintro ⟨-, ⟨⟩⟩
            rfl
      | ok view =>
          refine iff_of_false ?_ (by simp)
          intro h
          rcases faultsIn_resolveView registry view strict schema _ h with hcheck | hschema
          · exact hcheck.ne_callShape got rfl
          · cases hschema

end Schema
end CallSchema
