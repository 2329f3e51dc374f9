import CallSchema.Proofs.Registry.Reliable
import CallSchema.Proofs.TypeExpr.Canonical
import CallSchema.Proofs.TypeExpr.Check

/-!
# What an expression denotes

Over a registry an expression stands for a set of values (`Denotes`), said without any order of checks,
and for each value outside of it there is one reason to cite (`Cites`): that of the outermost part of the
expression that is not optional.  Where the registry is reliable for the names that the expression uses and
the argument's name can be written, every check ends in a verdict, and the verdict is what these two say
(`settles_of_isProper`).  An argument whose name cannot be written leaves a refusal without its reason, and
the check without a verdict (`outcome_check_of_unwritten_argument`).
-/

namespace CallSchema

/-- The reason of a verdict, if it refuses. -/
def Verdict.reason? : Verdict → Option String
  | accepted => none
  | refused reason _ => some reason

namespace TypeExpr

section

variable [Host]

/-- The values that an expression stands for. -/
def Denotes (registry : Registry) : TypeExpr → Value → Prop
  | leaf name, value => registry.Accepts name value
  | optional inner, value => value = .null ∨ inner.Denotes registry value
  | union left right _ _, value => left.Denotes registry value ∨ right.Denotes registry value
  | array member _, value => registry.Accepts arrayName value ∧
      ∃ elements, value.walked = .ok elements ∧ ∀ element ∈ elements, member.Denotes registry element
  | foreign _, _ => False

/-- The reason that a leaf gives: it cites the last name of the leaf's chain of aliases. -/
def CitesEnd (registry : Registry) (argumentText name reason : String) : Prop :=
  ∃ hops resolution typeText, registry.AliasChain hops (.str name) resolution ∧
    resolution.name.shown = .ok typeText ∧ reason = leafReason argumentText typeText

/-- The reason to refuse a value, for an argument whose name is written in a given way.  Optional keywords
leave it as it is; an array that is not even walked gives the reason of the leaf for arrays. -/
def Cites (registry : Registry) (argumentText : String) : TypeExpr → Value → String → Prop
  | leaf name, _, reason => CitesEnd registry argumentText name reason
  | optional inner, value, reason => inner.Cites registry argumentText value reason
  | union _ _ leftText rightText, _, reason => reason = unionReason argumentText leftText rightText
  | array _ memberText, value, reason =>
      (registry.Accepts arrayName value ∧ reason = elementReason argumentText memberText) ∨
        (¬ registry.Accepts arrayName value ∧ CitesEnd registry argumentText arrayName reason)
  | foreign _, _, _ => False

end

/-- Whether an expression is optional at its root. -/
def isOptional : TypeExpr → Bool
  | optional _ => true
  | _ => false

/-- Whether nothing in an expression is foreign to it. -/
def isProper : TypeExpr → Bool
  | leaf _ => true
  | optional inner => inner.isProper
  | union left right _ _ => left.isProper && right.isProper
  | array member _ => member.isProper
  | foreign _ => false

/-- What is read from a text has nothing foreign in it. -/
theorem isProper_ofChars (text : List Char) : (ofChars text).isProper = true := by
  induction text using ofChars.induct with
  | case1 text hform => rw [ofChars_of_leaf hform, isProper]
  | case2 text inner hform ih => rw [ofChars_of_optional hform, isProper, ih]
  | case3 text left right hform ihleft ihright =>
      rw [ofChars_of_union hform, isProper, ihleft, ihright, Bool.and_self]
  | case4 text member hform ih => rw [ofChars_of_array hform, isProper, ih]

theorem CitesEnd.unique {registry : Registry} {argumentText name reason other : String}
    (h : CitesEnd registry argumentText name reason)
    (hother : CitesEnd registry argumentText name other) : reason = other := by
  obtain ⟨hops, resolution, typeText, hchain, htext, rfl⟩ := h
  obtain ⟨hops', found, otherText, hfound, hotherText, rfl⟩ := hother
  obtain rfl := hchain.unique hfound
  rw [Except.ok.inj (htext.symm.trans hotherText)]

/-- Checking elements in turn tells whether each of them is denoted. -/
theorem exists_allAccepted {check : Value → Run MatcherCall Verdict} {denoted : Value → Prop}
    (elements : List Value)
    (h : ∀ element ∈ elements, ∃ verdict, (check element).outcome = .ok verdict ∧
      (verdict.isAccepted = true ↔ denoted element)) :
    ∃ all, (allAccepted check elements).outcome = .ok all ∧
      (all = true ↔ ∀ element ∈ elements, denoted element) := by
  induction elements with
  | nil => exact ⟨true, rfl, by simp⟩
  | cons element elements ih =>
      obtain ⟨verdict, hverdict, hiff⟩ := h element List.mem_cons_self
      obtain ⟨all, hall, hrest⟩ :=
        ih fun other hmem => h other (List.mem_cons_of_mem element hmem)
      cases verdict with
      | accepted =>
          have hfirst : denoted element := hiff.mp rfl
          refine ⟨all, Run.outcome_bind_eq_ok_iff.mpr ⟨.accepted, hverdict, hall⟩, ?_⟩
          rw [hrest, List.forall_mem_cons]
          exact (and_iff_right hfirst).symm
      | refused reason soft =>
          have hfirst : ¬ denoted element := fun hdenoted =>
            Bool.false_ne_true (hiff.mpr hdenoted)
          refine ⟨false, Run.outcome_bind_eq_ok_iff.mpr ⟨.refused reason soft, hverdict, rfl⟩, ?_⟩
          exact iff_of_false Bool.false_ne_true fun hall => hfirst (hall element List.mem_cons_self)

variable [Host]

/-- The verdict that an expression calls for on a value. -/
inductive Answer (registry : Registry) (argumentText : String) (expr : TypeExpr) (value : Value) :
    Verdict → Prop where
  | accepted (h : expr.Denotes registry value) : Answer registry argumentText expr value .accepted
  | refused {reason : String} (h : ¬ expr.Denotes registry value)
      (hcites : expr.Cites registry argumentText value reason) :
      Answer registry argumentText expr value (.refused reason expr.isOptional)

/-- A check ends in the verdict that the expression calls for. -/
def Settles (registry : Registry) (argument : Value) (argumentText : String) (expr : TypeExpr)
    (value : Value) : Prop :=
  ∃ verdict, (expr.check registry argument value).outcome = .ok verdict ∧
    Answer registry argumentText expr value verdict

variable {registry : Registry} {argument : Value} {argumentText name : String} {expr : TypeExpr}
  {value : Value} {verdict : Verdict}

/-- There is one reason to cite. -/
theorem Cites.unique {reason other : String} (h : expr.Cites registry argumentText value reason)
    (hother : expr.Cites registry argumentText value other) : reason = other := by
  induction expr with
  | leaf name => exact CitesEnd.unique h hother
  | optional inner ih => exact ih h hother
  | union left right leftText rightText ihleft ihright => exact h.trans hother.symm
  | array member memberText ih =>
      rcases h with ⟨haccepts, rfl⟩ | ⟨hrefuses, hcites⟩
      · rcases hother with ⟨-, rfl⟩ | ⟨hrefuses, -⟩
        · rfl
        · exact absurd haccepts hrefuses
      · rcases hother with ⟨haccepts, -⟩ | ⟨-, hcites'⟩
        · exact absurd haccepts hrefuses
        · exact hcites.unique hcites'
  | foreign held => exact h.elim

theorem Answer.isAccepted_iff (h : Answer registry argumentText expr value verdict) :
    verdict.isAccepted = true ↔ expr.Denotes registry value := by
  cases h with
  | accepted h => exact iff_of_true rfl h
  | refused h hcites => exact iff_of_false Bool.false_ne_true h

theorem Settles.accepted_iff (h : Settles registry argument argumentText expr value) :
    (expr.check registry argument value).outcome = .ok .accepted ↔
      expr.Denotes registry value := by
  obtain ⟨verdict, hverdict, hanswer⟩ := h
  refine Iff.trans ?_ hanswer.isAccepted_iff
  rw [hverdict]
  cases verdict <;> simp [Verdict.isAccepted]

/-! ## Checks that settle -/

/-- A leaf accepts what the matcher at the end of its chain accepts. -/
theorem settles_leaf_of_ask {resolution : Registry.Resolution} {answer : Bool}
    (hargument : argument.shown = .ok argumentText)
    (hresolve : registry.resolve (.str name) = .ok resolution)
    (hname : resolution.name.Writable)
    (hanswer : (resolution.matcher.ask value).outcome = .ok answer) :
    Settles registry argument argumentText (leaf name) value := by
  obtain ⟨hops, -, hchain⟩ := Registry.resolve_eq_ok_iff.mp hresolve
  obtain ⟨typeText, htext⟩ := hname
  cases answer with
  | true =>
      exact ⟨.accepted, checkLeaf_eq_accepted_iff.mpr ⟨resolution, hresolve, hanswer⟩,
        .accepted ⟨hops, resolution, hchain, hanswer⟩⟩
  | false =>
      have hverdict : leafVerdict argument resolution.name false =
          .ok (.refused (leafReason argumentText typeText) false) :=
        bind_eq_ok_iff.mpr ⟨argumentText, hargument, bind_eq_ok_iff.mpr ⟨typeText, htext, rfl⟩⟩
      have hrefuses : ¬ registry.Accepts name value := by
        rw [Registry.accepts_iff_of_resolve hresolve, hanswer]
        exact nofun
      exact ⟨_, outcome_checkLeaf_eq_ok_iff.mpr ⟨resolution, false, hresolve, hanswer, hverdict⟩,
        .refused hrefuses ⟨hops, resolution, typeText, hchain, htext, rfl⟩⟩

theorem settles_leaf (hregistry : registry.ReliableFor [name])
    (hargument : argument.shown = .ok argumentText) (value : Value) :
    Settles registry argument argumentText (leaf name) value := by
  obtain ⟨resolution, hresolve, hanswers, hname⟩ := hregistry.resolves name List.mem_cons_self
  obtain ⟨answer, hanswer⟩ := hanswers value
  exact settles_leaf_of_ask hargument hresolve hname hanswer

theorem Settles.optional {inner : TypeExpr} (h : Settles registry argument argumentText inner value) :
    Settles registry argument argumentText (.optional inner) value := by
  obtain ⟨verdict, hverdict, hanswer⟩ := h
  cases hanswer with
  | accepted h =>
      refine ⟨.accepted, ?_, .accepted (Or.inr h)⟩
      exact Run.outcome_bind_eq_ok_iff.mpr ⟨_, hverdict, rfl⟩
  | @refused reason h hcites =>
      by_cases hnull : value = .null
      · subst hnull
        refine ⟨.accepted, ?_, .accepted (Or.inl rfl)⟩
        exact Run.outcome_bind_eq_ok_iff.mpr ⟨_, hverdict, rfl⟩
      · refine ⟨.refused reason true, ?_, .refused (not_or.mpr ⟨hnull, h⟩) hcites⟩
        refine Run.outcome_bind_eq_ok_iff.mpr ⟨_, hverdict, ?_⟩
        cases value with
        | null => exact absurd rfl hnull
        | _ => rfl

/-- Softness and reasons of the two sides do not show in a union. -/
theorem Settles.union {left right : TypeExpr} (leftText rightText : String)
    (hargument : argument.shown = .ok argumentText)
    (hleft : Settles registry argument argumentText left value)
    (hright : Settles registry argument argumentText right value) :
    Settles registry argument argumentText (.union left right leftText rightText) value := by
  obtain ⟨first, hfirst, hfirstAnswer⟩ := hleft
  cases hfirstAnswer with
  | accepted h =>
      refine ⟨.accepted, ?_, .accepted (Or.inl h)⟩
      exact Run.outcome_bind_eq_ok_iff.mpr ⟨_, hfirst, rfl⟩
  | refused hnotLeft _ =>
      obtain ⟨second, hsecond, hsecondAnswer⟩ := hright
      cases hsecondAnswer with
      | accepted h =>
          refine ⟨.accepted, ?_, .accepted (Or.inr h)⟩
          exact Run.outcome_bind_eq_ok_iff.mpr
            ⟨_, hfirst, Run.outcome_bind_eq_ok_iff.mpr ⟨_, hsecond, rfl⟩⟩
      | refused hnotRight _ =>
          refine ⟨_, ?_, .refused (not_or.mpr ⟨hnotLeft, hnotRight⟩) rfl⟩
          exact Run.outcome_bind_eq_ok_iff.mpr ⟨_, hfirst, Run.outcome_bind_eq_ok_iff.mpr
            ⟨_, hsecond, Run.outcome_bind_eq_ok_iff.mpr ⟨argumentText, hargument, rfl⟩⟩⟩

/-- Checking what a walk over a value meets tells whether all of it is denoted. -/
theorem exists_eachAccepted {member : TypeExpr} {elements : List Value}
    (hmember : ∀ element, Settles registry argument argumentText member element)
    (helements : value.walked = .ok elements) :
    ∃ all, (eachAccepted (member.check registry argument) value).outcome = .ok all ∧
      (all = true ↔ ∀ element ∈ elements, member.Denotes registry element) := by
  obtain ⟨all, hall, hiff⟩ := exists_allAccepted elements
    fun element _ => (hmember element).imp fun verdict h => ⟨h.1, h.2.isAccepted_iff⟩
  refine ⟨all, ?_, hiff⟩
  rw [eachAccepted_eq]
  exact Run.outcome_bind_eq_ok_iff.mpr ⟨elements, helements, hall⟩

/-- An array is checked as a leaf first, and then its elements are. -/
theorem settles_array {member : TypeExpr} (memberText : String)
    (hargument : argument.shown = .ok argumentText)
    (hleaf : Settles registry argument argumentText (leaf arrayName) value)
    (hwalkable : registry.Accepts arrayName value → ∃ elements, value.walked = .ok elements)
    (hmember : ∀ element, Settles registry argument argumentText member element) :
    Settles registry argument argumentText (array member memberText) value := by
  obtain ⟨outer, houter, hanswer⟩ := hleaf
  cases hanswer with
  | accepted haccepts =>
      obtain ⟨elements, helements⟩ := hwalkable haccepts
      obtain ⟨all, hall, hiff⟩ := exists_eachAccepted hmember helements
      cases all with
      | true =>
          refine ⟨.accepted, ?_, .accepted ⟨haccepts, elements, helements, hiff.mp rfl⟩⟩
          exact Run.outcome_bind_eq_ok_iff.mpr
            ⟨_, houter, Run.outcome_bind_eq_ok_iff.mpr ⟨_, hall, rfl⟩⟩
      | false =>
          refine ⟨.refused (elementReason argumentText memberText) false, ?_,
            .refused ?_ (Or.inl ⟨haccepts, rfl⟩)⟩
          · exact Run.outcome_bind_eq_ok_iff.mpr ⟨_, houter, Run.outcome_bind_eq_ok_iff.mpr
              ⟨_, hall, Run.outcome_bind_eq_ok_iff.mpr ⟨argumentText, hargument, rfl⟩⟩⟩
          · -- An array of denoted elements would have passed the walk.
            rintro ⟨-, others, hothers, hdenoted⟩
            rw [helements] at hothers
            cases hothers
            exact Bool.false_ne_true (hiff.mpr hdenoted)
  | refused hrefuses hcites =>
      refine ⟨_, ?_, .refused (fun h => hrefuses h.1) (Or.inr ⟨hrefuses, hcites⟩)⟩
      exact Run.outcome_bind_eq_ok_iff.mpr ⟨_, houter, rfl⟩

/-- A check of a proper expression settles where those of the names do that it uses. -/
theorem settles_of_leaves (hproper : expr.isProper = true)
    (hargument : argument.shown = .ok argumentText)
    (hleaves : ∀ name ∈ expr.typeNames, ∀ value,
      Settles registry argument argumentText (leaf name) value)
    (hwalkable : arrayName ∈ expr.typeNames → ∀ value, registry.Accepts arrayName value →
      ∃ elements, value.walked = .ok elements) (value : Value) :
    Settles registry argument argumentText expr value := by
  -- For every value, since an array checks its member on the elements.
  induction expr generalizing value with
  | leaf name => exact hleaves name List.mem_cons_self value
  | optional inner ih => exact (ih hproper hleaves hwalkable value).optional
  | union left right leftText rightText ihleft ihright =>
      obtain ⟨hleft, hright⟩ := Bool.and_eq_true_iff.mp hproper
      have hsettled := ihleft hleft (fun name hname => hleaves name (List.mem_append_left _ hname))
        (fun harray => hwalkable (List.mem_append_left _ harray))
      have hsettled' := ihright hright
        (fun name hname => hleaves name (List.mem_append_right _ hname))
        (fun harray => hwalkable (List.mem_append_right _ harray))
      exact (hsettled value).union leftText rightText hargument (hsettled' value)
  | array member memberText ih =>
      refine settles_array memberText hargument (hleaves arrayName List.mem_cons_self value)
        (hwalkable List.mem_cons_self value) (ih hproper ?_ ?_)
      · exact fun name hname => hleaves name (List.mem_cons_of_mem _ hname)
      · exact fun harray => hwalkable (List.mem_cons_of_mem _ harray)
  | foreign held => cases hproper

/-- Over a registry that is reliable for the names it uses, every check of a proper expression settles. -/
theorem settles_of_isProper (hregistry : registry.ReliableFor expr.typeNames)
    (hproper : expr.isProper = true) (hargument : argument.shown = .ok argumentText) (value : Value) :
    Settles registry argument argumentText expr value :=
  settles_of_leaves hproper hargument
    (fun _ hname => settles_leaf (hregistry.mono (List.cons_subset.mpr ⟨hname, List.nil_subset _⟩))
      hargument)
    hregistry.walkable value

/-! ## Nested optional keywords -/

/-- A second optional keyword changes nothing. -/
theorem check_optional_optional (registry : Registry) (argument : Value) (inner : TypeExpr)
    (value : Value) :
    (optional (optional inner)).check registry argument value =
      (optional inner).check registry argument value := by
  rw [check, check, bind_assoc]
  congr 1
  funext verdict
  cases verdict with
  | accepted => rfl
  | refused reason soft => cases value <;> rfl

/-! ## The verdict in full -/

theorem Answer.reason?_eq_some_iff {reason : String}
    (h : Answer registry argumentText expr value verdict) :
    verdict.reason? = some reason ↔
      verdict.isAccepted = false ∧ expr.Cites registry argumentText value reason := by
  cases h with
  | accepted h => exact iff_of_false (by simp [Verdict.reason?]) (by simp [Verdict.isAccepted])
  | @refused cited h hcites =>
      constructor
      · intro hreason
        obtain rfl := Option.some.inj hreason
        exact ⟨rfl, hcites⟩
      · rintro ⟨-, hother⟩
        exact congrArg some (hcites.unique hother)

theorem Answer.isSoft_iff (h : Answer registry argumentText expr value verdict) :
    verdict.isSoft = true ↔ (∃ inner, expr = optional inner) ∧ verdict.isAccepted = false := by
  cases h with
  | accepted h => exact iff_of_false (by simp [Verdict.isSoft]) (by simp [Verdict.isAccepted])
  | refused h hcites =>
      cases expr <;> simp [Verdict.isSoft, Verdict.isAccepted, isOptional]

/-- Let every name that an expression uses resolve, to a matcher that always answers and a last name that
can be written, let what counts as an array be walkable, and let the argument's name be one that can be
written.  Then the check of the expression ends in a verdict that is fixed by what the expression denotes.
It accepts exactly the values denoted; it has a reason exactly when it refuses, and that is the one reason
that the expression cites for the value; it is soft exactly when it refuses and the expression is optional
at its root.  A second optional keyword in front changes nothing. -/
theorem check_tells_denotation (hregistry : registry.ReliableFor expr.typeNames)
    (hproper : expr.isProper = true) (hargument : argument.shown = .ok argumentText) (value : Value) :
    (∃ verdict, (expr.check registry argument value).outcome = .ok verdict ∧
      (verdict.isAccepted = true ↔ expr.Denotes registry value) ∧
      (verdict.reason? = none ↔ verdict.isAccepted = true) ∧
      (verdict.isSoft = true ↔ (∃ inner, expr = optional inner) ∧ verdict.isAccepted = false) ∧
      ∀ reason, verdict.reason? = some reason ↔
        verdict.isAccepted = false ∧ expr.Cites registry argumentText value reason) ∧
    (optional (optional expr)).check registry argument value =
      (optional expr).check registry argument value := by
  obtain ⟨verdict, hverdict, hanswer⟩ := settles_of_isProper hregistry hproper hargument value
  refine ⟨⟨verdict, hverdict, hanswer.isAccepted_iff, ?_, hanswer.isSoft_iff, ?_⟩,
    check_optional_optional registry argument expr value⟩
  · cases verdict <;> simp [Verdict.reason?, Verdict.isAccepted]
  · intro reason
    exact hanswer.reason?_eq_some_iff

/-- A function of the caller. -/
def isEven : Value := .callable (.supplied (.function "is_even" 1))

/-- Whether a callable is a function of that name, and the value is an even number. -/
def isEvenCall : Supplied → Value → Bool
  | .function "is_even" _, .int n => n % 2 == 0
  | _, _ => false

/-- The host on which functions of that name accept the even numbers, and nothing else of the caller
accepts anything. -/
@[reducible] def evenHost : Host where
  answer callee value := .ok (isEvenCall callee value)
  receive _ _ _ := .ok ()
  room := 0x8000000000000000

/-- The standard registry with a matcher of even numbers, a short name for it, and an alias that leads to
an unknown name. -/
def sampleRegistry : Registry :=
  Registry.standard.putAll [
    (.text "even", .matcher isEven),
    (.text "e", .aliasTo (.str "even")),
    (.text "pt", .aliasTo (.str "Point"))]

omit [Host] in
theorem reliable_sampleRegistry :
    letI := evenHost
    sampleRegistry.Reliable := by
  let _ := evenHost
  exact Registry.reliable_of_isDirect (by cbv : sampleRegistry.isDirect Value.isCallable = true)
    (fun _ => Value.answers_of_isCallable fun _ _ => ⟨_, rfl⟩) (by cbv)

omit [Host] in
/-- Three is neither even nor an array of points, so the value is refused, softly, by the optional
expression around the union. -/
theorem check_tells_denotation_of_odd_number :
    letI := evenHost
    sampleRegistry.ReliableFor (parse "opt e or pt arr").typeNames ∧
    (parse "opt e or pt arr").isProper = true ∧ Value.shown (.str "x") = .ok "x" ∧
    ((parse "opt e or pt arr").check sampleRegistry (.str "x") (.int 3)).outcome =
      .ok (.refused "`x` is neither a e nor pt arr" true) ∧
    (∃ verdict, ((parse "opt e or pt arr").check sampleRegistry (.str "x") (.int 3)).outcome =
        .ok verdict ∧
      (verdict.isAccepted = true ↔ (parse "opt e or pt arr").Denotes sampleRegistry (.int 3)) ∧
      (verdict.reason? = none ↔ verdict.isAccepted = true) ∧
      (verdict.isSoft = true ↔
        (∃ inner, parse "opt e or pt arr" = optional inner) ∧ verdict.isAccepted = false) ∧
      ∀ reason, verdict.reason? = some reason ↔ verdict.isAccepted = false ∧
        (parse "opt e or pt arr").Cites sampleRegistry "x" (.int 3) reason) ∧
    (optional (optional (parse "opt e or pt arr"))).check sampleRegistry (.str "x") (.int 3) =
      (optional (parse "opt e or pt arr")).check sampleRegistry (.str "x") (.int 3) := by
  let _ := evenHost
  have hregistry : sampleRegistry.ReliableFor (parse "opt e or pt arr").typeNames :=
    reliable_sampleRegistry _
  have hproper : (parse "opt e or pt arr").isProper = true := isProper_ofChars _
  exact ⟨hregistry, hproper, rfl, by cbv,
    check_tells_denotation hregistry hproper (Value.shown_str "x") (.int 3)⟩

omit [Host] in
/-- An argument named by a number of too many digits: one is no text, but the refusal cannot be written, so
the check comes to no verdict, reliable as the standard registry is. -/
theorem outcome_check_of_unwritten_argument :
    letI := Host.quiet
    Registry.standard.Reliable ∧ (leaf "str").isProper = true ∧
    ¬ (leaf "str").Denotes Registry.standard (.int 1) ∧
    ((leaf "str").check Registry.standard (.int digitBound) (.int 1)).outcome =
      .error .tooManyDigits ∧
    ¬ ∃ verdict, ((leaf "str").check Registry.standard (.int digitBound) (.int 1)).outcome =
      .ok verdict := by
  let _ := Host.quiet
  have hresolve : Registry.standard.resolve (.str "str") =
      .ok ⟨.str "string", .callable (.standard .isString)⟩ := by cbv
  have hfault : ((leaf "str").check Registry.standard (.int digitBound) (.int 1)).outcome =
      .error .tooManyDigits := outcome_checkLeaf_of_unwritten intText_digitBound hresolve rfl
  have hdenotes : ¬ (leaf "str").Denotes Registry.standard (.int 1) := by
    rw [Denotes, Registry.accepts_iff_of_resolve hresolve]
    intro haccepts
    cases haccepts
  refine ⟨Registry.reliable_standard, rfl, hdenotes, hfault, ?_⟩
  rintro ⟨verdict, hverdict⟩
  rw [hfault] at hverdict
  cases hverdict

end TypeExpr
end CallSchema
