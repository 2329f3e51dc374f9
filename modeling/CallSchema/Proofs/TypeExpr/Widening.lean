import CallSchema.Proofs.Registry.Refusal
import CallSchema.Proofs.TypeExpr.Denotation

/-!
# Wider matchers and unknown names

Over any registry, reliable or not, what a check accepts is denoted (`denotes_of_accepted`), and an
expression denotes more when its leaves accept more (`Denotes.mono`): no short-circuit of a union or an
array turns an answer of a leaf that has become wider into a refusal.

An expression whose leaves accept nothing still denotes something: null where a keyword makes it
optional, and the arrays that are built from such values, the empty ones among them (`Hollow`).  That is
all that unknown names can stand for, over whatever layers that leave the default matcher and the name
of arrays alone (`accepted_widens`).
-/

namespace CallSchema

/-- Null, and the lists and tuples in which there is nothing else at any depth. -/
inductive Value.IsHollow : Value → Prop where
  | null : IsHollow .null
  | list {items : List Value} (h : ∀ item ∈ items, IsHollow item) : IsHollow (.seq .list items)
  | tuple {items : List Value} (h : ∀ item ∈ items, IsHollow item) : IsHollow (.seq .tuple items)

namespace TypeExpr

open Registry (Binds KeepsDefaults)

/-- The names of the leaves of an expression. -/
def leafNames : TypeExpr → List String
  | leaf name => [name]
  | optional inner => inner.leafNames
  | union left right _ _ => left.leafNames ++ right.leafNames
  | array member _ => member.leafNames
  | foreign _ => []

/-- The names that an expression uses are those of its leaves, and that of arrays. -/
theorem eq_arrayName_or_mem_leafNames {expr : TypeExpr} {name : String} (h : name ∈ expr.typeNames) :
    name = arrayName ∨ name ∈ expr.leafNames := by
  induction expr with
  | leaf leafName => exact Or.inr h
  | optional inner ih => exact ih h
  | union left right leftText rightText ihleft ihright =>
      rw [leafNames, List.mem_append]
      rcases List.mem_append.mp h with h | h
      · exact (ihleft h).imp_right Or.inl
      · exact (ihright h).imp_right Or.inr
  | array member memberText ih =>
      rcases List.mem_cons.mp h with rfl | h
      · exact Or.inl rfl
      · exact ih h
  | foreign held => cases h

theorem outcome_allAccepted_eq_true_iff {check : Value → Run MatcherCall Verdict}
    {elements : List Value} :
    (allAccepted check elements).outcome = .ok true ↔
      ∀ element ∈ elements, (check element).outcome = .ok .accepted := by
  induction elements with
  | nil => exact iff_of_true rfl (List.forall_mem_nil _)
  | cons element elements ih =>
      rw [List.forall_mem_cons, ← ih, allAccepted, Run.outcome_bind_eq_ok_iff]
      constructor
      · rintro ⟨verdict, hverdict, h⟩
        cases verdict with
        | accepted => exact ⟨hverdict, h⟩
        | refused reason soft => cases h
      · rintro ⟨hverdict, h⟩
        exact ⟨.accepted, hverdict, h⟩

/-- The values that an expression stands for if none of its leaves stands for any. -/
def Hollow : TypeExpr → Value → Prop
  | leaf _, _ => False
  | optional inner, value => value = .null ∨ inner.Hollow value
  | union left right _ _, value => left.Hollow value ∨ right.Hollow value
  | array member _, value => ∃ kind items, (kind = .list ∨ kind = .tuple) ∧ value = .seq kind items ∧
      ∀ item ∈ items, member.Hollow item
  | foreign _, _ => False

theorem Hollow.isHollow {expr : TypeExpr} {value : Value} (h : expr.Hollow value) : value.IsHollow := by
  induction expr generalizing value with
  | leaf name => exact h.elim
  | optional inner ih =>
      rcases h with rfl | h
      · exact .null
      · exact ih h
  | union left right leftText rightText ihleft ihright => exact h.elim ihleft ihright
  | array member memberText ih =>
      obtain ⟨kind, items, rfl | rfl, rfl, hitems⟩ := h
      · exact .list fun item hmem => ih (hitems item hmem)
      · exact .tuple fun item hmem => ih (hitems item hmem)
  | foreign held => exact h.elim

variable [Host] {registry other : Registry} {argument : Value} {argumentText name : String}
  {expr : TypeExpr} {value : Value}

/-! ## Accepted values are denoted -/

theorem accepts_of_checkLeaf (h : (checkLeaf registry argument name value).outcome = .ok .accepted) :
    registry.Accepts name value := by
  obtain ⟨resolution, hresolve, hanswer⟩ := checkLeaf_eq_accepted_iff.mp h
  exact (Registry.accepts_iff_of_resolve hresolve).mpr hanswer

/-- An array is accepted as a leaf first, and then each of its elements is. -/
theorem outcome_check_array_eq_accepted_iff {member : TypeExpr} {memberText : String} :
    ((array member memberText).check registry argument value).outcome = .ok .accepted ↔
      (checkLeaf registry argument arrayName value).outcome = .ok .accepted ∧
        ∃ elements, value.walked = .ok elements ∧
          ∀ element ∈ elements, (member.check registry argument element).outcome = .ok .accepted := by
  rw [check, Run.outcome_bind_eq_ok_iff]
  constructor
  · rintro ⟨outer, houter, h⟩
    cases outer with
    | refused reason soft => cases h
    | accepted =>
        obtain ⟨all, hall, h⟩ := Run.outcome_bind_eq_ok_iff.mp h
        cases all with
        | false =>
            obtain ⟨argumentText, -, h⟩ := Run.outcome_bind_eq_ok_iff.mp h
            cases h
        | true =>
            rw [eachAccepted_eq] at hall
            obtain ⟨elements, helements, hall⟩ := Run.outcome_bind_eq_ok_iff.mp hall
            exact ⟨houter, elements, helements, outcome_allAccepted_eq_true_iff.mp hall⟩
  · rintro ⟨houter, elements, helements, hall⟩
    refine ⟨.accepted, houter, Run.outcome_bind_eq_ok_iff.mpr ⟨true, ?_, rfl⟩⟩
    rw [eachAccepted_eq]
    exact Run.outcome_bind_eq_ok_iff.mpr
      ⟨elements, helements, outcome_allAccepted_eq_true_iff.mpr hall⟩

/-- What a check accepts is denoted, also over a registry with matchers that fault on other values. -/
theorem denotes_of_accepted (h : (expr.check registry argument value).outcome = .ok .accepted) :
    expr.Denotes registry value := by
  induction expr generalizing value with
  | leaf name => exact accepts_of_checkLeaf h
  | optional inner ih =>
      obtain ⟨verdict, hverdict, h⟩ := Run.outcome_bind_eq_ok_iff.mp h
      cases verdict with
      | accepted => exact Or.inr (ih hverdict)
      | refused reason soft =>
          cases value with
          | null => exact Or.inl rfl
          | _ => cases h
  | union left right leftText rightText ihleft ihright =>
      obtain ⟨first, hfirst, h⟩ := Run.outcome_bind_eq_ok_iff.mp h
      cases first with
      | accepted => exact Or.inl (ihleft hfirst)
      | refused reason soft =>
          obtain ⟨second, hsecond, h⟩ := Run.outcome_bind_eq_ok_iff.mp h
          cases second with
          | accepted => exact Or.inr (ihright hsecond)
          | refused reason soft =>
              obtain ⟨argumentText, -, h⟩ := Run.outcome_bind_eq_ok_iff.mp h
              cases h
  | array member memberText ih =>
      obtain ⟨houter, elements, helements, hall⟩ := outcome_check_array_eq_accepted_iff.mp h
      exact ⟨accepts_of_checkLeaf houter, elements, helements,
        fun element hmem => ih (hall element hmem)⟩
  | foreign held => cases h

/-! ## Wider leaves -/

/-- An expression denotes no less where its leaves accept no less, and arrays are at least as many. -/
theorem Denotes.mono
    (harray : ∀ value, registry.Accepts arrayName value → other.Accepts arrayName value)
    (hleaves : ∀ name ∈ expr.leafNames, ∀ value, registry.Accepts name value → other.Accepts name value)
    (h : expr.Denotes registry value) : expr.Denotes other value := by
  induction expr generalizing value with
  | leaf name => exact hleaves name List.mem_cons_self value h
  | optional inner ih => exact h.imp_right (ih hleaves)
  | union left right leftText rightText ihleft ihright =>
      refine h.imp (ihleft ?_) (ihright ?_)
      · exact fun name hname => hleaves name (List.mem_append_left _ hname)
      · exact fun name hname => hleaves name (List.mem_append_right _ hname)
  | array member memberText ih =>
      obtain ⟨haccepts, elements, helements, hdenoted⟩ := h
      exact ⟨harray value haccepts, elements, helements,
        fun element hmem => ih hleaves (hdenoted element hmem)⟩
  | foreign held => exact h.elim

/-- Where a name resolves at all, a check against it accepts what it stands for. -/
theorem checkLeaf_of_accepts {resolution : Registry.Resolution}
    (hresolve : registry.resolve (.str name) = .ok resolution) (h : registry.Accepts name value) :
    (checkLeaf registry argument name value).outcome = .ok .accepted :=
  checkLeaf_eq_accepted_iff.mpr ⟨resolution, hresolve, (Registry.accepts_iff_of_resolve hresolve).mp h⟩

/-- For an argument whose name cannot be written a check accepts only where nothing is refused on the way,
so in a wider registry it goes the same way. -/
theorem accepted_of_wider_of_unwritten (hargument : ¬ argument.Writable)
    (hresolves : ∀ name ∈ expr.typeNames, ∃ resolution,
      other.resolve (.str name) = .ok resolution)
    (hleaves : ∀ name ∈ expr.typeNames, ∀ value,
      registry.Accepts name value → other.Accepts name value)
    (h : (expr.check registry argument value).outcome = .ok .accepted) :
    (expr.check other argument value).outcome = .ok .accepted := by
  induction expr generalizing value with
  | leaf name =>
      obtain ⟨resolution, hresolve⟩ := hresolves name List.mem_cons_self
      exact checkLeaf_of_accepts hresolve
        (hleaves name List.mem_cons_self value (accepts_of_checkLeaf h))
  | optional inner ih =>
      obtain ⟨verdict, hverdict, h⟩ := Run.outcome_bind_eq_ok_iff.mp h
      cases verdict with
      | accepted =>
          exact Run.outcome_bind_eq_ok_iff.mpr ⟨.accepted, ih hresolves hleaves hverdict, rfl⟩
      | refused reason soft => exact absurd (writable_of_refused hverdict) hargument
  | union left right leftText rightText ihleft ihright =>
      obtain ⟨first, hfirst, h⟩ := Run.outcome_bind_eq_ok_iff.mp h
      cases first with
      | accepted =>
          have hleft := ihleft (fun name hname => hresolves name (List.mem_append_left _ hname))
            (fun name hname => hleaves name (List.mem_append_left _ hname)) hfirst
          exact Run.outcome_bind_eq_ok_iff.mpr ⟨.accepted, hleft, rfl⟩
      | refused reason soft => exact absurd (writable_of_refused hfirst) hargument
  | array member memberText ih =>
      obtain ⟨houter, elements, helements, hall⟩ := outcome_check_array_eq_accepted_iff.mp h
      obtain ⟨resolution, hresolve⟩ := hresolves arrayName List.mem_cons_self
      refine outcome_check_array_eq_accepted_iff.mpr ⟨?_, elements, helements, ?_⟩
      · exact checkLeaf_of_accepts hresolve
          (hleaves arrayName List.mem_cons_self value (accepts_of_checkLeaf houter))
      · intro element hmem
        exact ih (fun name hname => hresolves name (List.mem_cons_of_mem _ hname))
          (fun name hname => hleaves name (List.mem_cons_of_mem _ hname)) (hall element hmem)
  | foreign held => cases h

/-- Over a wider registry that is reliable, what was accepted stays accepted. -/
theorem accepted_of_wider (hother : other.ReliableFor expr.typeNames) (hproper : expr.isProper = true)
    (harray : ∀ value, registry.Accepts arrayName value → other.Accepts arrayName value)
    (hleaves : ∀ name ∈ expr.leafNames, ∀ value, registry.Accepts name value → other.Accepts name value)
    (h : (expr.check registry argument value).outcome = .ok .accepted) :
    (expr.check other argument value).outcome = .ok .accepted := by
  by_cases hargument : argument.Writable
  · obtain ⟨argumentText, hargument⟩ := hargument
    exact (settles_of_isProper hother hproper hargument value).accepted_iff.mpr
      ((denotes_of_accepted h).mono harray hleaves)
  · refine accepted_of_wider_of_unwritten hargument ?_ ?_ h
    · exact fun name hname => (hother.resolves name hname).imp fun resolution h => h.1
    · intro name hname
      rcases eq_arrayName_or_mem_leafNames hname with rfl | hleaf
      · exact harray
      · exact hleaves name hleaf

/-! ## Leaves that accept nothing -/

theorem denotes_iff_hollow (hregistry : registry.KeepsDefaults)
    (hleaves : ∀ name ∈ expr.leafNames, ∀ value, ¬ registry.Accepts name value) :
    expr.Denotes registry value ↔ expr.Hollow value := by
  induction expr generalizing value with
  | leaf name => exact iff_of_false (hleaves name List.mem_cons_self value) id
  | optional inner ih => exact or_congr_right (ih hleaves)
  | union left right leftText rightText ihleft ihright =>
      refine or_congr (ihleft ?_) (ihright ?_)
      · exact fun name hname => hleaves name (List.mem_append_left _ hname)
      · exact fun name hname => hleaves name (List.mem_append_right _ hname)
  | array member memberText ih =>
      rw [Denotes, hregistry.accepts_array_iff]
      constructor
      · rintro ⟨⟨kind, items, hkind, rfl⟩, elements, helements, hdenoted⟩
        obtain rfl : items = elements := Except.ok.inj helements
        exact ⟨kind, items, hkind, rfl, fun item hmem => (ih hleaves).mp (hdenoted item hmem)⟩
      · rintro ⟨kind, items, hkind, rfl, hitems⟩
        exact ⟨⟨kind, items, hkind, rfl⟩, items, rfl,
          fun item hmem => (ih hleaves).mpr (hitems item hmem)⟩
  | foreign held => exact Iff.rfl

/-- Where unknown names stand for nothing, a leaf whose aliases lead to one settles. -/
theorem settles_leaf_of_leadsNowhere (hregistry : registry.KeepsDefaults)
    (hname : registry.LeadsNowhere name) (hargument : argument.shown = .ok argumentText)
    (hresolve : ∃ resolution, registry.resolve (.str name) = .ok resolution ∧
      resolution.name.Writable) (value : Value) :
    Settles registry argument argumentText (leaf name) value := by
  obtain ⟨resolution, hresolve, hwritable⟩ := hresolve
  obtain ⟨hops, -, hchain⟩ := Registry.resolve_eq_ok_iff.mp hresolve
  have hanswer : (resolution.matcher.ask value).outcome = .ok false := by
    rw [hname.matcher_eq hchain, hregistry.fallback]
    rfl
  exact settles_leaf_of_ask hargument hresolve hwritable hanswer

/-- The check for arrays settles where the name of arrays keeps its meaning. -/
theorem settles_leaf_array (hregistry : registry.KeepsDefaults)
    (hargument : argument.shown = .ok argumentText) (value : Value) :
    Settles registry argument argumentText (leaf arrayName) value :=
  settles_leaf_of_ask hargument
    (Registry.resolve_eq_ok_iff.mpr ⟨0, by decide, .held hregistry.lookup_array⟩)
    (Value.writable_str arrayName) rfl

/-- The sample registry with every number counted as even. -/
def wideRegistry : Registry :=
  sampleRegistry.putAll [(.text "even", Registry.standardEntry .isNumber)]

/-- The standard registry with an alias that leads to an unknown name. -/
def pointRegistry : Registry :=
  Registry.standard.putAll [(.text "pt", .aliasTo (.str "Point"))]

omit [Host] in
theorem reliable_wideRegistry :
    letI := evenHost
    wideRegistry.Reliable := by
  let _ := evenHost
  exact Registry.reliable_of_isDirect (by cbv : wideRegistry.isDirect Value.isCallable = true)
    (fun _ => Value.answers_of_isCallable fun _ _ => ⟨_, rfl⟩) (by cbv)

omit [Host] in
theorem accepts_wideRegistry_of_even :
    letI := evenHost
    sampleRegistry.Accepts "e" value → wideRegistry.Accepts "e" value := by
  let _ := evenHost
  have heven : sampleRegistry.resolve (.str "e") = .ok ⟨.str "even", isEven⟩ := by cbv
  have hnumber : wideRegistry.resolve (.str "e") =
      .ok ⟨.str "even", .callable (.standard .isNumber)⟩ := by cbv
  rw [Registry.accepts_iff_of_resolve heven, Registry.accepts_iff_of_resolve hnumber]
  intro haccepts
  cases value with
  | int n => rfl
  | _ => cases haccepts

/-- Arrays whose elements are points or null. -/
def optionalPoints : TypeExpr := array (optional (leaf "pt")) "opt pt"

end TypeExpr
end CallSchema
