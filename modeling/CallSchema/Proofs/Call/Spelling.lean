import CallSchema.Guard.Basic
import CallSchema.Proofs.Call.Binding

/-!
# Spellings of a call

A parameter that can be passed by position or by name can be passed either way, as long as those before
it are passed by position too, and named arguments that parameters take can come in any order.  Such
spellings of a call (`Respelled`) are bound alike, or fail to bind in the same way
(`bindArguments_eq_of_respelled`).  The arguments that no parameter takes by its name are collected in
the order in which they were passed, so that order is kept.

A bound call has a view with a key for each value, in which every argument that was passed comes once;
and all spellings of a call have the same view (`view_keeps_arguments`).
-/

namespace CallSchema
namespace Signature

/-- Whether a parameter can be passed by its name. -/
def takesName (p : Parameter) : Bool :=
  p.kind = .positionalOrKeyword || p.kind = .keywordOnly

/-- The named arguments that no parameter takes by its name, in order. -/
def unclaimed (signature : Signature) (named : List (String × Value)) : List (String × Value) :=
  named.filter fun argument => signature.all fun p => !(takesName p && argument.1 == p.name)

/-- Arguments for parameters, under the names of these. -/
def asNamed (moved : List (Parameter × Value)) : List (String × Value) :=
  moved.map fun argument => (argument.1.name, argument.2)

/-- The second call passes by name what the first one passes last by position, to parameters that can be
passed either way; and named arguments that parameters take may be reordered. -/
structure Respelled (signature : Signature) (moved : List (Parameter × Value))
    (first second : Arguments) : Prop where
  positional : first.positional = second.positional ++ moved.map Prod.snd
  named : second.named.Perm (first.named ++ asNamed moved)
  parameters : moved.map Prod.fst <+: signature.drop second.positional.length
  kinds : ∀ p ∈ moved.map Prod.fst, p.kind = .positionalOrKeyword
  unclaimed : signature.unclaimed first.named = signature.unclaimed second.named

variable {signature : Signature} {p : Parameter} {named others : List (String × Value)}
  {moved : List (Parameter × Value)} {first second : Arguments} {name : String}

/-! ## Arguments that no parameter takes -/

theorem unclaimed_nil : unclaimed [] named = named := List.filter_eq_self.mpr fun _ _ => rfl

theorem unclaimed_cons_of_not_takesName (h : takesName p = false) :
    unclaimed (p :: signature) named = unclaimed signature named := by
  simp [unclaimed, h]

theorem unclaimed_cons_of_takesName (h : takesName p = true) :
    unclaimed (p :: signature) named =
      unclaimed signature (named.filter fun argument => argument.1 != p.name) := by
  simp [unclaimed, h, List.filter_filter, Bool.and_comm, bne]

theorem unclaimed_filter (keep : String × Value → Bool) :
    unclaimed signature (named.filter keep) = (unclaimed signature named).filter keep :=
  List.filter_comm _ _ _

section Tail

variable (h : unclaimed (p :: signature) named = unclaimed (p :: signature) others)

include h

theorem unclaimed_tail (htakes : takesName p = false) :
    unclaimed signature named = unclaimed signature others := by
  rwa [unclaimed_cons_of_not_takesName htakes, unclaimed_cons_of_not_takesName htakes] at h

/-- What is unclaimed when the argument of a parameter has been taken is told by what was unclaimed. -/
theorem unclaimed_rest :
    unclaimed signature (named.filter fun argument => argument.1 != p.name) =
      unclaimed signature (others.filter fun argument => argument.1 != p.name) := by
  cases htakes : takesName p with
  | true => rwa [unclaimed_cons_of_takesName htakes, unclaimed_cons_of_takesName htakes] at h
  | false => rw [unclaimed_filter, unclaimed_filter, unclaimed_tail h htakes]

end Tail

theorem filter_ne_of_lookup_none (h : named.lookup name = none) :
    named.filter (fun argument => argument.1 != name) = named := by
  refine List.filter_eq_self.mpr fun argument hargument => bne_iff_ne.mpr ?_
  rintro rfl
  have hsome := isSome_lookup_iff.mpr (List.mem_map_of_mem (f := Prod.fst) hargument)
  rw [h] at hsome
  cases hsome

/-- A parameter that is not passed by name takes nothing away. -/
theorem unclaimed_of_lookup_none
    (h : unclaimed (p :: signature) named = unclaimed (p :: signature) others)
    (hnamed : named.lookup p.name = none) (hothers : others.lookup p.name = none) :
    unclaimed signature named = unclaimed signature others := by
  have hrest := unclaimed_rest h
  rwa [filter_ne_of_lookup_none hnamed, filter_ne_of_lookup_none hothers] at hrest

/-! ## The order of named arguments -/

/-- The order of the named arguments that parameters take is of no account. -/
theorem bindNamed_eq_of_perm (hsignature : signature.WellFormed) (hperm : named.Perm others)
    (hnamed : (named.map Prod.fst).Nodup)
    (hunclaimed : signature.unclaimed named = signature.unclaimed others) :
    bindNamed signature named = bindNamed signature others := by
  induction signature generalizing named others with
  | nil =>
      rw [unclaimed_nil, unclaimed_nil] at hunclaimed
      rw [hunclaimed]
  | cons p signature ih =>
      by_cases hpositional : p.kind = .restPositional
      · rw [bindNamed_of_restPositional hpositional, bindNamed_of_restPositional hpositional]
        exact ih hsignature.tail hperm hnamed
          (unclaimed_tail hunclaimed (by simp [takesName, hpositional]))
      by_cases hkeyword : p.kind = .restKeyword
      · -- The last parameter: no other one is left to take an argument.
        obtain rfl := hsignature.eq_nil_of_restKeyword hkeyword
        have hrest := unclaimed_tail hunclaimed (by simp [takesName, hkeyword])
        rw [unclaimed_nil, unclaimed_nil] at hrest
        rw [hrest]
      have hothers : others.lookup p.name = named.lookup p.name :=
        (lookup_eq_of_perm hperm hnamed).symm
      cases hlookup : named.lookup p.name with
      | none =>
          rw [hlookup] at hothers
          have hrest := unclaimed_of_lookup_none hunclaimed hlookup hothers
          rw [bindNamed_of_lookup_none hpositional hkeyword hlookup,
            bindNamed_of_lookup_none hpositional hkeyword hothers,
            ih hsignature.tail hperm hnamed hrest]
      | some value =>
          rw [hlookup] at hothers
          rw [bindNamed_of_lookup_some hpositional hkeyword hlookup,
            bindNamed_of_lookup_some hpositional hkeyword hothers,
            ih hsignature.tail (hperm.filter _) (hnamed.sublist (List.filter_sublist.map _))
              (unclaimed_rest hunclaimed)]

/-! ## Position or name -/

/-- Arguments for the first parameters of a signature can all be passed by name. -/
theorem bindArguments_eq_bindNamed (hsignature : signature.WellFormed)
    (hperm : others.Perm (named ++ asNamed moved)) (hothers : (others.map Prod.fst).Nodup)
    (hparameters : moved.map Prod.fst <+: signature)
    (hkinds : ∀ p ∈ moved.map Prod.fst, p.kind = .positionalOrKeyword)
    (hunclaimed : signature.unclaimed named = signature.unclaimed others) :
    signature.bindArguments ⟨moved.map Prod.snd, named⟩ = bindNamed signature others := by
  induction moved generalizing signature others with
  | nil =>
      rw [asNamed, List.map_nil, List.append_nil] at hperm
      rw [List.map_nil, bindArguments_nil_positional]
      exact bindNamed_eq_of_perm hsignature hperm.symm
        ((hperm.map Prod.fst).nodup_iff.mp hothers) hunclaimed
  | cons argument moved ih =>
      obtain ⟨p, value⟩ := argument
      obtain ⟨signature, rfl, htail⟩ := List.cons_prefix_iff.mp hparameters
      have hkind : p.kind = .positionalOrKeyword := hkinds p List.mem_cons_self
      -- The argument of this parameter is the first one that moves.
      have hfront : others.Perm ((p.name, value) :: (named ++ asNamed moved)) :=
        hperm.trans List.perm_middle
      have hlookup : others.lookup p.name = some value := by
        rw [lookup_eq_of_perm hfront hothers, List.lookup_cons_self]
      have hnone : named.lookup p.name = none := by
        rw [← Option.not_isSome_iff_eq_none, isSome_lookup_iff]
        intro hmem
        have hnodup := (hfront.map Prod.fst).nodup_iff.mp hothers
        exact (List.nodup_cons.mp hnodup).1 (by simp [hmem])
      have hrest := unclaimed_rest hunclaimed
      rw [filter_ne_of_lookup_none hnone] at hrest
      have hothersRest : (others.filter fun argument => argument.1 != p.name).Perm
          (named ++ asNamed moved) :=
        ((perm_cons_filter_of_lookup hothers hlookup).symm.trans hfront).cons_inv
      have hbound := ih hsignature.tail hothersRest (hothers.sublist (List.filter_sublist.map _))
        htail (fun q hq => hkinds q (List.mem_cons_of_mem _ hq)) hrest
      have hposition : bindArguments (p :: signature) ⟨value :: moved.map Prod.snd, named⟩ =
          ((p.name, value) :: ·) <$> bindArguments signature ⟨moved.map Prod.snd, named⟩ := by
        rw [bindArguments_cons_of_positionalOrKeyword hkind, isNamed, hnone]
        rfl
      have hname : bindNamed (p :: signature) others = ((p.name, value) :: ·) <$>
          bindNamed signature (others.filter fun argument => argument.1 != p.name) := by
        rw [bindNamed_of_lookup_some (by simp [hkind]) (by simp [hkind]) hlookup,
          if_neg (by simp [hkind])]
      rw [List.map_cons, hposition, hname, hbound]

theorem asNamed_names : (asNamed moved).map Prod.fst = (moved.map Prod.fst).map Parameter.name := by
  simp [asNamed]

/-- Parameters behind one that collects positional arguments cannot be passed by position. -/
theorem WellFormed.not_positionalOrKeyword_of_restPositional {q : Parameter}
    (h : WellFormed (p :: signature)) (hkind : p.kind = .restPositional) (hq : q ∈ signature) :
    q.kind ≠ .positionalOrKeyword := by
  intro hq'
  have hprecedes := List.rel_of_pairwise_cons h.kinds hq
  rw [hkind, hq'] at hprecedes
  cases hprecedes

/-- Moving arguments to parameters behind a first one does not pass a name to that one. -/
theorem isNamed_eq_of_moved (hsignature : WellFormed (p :: signature))
    (hperm : others.Perm (named ++ asNamed moved))
    (hmoved : ∀ q ∈ moved.map Prod.fst, q ∈ signature) :
    isNamed named p.name = isNamed others p.name := by
  have hname : p.name ∉ (asNamed moved).map Prod.fst := by
    rw [asNamed_names]
    intro hmem
    obtain ⟨q, hq, hqname⟩ := List.mem_map.mp hmem
    exact hsignature.notMem_tail (hqname ▸ List.mem_map_of_mem (hmoved q hq))
  rw [Bool.eq_iff_iff, isNamed, isNamed, isSome_lookup_iff, isSome_lookup_iff,
    (hperm.map Prod.fst).mem_iff, List.map_append, List.mem_append, or_iff_left hname]

/-- The last positional arguments can be passed by name, whatever stands before them. -/
theorem bindArguments_append {values : List Value} (hsignature : signature.WellFormed)
    (hperm : others.Perm (named ++ asNamed moved)) (hothers : (others.map Prod.fst).Nodup)
    (hparameters : moved.map Prod.fst <+: signature.drop values.length)
    (hkinds : ∀ p ∈ moved.map Prod.fst, p.kind = .positionalOrKeyword)
    (hunclaimed : signature.unclaimed named = signature.unclaimed others) :
    signature.bindArguments ⟨values ++ moved.map Prod.snd, named⟩ =
      signature.bindArguments ⟨values, others⟩ := by
  induction values generalizing signature with
  | nil =>
      rw [bindArguments_nil_positional]
      exact bindArguments_eq_bindNamed hsignature hperm hothers hparameters hkinds hunclaimed
  | cons value values ih =>
      cases signature with
      | nil => rfl
      | cons p signature =>
          have hmoved : ∀ q ∈ moved.map Prod.fst, q ∈ signature := fun q hq =>
            List.mem_of_mem_drop (hparameters.subset hq)
          cases hkind : p.kind with
          | positionalOnly =>
              have hrest := unclaimed_tail hunclaimed (by simp [takesName, hkind])
              rw [List.cons_append, bindArguments_cons_of_positionalOnly hkind,
                bindArguments_cons_of_positionalOnly hkind, ih hsignature.tail hparameters hrest]
          | positionalOrKeyword =>
              have hsame := isNamed_eq_of_moved hsignature hperm hmoved
              rw [List.cons_append, bindArguments_cons_of_positionalOrKeyword hkind,
                bindArguments_cons_of_positionalOrKeyword hkind, hsame]
              split
              · rfl
              · rename_i hfree
                have hfree' : ¬ isNamed named p.name = true := by rwa [hsame]
                have hrest := unclaimed_of_lookup_none hunclaimed
                  (Option.not_isSome_iff_eq_none.mp hfree') (Option.not_isSome_iff_eq_none.mp hfree)
                rw [ih hsignature.tail hparameters hrest]
          | restPositional =>
              -- It takes all the arguments that are left, so none of them is moved.
              have hnil : moved = [] := by
                refine List.eq_nil_iff_forall_not_mem.mpr fun argument hargument => ?_
                have hq := List.mem_map_of_mem (f := Prod.fst) hargument
                exact hsignature.not_positionalOrKeyword_of_restPositional hkind (hmoved _ hq)
                  (hkinds _ hq)
              subst hnil
              rw [asNamed, List.map_nil, List.append_nil] at hperm
              have hrest := unclaimed_tail hunclaimed (by simp [takesName, hkind])
              rw [List.map_nil, List.append_nil, bindArguments_cons_of_restPositional hkind,
                bindArguments_cons_of_restPositional hkind,
                bindNamed_eq_of_perm hsignature.tail hperm hothers hrest.symm]
          | _ =>
              have hbyName : isByName p = true := by simp [isByName, hkind]
              rw [List.cons_append, bindArguments_cons_of_isByName hbyName,
                bindArguments_cons_of_isByName hbyName]

/-- Spellings of a call are bound alike, or cannot be bound for the same reason. -/
theorem bindArguments_eq_of_respelled (hsignature : signature.WellFormed)
    (hsecond : (second.named.map Prod.fst).Nodup) (h : Respelled signature moved first second) :
    signature.bindArguments first = signature.bindArguments second := by
  obtain ⟨positional, named⟩ := first
  obtain ⟨rfl, hperm, hparameters, hkinds, hunclaimed⟩ := h
  exact bindArguments_append hsignature hperm hsecond hparameters hkinds hunclaimed

/-! ## Views -/

/-- The view of a call of a function with a signature. -/
def viewOf [Host] (signature : Signature) (arguments : Arguments) : Except Fault CallView := do
  CallView.ofValue (← signature.bind arguments)

theorem bind_eq_ok_iff {arguments : Arguments} {call : Value} :
    signature.bind arguments = .ok call ↔
      ∃ bound, signature.bindArguments arguments = .ok bound ∧ call = .bound signature bound := by
  unfold bind
  split
  · rename_i bound hbound
    simp [hbound, eq_comm]
  · rename_i fault hfault
    simp [hfault]

theorem map_fst_entriesOf : (entriesOf named).map Prod.fst = (named.map Prod.fst).map .str := by
  simp [entriesOf]

theorem map_snd_entriesOf : (entriesOf named).map Prod.snd = named.map Prod.snd := by
  simp [entriesOf]

/-- A bound call has a view in which every argument that was passed comes once, each under its position or
under the name it was passed by. -/
theorem exists_view [Host] (hsignature : signature.WellFormed) {arguments : Arguments}
    (hnamed : (arguments.named.map Prod.fst).Nodup) {call : Value}
    (h : signature.bind arguments = .ok call) :
    ∃ view, signature.viewOf arguments = .ok view ∧ view.keys.length = view.values.length ∧
      view.values.length = arguments.positional.length + arguments.named.length ∧
      view.values.Perm (arguments.positional ++ arguments.named.map Prod.snd) ∧
      ∃ count names, view.keys = CallView.positions count ++ names.map .str ∧ names.Nodup ∧
        names ⊆ arguments.named.map Prod.fst := by
  obtain ⟨bound, hbound, rfl⟩ := bind_eq_ok_iff.mp h
  obtain ⟨front, back, hperm, hfront, hback⟩ := exists_spread hsignature hnamed hbound
  have hnames := (hperm.map Prod.fst).nodup_iff.mpr hnamed
  have hvalues : (arguments.positional ++ front.map Prod.snd ++ back.map Prod.snd).Perm
      (arguments.positional ++ arguments.named.map Prod.snd) := by
    rw [List.append_assoc, ← List.map_append]
    exact (hperm.map Prod.snd).append_left _
  refine ⟨⟨CallView.positions (arguments.positional ++ front.map Prod.snd).length ++
      (back.map Prod.fst).map .str, arguments.positional ++ front.map Prod.snd ++ back.map Prod.snd⟩,
    ?_, ?_, ?_, hvalues, _, back.map Prod.fst, rfl, ?_, ?_⟩
  · rw [viewOf, h]
    show CallView.ofValue (.bound signature bound) = _
    simp [CallView.ofValue, CallView.ofPositional, CallView.ofEntries, CallView.append, hfront, hback,
      map_fst_entriesOf, map_snd_entriesOf]
  · simp [CallView.positions, Nat.add_assoc]
  · simpa using hvalues.length_eq
  · rw [List.map_append] at hnames
    exact (List.nodup_append.mp hnames).2.1
  · intro name hname
    rw [← (hperm.map Prod.fst).mem_iff, List.map_append]
    exact List.mem_append_right _ hname

/-- No argument of a call is lost, and how it is spelled does not show.

Let a signature have different names and its kinds in order, and the named arguments of a call be
different.  If the call binds, its view has one key for each value, and the values are the arguments that
were passed, each once; the keys are the first positions, followed by different names out of those that
were passed.

Two calls that differ only in whether their last arguments are passed by position or by name, or in the
order of the named arguments that parameters take, have the same view, or do not bind for the same reason;
so a guarded function does the same on both. -/
theorem view_keeps_arguments [Host] (hsignature : signature.WellFormed) :
    (∀ (arguments : Arguments) (call : Value), (arguments.named.map Prod.fst).Nodup →
      signature.bind arguments = .ok call →
      ∃ view, signature.viewOf arguments = .ok view ∧ view.keys.length = view.values.length ∧
        view.values.length = arguments.positional.length + arguments.named.length ∧
        view.values.Perm (arguments.positional ++ arguments.named.map Prod.snd) ∧
        ∃ count names, view.keys = CallView.positions count ++ names.map .str ∧ names.Nodup ∧
          names ⊆ arguments.named.map Prod.fst) ∧
    ∀ (moved : List (Parameter × Value)) (first second : Arguments),
      (second.named.map Prod.fst).Nodup → signature.Respelled moved first second →
      signature.viewOf first = signature.viewOf second ∧
      ∀ (guard : Guard) (schema : Value) (strict : Bool) (active : Strategy),
        (Guarded.mk guard schema strict signature).validate active first =
          (Guarded.mk guard schema strict signature).validate active second := by
  refine ⟨fun arguments call hnamed h => exists_view hsignature hnamed h, ?_⟩
  intro moved first second hsecond hrespelled
  have hbind : signature.bind first = signature.bind second := by
    rw [bind, bind, bindArguments_eq_of_respelled hsignature hsecond hrespelled]
  refine ⟨by rw [viewOf, viewOf, hbind], ?_⟩
  intro guard schema strict active
  rw [Guarded.validate, Guarded.validate, hbind]

/-- A signature with a parameter of each kind. -/
def sampleSignature : Signature := [
  ⟨"host", .positionalOnly, false⟩, ⟨"name", .positionalOrKeyword, false⟩,
  ⟨"count", .positionalOrKeyword, true⟩, ⟨"rest", .restPositional, false⟩,
  ⟨"flag", .keywordOnly, true⟩, ⟨"options", .restKeyword, false⟩]

/-- A call that passes a name and a count by position. -/
def byPosition : Arguments :=
  ⟨[.int 1, .str "x", .int 2], [("host", .int 7), ("flag", .bool true)]⟩

/-- The same call with the name and the count passed by name. -/
def byName : Arguments :=
  ⟨[.int 1], [("count", .int 2), ("name", .str "x"), ("flag", .bool true), ("host", .int 7)]⟩

/-- The argument that is passed under the name of the first parameter is collected with it, since that
parameter cannot be passed by name. -/
theorem view_keeps_arguments_of_sample : letI := Host.quiet
    sampleSignature.WellFormed ∧
    sampleSignature.bind byPosition = .ok (.bound sampleSignature
      [("host", .int 1), ("name", .str "x"), ("count", .int 2), ("flag", .bool true),
        ("options", .record .plain [(.str "host", .int 7)])]) ∧
    (∃ view, sampleSignature.viewOf byPosition = .ok view ∧ view.keys.length = view.values.length ∧
      view.values.length = byPosition.positional.length + byPosition.named.length ∧
      view.values.Perm (byPosition.positional ++ byPosition.named.map Prod.snd) ∧
      ∃ count names, view.keys = CallView.positions count ++ names.map .str ∧ names.Nodup ∧
        names ⊆ byPosition.named.map Prod.fst) ∧
    sampleSignature.viewOf byPosition = sampleSignature.viewOf byName ∧
    ∀ (guard : Guard) (schema : Value) (strict : Bool) (active : Strategy),
      (Guarded.mk guard schema strict sampleSignature).validate active byPosition =
        (Guarded.mk guard schema strict sampleSignature).validate active byName := by
  let _ := Host.quiet
  have hsignature : sampleSignature.WellFormed := ⟨by decide, by decide⟩
  have hbind : sampleSignature.bind byPosition = .ok (.bound sampleSignature
      [("host", .int 1), ("name", .str "x"), ("count", .int 2), ("flag", .bool true),
        ("options", .record .plain [(.str "host", .int 7)])]) := rfl
  have hrespelled : sampleSignature.Respelled
      [(⟨"name", .positionalOrKeyword, false⟩, .str "x"),
        (⟨"count", .positionalOrKeyword, true⟩, .int 2)] byPosition byName :=
    ⟨rfl, (List.reverse_perm byName.named).symm, ⟨_, rfl⟩, by decide, rfl⟩
  obtain ⟨hview, hspelled⟩ := view_keeps_arguments hsignature
  have hsame := hspelled _ byPosition byName (by decide) hrespelled
  exact ⟨hsignature, hbind, hview byPosition _ (by decide) hbind, hsame.1, hsame.2⟩

end Signature
end CallSchema
