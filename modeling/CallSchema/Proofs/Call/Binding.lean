import CallSchema.Call.View
import CallSchema.Proofs.Run
import CallSchema.Proofs.Table

/-!
# Binding, one parameter at a time

Arguments are bound in phases: by position, by name, and what is left over.  Each phase goes through the
parameters, so together they can be taken apart one parameter at a time: a positional value goes to the
first parameter (`bindArguments_cons`), and without one the rest of the call is bound by name
(`bindArguments_nil_positional`, `bindNamed`).

Along these equations nothing is lost: a bound call is spread out into all the positional values, followed
by some of the named ones, and then the others with their names (`exists_spread`).
-/

namespace CallSchema

/-- Whether a parameter of the first kind may stand before one of the second kind. -/
def ParameterKind.precedes : ParameterKind → ParameterKind → Bool
  | positionalOnly, _ => true
  | positionalOrKeyword, other => other ≠ positionalOnly
  | restPositional, other => other = keywordOnly ∨ other = restKeyword
  | keywordOnly, other => other = keywordOnly ∨ other = restKeyword
  | restKeyword, _ => false

namespace Signature

/-- The signatures that functions have: no two parameters share a name, the kinds are in order, and there
is at most one parameter of each kind that collects. -/
structure WellFormed (signature : Signature) : Prop where
  names : (signature.map Parameter.name).Nodup
  kinds : signature.Pairwise fun p q => p.kind.precedes q.kind = true

/-- Binds the named arguments to the parameters that are still to go. -/
def bindNamed (rest : Signature) (named : List (String × Value)) :
    Except BindingFault (List (String × Value)) := do
  let (byName, left) ← fillByName rest named
  let collected ← fillRest rest left
  return byName ++ collected

variable {signature : Signature} {p : Parameter} {named : List (String × Value)} {value : Value}
  {values : List Value}

theorem WellFormed.tail (h : WellFormed (p :: signature)) : signature.WellFormed where
  names := h.names.tail
  kinds := h.kinds.tail

theorem WellFormed.notMem_tail (h : WellFormed (p :: signature)) :
    p.name ∉ signature.map Parameter.name := (List.nodup_cons.mp h.names).1

/-- The parameter that collects the named arguments is the last one. -/
theorem WellFormed.eq_nil_of_restKeyword (h : WellFormed (p :: signature))
    (hkind : p.kind = .restKeyword) : signature = [] := by
  refine List.eq_nil_iff_forall_not_mem.mpr fun q hq => ?_
  have hprecedes := List.rel_of_pairwise_cons h.kinds hq
  rw [hkind] at hprecedes
  cases hprecedes

/-! ## Named arguments -/

theorem keywordRest?_cons (h : p.kind ≠ .restKeyword) :
    keywordRest? (p :: signature) = signature.keywordRest? := by
  rw [keywordRest?, List.reverse_cons, List.find?_append, List.find?_singleton,
    if_neg (by simpa using h), Option.or_none]
  rfl

theorem fillRest_cons (h : p.kind ≠ .restKeyword) :
    fillRest (p :: signature) = fillRest signature := by
  funext left
  cases left with
  | nil => rfl
  | cons argument left => rw [fillRest, fillRest, keywordRest?_cons h]

theorem bindNamed_of_restPositional (h : p.kind = .restPositional) :
    bindNamed (p :: signature) named = bindNamed signature named := by
  have hfill : fillByName (p :: signature) named = fillByName signature named := by
    rw [fillByName, h]
  rw [bindNamed, bindNamed, hfill, fillRest_cons (by simp [h])]

/-- What is left over goes to the parameter that collects it. -/
theorem bindNamed_of_restKeyword (h : p.kind = .restKeyword) :
    bindNamed [p] named = .ok (if named = [] then [] else [(p.name, recordOf named)]) := by
  have hfill : fillByName [p] named = .ok ([], named) := by
    rw [fillByName, h]
    rfl
  cases named with
  | nil => simp only [bindNamed, hfill]; rfl
  | cons argument named =>
      have hrest : keywordRest? [p] = some p := by simp [keywordRest?, h]
      simp only [bindNamed, hfill, fillRest, hrest]
      rfl

section Direct

variable (hpositional : p.kind ≠ .restPositional) (hkeyword : p.kind ≠ .restKeyword)

include hpositional hkeyword

/-- A parameter that collects nothing is filled by its own name. -/
theorem bindNamed_of_lookup_none (hlookup : named.lookup p.name = none) :
    bindNamed (p :: signature) named =
      if p.isOptional then bindNamed signature named else .error (.missing p.name) := by
  have hfill : fillByName (p :: signature) named =
      if p.isOptional then fillByName signature named else .error (.missing p.name) := by
    rw [fillByName, hlookup]
    split
    · contradiction
    · contradiction
    · rfl
  rw [bindNamed, bindNamed, hfill, fillRest_cons hkeyword]
  split
  · rfl
  · rfl

theorem bindNamed_of_lookup_some (hlookup : named.lookup p.name = some value) :
    bindNamed (p :: signature) named =
      if p.kind = .positionalOnly then .error (.positionalOnlyByName p.name)
      else ((p.name, value) :: ·) <$>
        bindNamed signature (named.filter fun argument => argument.1 != p.name) := by
  have hfill : fillByName (p :: signature) named =
      if p.kind = .positionalOnly then .error (.positionalOnlyByName p.name)
      else do
        let (bound, rest) ←
          fillByName signature (named.filter fun argument => argument.1 != p.name)
        return ((p.name, value) :: bound, rest) := by
    rw [fillByName, hlookup]
    split
    · contradiction
    · contradiction
    · rfl
  rw [bindNamed, bindNamed, hfill, fillRest_cons hkeyword]
  split
  · rfl
  · simp

/-- Where the positional arguments have run out, the next parameter must be left to its name. -/
theorem fillByPosition_nil_of_lookup_none (signature : Signature) (hlookup : named.lookup p.name = none) :
    fillByPosition named (p :: signature) [] =
      if p.isOptional then .ok ([], p :: signature) else .error (.missing p.name) := by
  rw [fillByPosition, isNamed, hlookup]
  split
  · contradiction
  · rfl
  · contradiction
  · rfl

theorem fillByPosition_nil_of_lookup_some (signature : Signature)
    (hlookup : named.lookup p.name = some value) :
    fillByPosition named (p :: signature) [] =
      if p.kind = .positionalOnly then .error (.positionalOnlyByName p.name)
      else .ok ([], p :: signature) := by
  rw [fillByPosition, isNamed, hlookup]
  split
  · contradiction
  · rename_i honly
    exact (if_pos honly).symm
  · contradiction
  · rename_i honly _
    exact (if_neg honly).symm

end Direct

/-! ## Positional arguments -/

/-- Binding by position comes first, and the rest of the call is bound by name. -/
theorem bindArguments_of_filled {bound : List (String × Value)} {rest : Signature}
    (h : signature.fillByPosition named values = .ok (bound, rest)) :
    signature.bindArguments ⟨values, named⟩ = (bound ++ ·) <$> bindNamed rest named := by
  rw [bindArguments, h]
  change (pure (bound, rest) >>= _) = _
  simp [bindNamed, List.append_assoc]

theorem bindArguments_of_fault {fault : BindingFault}
    (h : signature.fillByPosition named values = .error fault) :
    signature.bindArguments ⟨values, named⟩ = .error fault := by
  rw [bindArguments, h]
  rfl

/-- Without positional arguments the whole call is bound by name. -/
theorem bindArguments_nil_positional :
    signature.bindArguments ⟨[], named⟩ = bindNamed signature named := by
  have hrest : ∀ rest : Signature, signature.fillByPosition named [] = .ok ([], rest) →
      signature.bindArguments ⟨[], named⟩ = bindNamed rest named := by
    intro rest hfill
    simp [bindArguments_of_filled hfill]
  cases signature with
  | nil => exact hrest [] rfl
  | cons p signature =>
      by_cases hpositional : p.kind = .restPositional
      · rw [bindNamed_of_restPositional hpositional]
        exact hrest signature (by rw [fillByPosition, hpositional])
      by_cases hkeyword : p.kind = .restKeyword
      · exact hrest (p :: signature) (by rw [fillByPosition, hkeyword])
      cases hlookup : named.lookup p.name with
      | none =>
          have hfill := fillByPosition_nil_of_lookup_none hpositional hkeyword signature hlookup
          by_cases hoptional : p.isOptional = true
          · exact hrest _ (by rw [hfill, if_pos hoptional])
          · rw [if_neg hoptional] at hfill
            rw [bindArguments_of_fault hfill, bindNamed_of_lookup_none hpositional hkeyword hlookup,
              if_neg hoptional]
      | some value =>
          have hfill := fillByPosition_nil_of_lookup_some hpositional hkeyword signature hlookup
          by_cases honly : p.kind = .positionalOnly
          · rw [if_pos honly] at hfill
            rw [bindArguments_of_fault hfill, bindNamed_of_lookup_some hpositional hkeyword hlookup,
              if_pos honly]
          · exact hrest _ (by rw [hfill, if_neg honly])

/-- A positional argument goes to the first parameter. -/
theorem bindArguments_cons_of_fill
    (h : fillByPosition named (p :: signature) (value :: values) =
      (fun filled => ((p.name, value) :: filled.1, filled.2)) <$>
        fillByPosition named signature values) :
    bindArguments (p :: signature) ⟨value :: values, named⟩ =
      ((p.name, value) :: ·) <$> signature.bindArguments ⟨values, named⟩ := by
  cases hfill : fillByPosition named signature values with
  | error fault =>
      rw [hfill] at h
      rw [bindArguments_of_fault hfill]
      exact bindArguments_of_fault h
  | ok filled =>
      rw [hfill] at h
      rw [bindArguments_of_filled hfill, bindArguments_of_filled h]
      simp

theorem bindArguments_cons_of_positionalOnly (h : p.kind = .positionalOnly) :
    bindArguments (p :: signature) ⟨value :: values, named⟩ =
      ((p.name, value) :: ·) <$> signature.bindArguments ⟨values, named⟩ := by
  refine bindArguments_cons_of_fill ?_
  rw [fillByPosition, h]
  simp

theorem bindArguments_cons_of_positionalOrKeyword (h : p.kind = .positionalOrKeyword) :
    bindArguments (p :: signature) ⟨value :: values, named⟩ =
      if isNamed named p.name then .error (.multipleValues p.name)
      else ((p.name, value) :: ·) <$> signature.bindArguments ⟨values, named⟩ := by
  by_cases hnamed : isNamed named p.name = true
  · rw [if_pos hnamed]
    refine bindArguments_of_fault ?_
    rw [fillByPosition, h]
    exact if_pos hnamed
  · rw [if_neg hnamed]
    refine bindArguments_cons_of_fill ?_
    rw [fillByPosition, h]
    simp [hnamed]

/-- A parameter that collects positional arguments takes all that are left. -/
theorem bindArguments_cons_of_restPositional (h : p.kind = .restPositional) :
    bindArguments (p :: signature) ⟨value :: values, named⟩ =
      ((p.name, .seq .tuple (value :: values)) :: ·) <$> bindNamed signature named := by
  have hfill : fillByPosition named (p :: signature) (value :: values) =
      .ok ([(p.name, .seq .tuple (value :: values))], signature) := by
    rw [fillByPosition, h]
  exact bindArguments_of_filled hfill

theorem bindArguments_cons_of_isByName (h : isByName p = true) :
    bindArguments (p :: signature) ⟨value :: values, named⟩ = .error .tooManyPositional := by
  refine bindArguments_of_fault ?_
  rw [fillByPosition]
  cases hkind : p.kind <;> simp_all [isByName]

/-! ## Spreading a bound call out -/

/-- Named arguments as the entries of a record. -/
def entriesOf (named : List (String × Value)) : List (Value × Value) :=
  named.map fun argument => (.str argument.1, argument.2)

/-- What binding by name can come to: each parameter is passed over or takes the argument of its name, and
the last one may collect what is left. -/
inductive BoundByName : Signature → List (String × Value) → List (String × Value) → Prop where
  | nil : BoundByName [] [] []
  | skip {p : Parameter} {signature : Signature} {named bound : List (String × Value)}
      (hrest : BoundByName signature named bound) : BoundByName (p :: signature) named bound
  | take {p : Parameter} {signature : Signature} {named bound : List (String × Value)} {value : Value}
      (hkind : p.kind ≠ .restKeyword) (hpositional : p.kind ≠ .restPositional)
      (hlookup : named.lookup p.name = some value)
      (hrest : BoundByName signature (named.filter fun argument => argument.1 != p.name) bound) :
      BoundByName (p :: signature) named ((p.name, value) :: bound)
  | collect {p : Parameter} {named : List (String × Value)} (hkind : p.kind = .restKeyword) :
      BoundByName [p] named [(p.name, recordOf named)]

variable {bound : List (String × Value)} {name : String}

theorem boundByName_of_bindNamed (hsignature : signature.WellFormed)
    (h : bindNamed signature named = .ok bound) : BoundByName signature named bound := by
  induction signature generalizing named bound with
  | nil =>
      cases named with
      | nil =>
          cases h
          exact .nil
      | cons argument named => cases h
  | cons p signature ih =>
      by_cases hpositional : p.kind = .restPositional
      · rw [bindNamed_of_restPositional hpositional] at h
        exact .skip (ih hsignature.tail h)
      by_cases hkeyword : p.kind = .restKeyword
      · obtain rfl := hsignature.eq_nil_of_restKeyword hkeyword
        rw [bindNamed_of_restKeyword hkeyword] at h
        obtain rfl := Except.ok.inj h
        split
        · subst named
          exact .skip .nil
        · exact .collect hkeyword
      cases hlookup : named.lookup p.name with
      | none =>
          rw [bindNamed_of_lookup_none hpositional hkeyword hlookup] at h
          split at h
          · exact .skip (ih hsignature.tail h)
          · cases h
      | some value =>
          rw [bindNamed_of_lookup_some hpositional hkeyword hlookup] at h
          split at h
          · cases h
          · obtain ⟨others, hothers, rfl⟩ := map_eq_ok_iff.mp h
            exact .take hkeyword hpositional hlookup (ih hsignature.tail hothers)

/-- Only parameters are bound. -/
theorem BoundByName.lookup_eq_none (h : BoundByName signature named bound)
    (hname : name ∉ signature.map Parameter.name) : bound.lookup name = none := by
  induction h with
  | nil => rfl
  | skip _ ih => exact ih (List.not_mem_of_not_mem_cons hname)
  | take _ _ _ _ ih =>
      have hne := List.ne_of_not_mem_cons hname
      rw [List.lookup_cons, beq_eq_false_iff_ne.mpr hne]
      exact ih (List.not_mem_of_not_mem_cons hname)
  | collect _ =>
      have hne := List.ne_of_not_mem_cons hname
      rw [List.lookup_cons, beq_eq_false_iff_ne.mpr hne]
      rfl

/-- The two lists bind the parameters of a signature to the same values. -/
def SameOn (signature : Signature) (bound others : List (String × Value)) : Prop :=
  ∀ p ∈ signature, bound.lookup p.name = others.lookup p.name

theorem sameOn_cons (hname : name ∉ signature.map Parameter.name) :
    SameOn signature ((name, value) :: bound) bound := by
  intro p hp
  have hne : p.name ≠ name := by
    rintro rfl
    exact hname (List.mem_map_of_mem hp)
  rw [List.lookup_cons, beq_eq_false_iff_ne.mpr hne]

section SameOn

variable {others : List (String × Value)}

theorem SameOn.allNamed (h : SameOn signature bound others) :
    allNamed bound signature = allNamed others signature := by
  induction signature with
  | nil => rfl
  | cons p signature ih =>
      obtain ⟨hfirst, hrest⟩ := List.forall_mem_cons.mp h
      simp only [Signature.allNamed, hfirst, ih hrest]

theorem SameOn.positionalPart (h : SameOn signature bound others) :
    positionalPart bound signature = positionalPart others signature := by
  induction signature with
  | nil => rfl
  | cons p signature ih =>
      obtain ⟨hfirst, hrest⟩ := List.forall_mem_cons.mp h
      simp only [Signature.positionalPart, hfirst, ih hrest]

theorem SameOn.namedPart (h : SameOn signature bound others) :
    namedPart bound signature = namedPart others signature := by
  induction signature with
  | nil => rfl
  | cons p signature ih =>
      obtain ⟨hfirst, hrest⟩ := List.forall_mem_cons.mp h
      simp only [Signature.namedPart, hfirst, ih hrest, h.allNamed]

end SameOn

/-- From a parameter on that is unbound or only has a name, nothing is passed by position. -/
theorem parts_of_isByName_or_unbound (signature : Signature)
    (h : isByName p = true ∨ bound.lookup p.name = none) :
    positionalPart bound (p :: signature) = [] ∧
      namedPart bound (p :: signature) = allNamed bound (p :: signature) := by
  rcases h with h | h
  · simp [positionalPart, namedPart, h]
  · simp [positionalPart, namedPart, h]

/-- What a bound parameter holds is passed by position, if it can be. -/
theorem parts_of_bound (signature : Signature) (hname : isByName p = false)
    (hlookup : bound.lookup p.name = some value) :
    positionalPart bound (p :: signature) =
        positionalOf p value ++ positionalPart bound signature ∧
      namedPart bound (p :: signature) = namedPart bound signature := by
  simp [positionalPart, namedPart, hname, hlookup]

/-- All named arguments come back with their names, the collected ones too. -/
theorem BoundByName.exists_allNamed (h : BoundByName signature named bound)
    (hnames : (signature.map Parameter.name).Nodup) (hnamed : (named.map Prod.fst).Nodup) :
    ∃ back, back.Perm named ∧ allNamed bound signature = entriesOf back := by
  induction h with
  | nil => exact ⟨[], .refl _, rfl⟩
  | @skip p signature named bound hrest ih =>
      obtain ⟨hp, hnames⟩ := List.nodup_cons.mp hnames
      obtain ⟨back, hperm, hback⟩ := ih hnames hnamed
      exact ⟨back, hperm, by rw [allNamed, hrest.lookup_eq_none hp, hback]⟩
  | @take p signature named bound value hkind _ hlookup _ ih =>
      obtain ⟨hp, hnames⟩ := List.nodup_cons.mp hnames
      obtain ⟨back, hperm, hback⟩ := ih hnames (hnamed.sublist (List.filter_sublist.map _))
      refine ⟨(p.name, value) :: back, ?_, ?_⟩
      · exact (hperm.cons _).trans (perm_cons_filter_of_lookup hnamed hlookup).symm
      · simp [allNamed, namedOf, hkind, (sameOn_cons hp).allNamed, hback, entriesOf]
  | @collect p named hkind =>
      refine ⟨named, .refl _, ?_⟩
      simp [allNamed, namedOf, hkind, collectedEntries, recordOf, entriesOf]

/-- The named arguments of a call are spread out in two parts, of which the first loses its names. -/
theorem BoundByName.exists_spread (h : BoundByName signature named bound)
    (hnames : (signature.map Parameter.name).Nodup) (hnamed : (named.map Prod.fst).Nodup) :
    ∃ front back, (front ++ back).Perm named ∧
      positionalPart bound signature = front.map Prod.snd ∧
      namedPart bound signature = entriesOf back := by
  -- Where the named part begins, it is all of the arguments that are left.
  have hall : ∀ {p signature named bound}, BoundByName (p :: signature) named bound →
      ((p :: signature).map Parameter.name).Nodup → (named.map Prod.fst).Nodup →
      isByName p = true ∨ bound.lookup p.name = none →
      ∃ front back, (front ++ back).Perm named ∧
        positionalPart bound (p :: signature) = front.map Prod.snd ∧
        namedPart bound (p :: signature) = entriesOf back := by
    intro p signature named bound h hnames hnamed hstart
    obtain ⟨back, hperm, hback⟩ := h.exists_allNamed hnames hnamed
    obtain ⟨hpositional, hnamedPart⟩ := parts_of_isByName_or_unbound signature hstart
    exact ⟨[], back, hperm, hpositional, hnamedPart.trans hback⟩
  induction h with
  | nil => exact ⟨[], [], .refl _, rfl, rfl⟩
  | skip hrest _ =>
      exact hall (.skip hrest) hnames hnamed
        (Or.inr (hrest.lookup_eq_none (List.nodup_cons.mp hnames).1))
  | collect hkind => exact hall (.collect hkind) hnames hnamed (Or.inl (by simp [isByName, hkind]))
  | @take p signature named bound value hkind hpositional hlookup hrest ih =>
      cases hname : isByName p with
      | true => exact hall (.take hkind hpositional hlookup hrest) hnames hnamed (Or.inl hname)
      | false =>
          obtain ⟨hp, hnames⟩ := List.nodup_cons.mp hnames
          obtain ⟨front, back, hperm, hfront, hback⟩ :=
            ih hnames (hnamed.sublist (List.filter_sublist.map _))
          have hlookup' : ((p.name, value) :: bound).lookup p.name = some value :=
            List.lookup_cons_self
          obtain ⟨hfirst, hsecond⟩ := parts_of_bound signature hname hlookup'
          refine ⟨(p.name, value) :: front, back, ?_, ?_, ?_⟩
          · exact (hperm.cons _).trans (perm_cons_filter_of_lookup hnamed hlookup).symm
          · rw [hfirst, (sameOn_cons hp).positionalPart, hfront, positionalOf, if_neg hpositional]
            rfl
          · rw [hsecond, (sameOn_cons hp).namedPart, hback]

/-- With a positional argument the first parameter is bound, to it or to all of them, and the rest of the
call is bound to the other parameters. -/
theorem exists_of_bindArguments_cons
    (h : bindArguments (p :: signature) ⟨value :: values, named⟩ = .ok bound) :
    isByName p = false ∧ ∃ argument rest others,
      value :: values = positionalOf p argument ++ rest ∧
      signature.bindArguments ⟨rest, named⟩ = .ok others ∧ bound = (p.name, argument) :: others := by
  cases hkind : p.kind with
  | positionalOnly =>
      rw [bindArguments_cons_of_positionalOnly hkind] at h
      obtain ⟨others, hothers, rfl⟩ := map_eq_ok_iff.mp h
      exact ⟨by simp [isByName, hkind], value, values, others, by simp [positionalOf, hkind],
        hothers, rfl⟩
  | positionalOrKeyword =>
      rw [bindArguments_cons_of_positionalOrKeyword hkind] at h
      split at h
      · cases h
      · obtain ⟨others, hothers, rfl⟩ := map_eq_ok_iff.mp h
        exact ⟨by simp [isByName, hkind], value, values, others, by simp [positionalOf, hkind],
          hothers, rfl⟩
  | restPositional =>
      rw [bindArguments_cons_of_restPositional hkind] at h
      obtain ⟨others, hothers, rfl⟩ := map_eq_ok_iff.mp h
      exact ⟨by simp [isByName, hkind], .seq .tuple (value :: values), [], others,
        by simp [positionalOf, hkind, collectedItems],
        bindArguments_nil_positional.trans hothers, rfl⟩
  | _ =>
      rw [bindArguments_cons_of_isByName (by simp [isByName, hkind])] at h
      cases h

/-- A bound call is spread out into the positional arguments, then some of the named ones without their
names, and then the others under their names. -/
theorem exists_spread (hsignature : signature.WellFormed) (hnamed : (named.map Prod.fst).Nodup)
    (h : signature.bindArguments ⟨values, named⟩ = .ok bound) :
    ∃ front back, (front ++ back).Perm named ∧
      positionalPart bound signature = values ++ front.map Prod.snd ∧
      namedPart bound signature = entriesOf back := by
  induction signature generalizing values bound with
  | nil =>
      cases values with
      | nil =>
          rw [bindArguments_nil_positional] at h
          exact (boundByName_of_bindNamed hsignature h).exists_spread hsignature.names hnamed
      | cons value values => cases h
  | cons p signature ih =>
      cases values with
      | nil =>
          rw [bindArguments_nil_positional] at h
          exact (boundByName_of_bindNamed hsignature h).exists_spread hsignature.names hnamed
      | cons value values =>
          obtain ⟨hname, argument, rest, others, hvalues, hrest, rfl⟩ :=
            exists_of_bindArguments_cons h
          obtain ⟨front, back, hperm, hfront, hback⟩ := ih hsignature.tail hrest
          have hlookup : ((p.name, argument) :: others).lookup p.name = some argument :=
            List.lookup_cons_self
          obtain ⟨hfirst, hsecond⟩ := parts_of_bound signature hname hlookup
          have hsame : SameOn signature ((p.name, argument) :: others) others :=
            sameOn_cons hsignature.notMem_tail
          refine ⟨front, back, hperm, ?_, ?_⟩
          · rw [hfirst, hsame.positionalPart, hfront, hvalues, List.append_assoc]
          · rw [hsecond, hsame.namedPart, hback]

end Signature
end CallSchema
