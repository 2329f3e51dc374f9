import CallSchema.Proofs.Run
import CallSchema.Proofs.TypeExpr.Respelling
import CallSchema.TypeExpr.Check

/-!
# Canonical texts

The canonical text of an expression has one spelling for each keyword.  It is a respelling of every text
that the expression was read from (`respelt_canonical`), so it falls into the same form
(`formOf_canonical_union` and its companions), and reading it gives the same expression again, with
canonical texts in the place of the stored ones (`ofChars_canonical`).  Stored texts are only cited in
reasons: a check with other texts calls the same matchers and accepts or refuses alike
(`agree_check_retext`).
-/

namespace CallSchema

/-- Whether a refusal lets the argument be passed over. -/
def Verdict.isSoft : Verdict → Bool
  | accepted => false
  | refused _ soft => soft

/-- Two verdicts that say the same, apart from the reason. -/
structure Verdict.Alike (verdict other : Verdict) : Prop where
  isAccepted : verdict.isAccepted = other.isAccepted
  isSoft : verdict.isSoft = other.isSoft

theorem Verdict.Alike.refl (verdict : Verdict) : verdict.Alike verdict := ⟨rfl, rfl⟩

/-- Verdicts that are alike both accept, or both refuse, one as softly as the other. -/
theorem Verdict.Alike.eq_or {verdict other : Verdict} (h : verdict.Alike other) :
    (verdict = .accepted ∧ other = .accepted) ∨
      ∃ reason reason' soft, verdict = .refused reason soft ∧ other = .refused reason' soft := by
  obtain ⟨haccepted, hsoft⟩ := h
  cases verdict with
  | accepted =>
      cases other with
      | accepted => exact Or.inl ⟨rfl, rfl⟩
      | refused reason soft => cases haccepted
  | refused reason soft =>
      cases other with
      | accepted => cases haccepted
      | refused reason' soft' =>
          obtain rfl : soft = soft' := hsoft
          exact Or.inr ⟨reason, reason', soft, rfl, rfl⟩

namespace TypeExpr

/-- The text of an expression with one spelling for each keyword.  Only what reading gives has one. -/
def canonical : TypeExpr → String
  | leaf name => name
  | optional inner => "opt " ++ inner.canonical
  | union left right _ _ => left.canonical ++ " or " ++ right.canonical
  | array member _ => member.canonical ++ " array"
  | foreign _ => ""

/-- The expression with every stored text replaced by the canonical text of the part it stands for. -/
def retext : TypeExpr → TypeExpr
  | leaf name => leaf name
  | optional inner => optional inner.retext
  | union left right _ _ => union left.retext right.retext left.canonical right.canonical
  | array member _ => array member.retext member.canonical
  | foreign value => foreign value

@[simp] theorem canonical_retext (expr : TypeExpr) : expr.retext.canonical = expr.canonical := by
  induction expr with
  | leaf name => rfl
  | optional inner ih => rw [retext, canonical, canonical, ih]
  | union left right leftText rightText ihl ihr =>
      rw [retext, canonical, canonical, ihl, ihr]
  | array member memberText ih => rw [retext, canonical, canonical, ih]
  | foreign value => rfl

/-! ## The characters of a canonical text -/

theorem toList_canonical_optional (inner : TypeExpr) :
    (optional inner).canonical.toList = ['o', 'p', 't'] ++ ' ' :: inner.canonical.toList := by
  simp [canonical]

theorem toList_canonical_union (left right : TypeExpr) (leftText rightText : String) :
    (union left right leftText rightText).canonical.toList =
      left.canonical.toList ++ (separator ++ right.canonical.toList) := by
  simp [canonical, separator]

theorem toList_canonical_array (member : TypeExpr) (memberText : String) :
    (array member memberText).canonical.toList =
      member.canonical.toList ++ ' ' :: ['a', 'r', 'r', 'a', 'y'] := by
  simp [canonical]

theorem Respelt.separated {left left' right right' : List Char} (hleft : Respelt left left')
    (hright : Respelt right right') :
    Respelt (left ++ (separator ++ right)) (left' ++ (separator ++ right')) :=
  hleft.spaced ((Respelt.refl ['o', 'r']).spaced hright)

/-- The canonical text of what is read from a text is a respelling of that text. -/
theorem respelt_canonical (text : List Char) : Respelt text (ofChars text).canonical.toList := by
  induction text using ofChars.induct with
  | case1 text hform =>
      rw [ofChars_of_leaf hform, canonical, String.toList_ofList]
      exact Respelt.refl text
  | case2 text inner hform ih =>
      obtain ⟨word, rfl, hword, -⟩ := splitOptional?_eq_some_iff.mp (splitOptional?_of_formOf hform)
      rw [ofChars_of_optional hform, toList_canonical_optional]
      refine Respelt.spaced ?_ ih
      have hspace : ' ' ∉ word := not_mem_of_isOptionalKeyword hword (Or.inl rfl)
      rw [Respelt, words_of_not_mem hspace, words_of_not_mem (by decide)]
      exact .cons (Or.inr (Or.inl ⟨hword, by decide⟩)) .nil
  | case3 text left right hform ihleft ihright =>
      rw [ofChars_of_union hform, toList_canonical_union,
        (splitUnion?_eq_some_iff.mp (splitUnion?_of_formOf hform).2).1]
      exact ihleft.separated ihright
  | case4 text member hform ih =>
      obtain ⟨word, rfl, hword, -⟩ := splitArray?_eq_some_iff.mp (splitArray?_of_formOf hform).2.2
      rw [ofChars_of_array hform, toList_canonical_array]
      refine ih.spaced ?_
      have hspace : ' ' ∉ word := not_mem_of_isArrayKeyword hword (Or.inl rfl)
      rw [Respelt, words_of_not_mem hspace, words_of_not_mem (by decide)]
      exact .cons (Or.inr (Or.inr ⟨hword, by decide⟩)) .nil

/-- Keywords in any spelling, a double space, and names that are keywords themselves. -/
example : (parse "OPTIONAL num  ARR or or").canonical = "opt num  array or or" := by cbv

/-- A canonical text has no line break that was not there before. -/
theorem not_mem_canonical {text : List Char} (h : '\n' ∉ text) :
    '\n' ∉ (ofChars text).canonical.toList := by
  induction text using ofChars.induct with
  | case1 text hform =>
      rw [ofChars_of_leaf hform, canonical, String.toList_ofList]
      exact h
  | case2 text inner hform ih =>
      obtain ⟨word, rfl, -, -⟩ := splitOptional?_eq_some_iff.mp (splitOptional?_of_formOf hform)
      have hinner : '\n' ∉ inner := fun hmem => h (by simp [hmem])
      rw [ofChars_of_optional hform, toList_canonical_optional]
      simp [ih hinner]
  | case3 text left right hform ihleft ihright =>
      obtain ⟨rfl, -, -, -⟩ := splitUnion?_eq_some_iff.mp (splitUnion?_of_formOf hform).2
      have hleft : '\n' ∉ left := fun hmem => h (by simp [hmem])
      have hright : '\n' ∉ right := fun hmem => h (by simp [hmem])
      rw [ofChars_of_union hform, toList_canonical_union]
      simp [separator, ihleft hleft, ihright hright]
  | case4 text member hform ih =>
      obtain ⟨word, rfl, -, -⟩ := splitArray?_eq_some_iff.mp (splitArray?_of_formOf hform).2.2
      have hmember : '\n' ∉ member := fun hmem => h (by simp [hmem])
      rw [ofChars_of_array hform, toList_canonical_array]
      simp [ih hmember]

/-! ## Reading a canonical text -/

section Reading

variable {text inner left right member : List Char}

theorem formOf_canonical_optional (h : formOf text = .optional inner) :
    formOf (ofChars text).canonical.toList = .optional (ofChars inner).canonical.toList := by
  have hline := not_mem_canonical (formOfLine_of_formOf h (by simp)).1
  obtain ⟨-, -, -, hinner⟩ := splitOptional?_eq_some_iff.mp (splitOptional?_of_formOf h)
  apply formOf_eq_optional hline
  rw [ofChars_of_optional h, toList_canonical_optional, splitOptional?_eq_some_iff]
  exact ⟨_, rfl, by decide, (respelt_canonical inner).ne_nil hinner⟩

theorem formOf_canonical_union (h : formOf text = .union left right) :
    formOf (ofChars text).canonical.toList =
      .union (ofChars left).canonical.toList (ofChars right).canonical.toList := by
  have hline := not_mem_canonical (formOfLine_of_formOf h (by simp)).1
  obtain ⟨hoptional, hunion⟩ := splitUnion?_of_formOf h
  obtain ⟨-, hleft, hright, hlast⟩ := splitUnion?_eq_some_iff.mp hunion
  refine formOf_eq_union hline ((respelt_canonical text).splitOptional?_eq_none hoptional) ?_
  rw [ofChars_of_union h, toList_canonical_union, splitUnion?_eq_some_iff]
  refine ⟨rfl, (respelt_canonical left).ne_nil hleft, (respelt_canonical right).ne_nil hright, ?_⟩
  -- A later separator in the canonical text would be one in the text itself.
  intro hlater
  have hrespelt : Respelt ('o' :: 'r' :: ' ' :: (ofChars right).canonical.toList)
      ('o' :: 'r' :: ' ' :: right) :=
    (Respelt.refl ['o', 'r']).spaced (respelt_canonical right).symm
  exact hlast (hrespelt.hasSeparator hlater)

theorem formOf_canonical_array (h : formOf text = .array member) :
    formOf (ofChars text).canonical.toList = .array (ofChars member).canonical.toList := by
  have hline := not_mem_canonical (formOfLine_of_formOf h (by simp)).1
  obtain ⟨hoptional, hunion, harray⟩ := splitArray?_of_formOf h
  obtain ⟨-, -, -, hmember⟩ := splitArray?_eq_some_iff.mp harray
  refine formOf_eq_array hline ((respelt_canonical text).splitOptional?_eq_none hoptional)
    ((respelt_canonical text).splitUnion?_eq_none hunion) ?_
  rw [ofChars_of_array h, toList_canonical_array, splitArray?_eq_some_iff]
  exact ⟨_, rfl, by decide, (respelt_canonical member).ne_nil hmember⟩

end Reading

/-- Reading the canonical text of what was read from a text gives the same expression, with canonical
texts stored in it. -/
theorem ofChars_canonical (text : List Char) :
    ofChars (ofChars text).canonical.toList = (ofChars text).retext := by
  induction text using ofChars.induct with
  | case1 text hform =>
      have hcanonical : (ofChars text).canonical.toList = text := by
        rw [ofChars_of_leaf hform, canonical, String.toList_ofList]
      rw [hcanonical, ofChars_of_leaf hform, retext]
  | case2 text inner hform ih =>
      rw [ofChars_of_optional (formOf_canonical_optional hform), ih, ofChars_of_optional hform, retext]
  | case3 text left right hform ihleft ihright =>
      rw [ofChars_of_union (formOf_canonical_union hform), ihleft, ihright, ofChars_of_union hform,
        retext, String.ofList_toList, String.ofList_toList]
  | case4 text member hform ih =>
      rw [ofChars_of_array (formOf_canonical_array hform), ih, ofChars_of_array hform, retext,
        String.ofList_toList]

/-! ## Checking with other texts -/

section Checking

theorem agree_alike_refl (run : Run MatcherCall Verdict) : Run.Agree Verdict.Alike run run := by
  obtain ⟨events, fault | verdict⟩ := run
  · exact ⟨rfl, .error fault⟩
  · exact ⟨rfl, .ok (Verdict.Alike.refl verdict)⟩

theorem agree_allAccepted {check check' : Value → Run MatcherCall Verdict}
    (h : ∀ value, Run.Agree Verdict.Alike (check value) (check' value)) (elements : List Value) :
    Run.Agree Eq (allAccepted check elements) (allAccepted check' elements) := by
  induction elements with
  | nil => exact Run.agree_refl _
  | cons element elements ih =>
      rw [allAccepted, allAccepted]
      apply (h element).bind
      intro verdict verdict' halike
      rcases halike.eq_or with ⟨rfl, rfl⟩ | ⟨reason, reason', soft, rfl, rfl⟩
      · exact ih
      · exact Run.agree_refl _

theorem agree_eachAccepted {check check' : Value → Run MatcherCall Verdict}
    (h : ∀ value, Run.Agree Verdict.Alike (check value) (check' value)) (value : Value) :
    Run.Agree Eq (eachAccepted check value) (eachAccepted check' value) := by
  rw [eachAccepted_eq, eachAccepted_eq]
  apply (Run.agree_refl (Run.ofExcept value.walked)).bind
  rintro elements _ rfl
  exact agree_allAccepted h elements

variable [Host] {registry : Registry} {argument : Value}

/-- Checks with other stored texts call the same matchers and end alike. -/
theorem agree_check_retext (expr : TypeExpr) (value : Value) :
    Run.Agree Verdict.Alike (expr.check registry argument value)
      (expr.retext.check registry argument value) := by
  induction expr generalizing value with
  | leaf name => exact agree_alike_refl _
  | optional inner ih =>
      rw [retext, check, check]
      apply (ih value).bind
      intro verdict verdict' halike
      rcases halike.eq_or with ⟨rfl, rfl⟩ | ⟨reason, reason', soft, rfl, rfl⟩
      · exact agree_alike_refl _
      · cases value <;> exact Run.agree_pure ⟨rfl, rfl⟩
  | union left right leftText rightText ihleft ihright =>
      rw [retext, check, check]
      apply (ihleft value).bind
      intro first first' hfirst
      rcases hfirst.eq_or with ⟨rfl, rfl⟩ | ⟨reason, reason', soft, rfl, rfl⟩
      · exact agree_alike_refl _
      · apply (ihright value).bind
        intro second second' hsecond
        rcases hsecond.eq_or with ⟨rfl, rfl⟩ | ⟨reason, reason', soft, rfl, rfl⟩
        · exact agree_alike_refl _
        · apply (Run.agree_refl (Run.ofExcept argument.shown)).bind
          rintro argumentText _ rfl
          exact Run.agree_pure ⟨rfl, rfl⟩
  | array member memberText ih =>
      rw [retext, check, check]
      apply (Run.agree_refl (checkLeaf registry argument arrayName value)).bind
      rintro outer _ rfl
      cases outer with
      | refused reason soft => exact agree_alike_refl _
      | accepted =>
          apply (agree_eachAccepted ih value).bind
          rintro all _ rfl
          cases all with
          | true => exact agree_alike_refl _
          | false =>
              apply (Run.agree_refl (Run.ofExcept argument.shown)).bind
              rintro argumentText _ rfl
              exact Run.agree_pure ⟨rfl, rfl⟩
  | foreign held => exact agree_alike_refl _

end Checking

/-- The canonical text of what a text stands for reads back as the same expression, with the canonical
text of each part stored in it.  So making a text canonical twice is making it canonical once, and the
two texts are checked alike: the same matchers are called, and the check ends in the same fault or in
verdicts that differ in the reason at most. -/
theorem parse_canonical_parse [Host] (text : String) :
    parse (parse text).canonical = (parse text).retext ∧
    (parse (parse text).canonical).canonical = (parse text).canonical ∧
    ∀ (registry : Registry) (argument value : Value),
      Run.Agree Verdict.Alike ((parse text).check registry argument value)
        ((parse (parse text).canonical).check registry argument value) := by
  have hread : parse (parse text).canonical = (parse text).retext := ofChars_canonical text.toList
  refine ⟨hread, ?_, ?_⟩
  · rw [hread, canonical_retext]
  · intro registry argument value
    rw [hread]
    exact agree_check_retext (parse text) value

end TypeExpr
end CallSchema
