import CallSchema.TypeExpr.Parser

/-!
# The forms of a text

Each of the three splitters is described by the texts that it puts together again: an optional keyword
in front (`splitOptional?_eq_some_iff`), the last separator with text on both sides
(`splitUnion?_eq_some_iff`, `splitUnion?_eq_none_iff`), an array keyword at the end
(`splitArray?_eq_some_iff`).  From these come the conditions under which a text has one form or another,
and one equation of the reader for each form.
-/

namespace CallSchema
namespace TypeExpr

/-! ## Keywords -/

/-- A character whose lower case is not in a keyword is in none of its spellings. -/
theorem not_mem_of_isSpelling {keyword word : List Char} {c : Char}
    (h : isSpelling keyword word = true) (hc : c.toLower ∉ keyword) : c ∉ word := by
  intro hmem
  rw [isSpelling_iff] at h
  apply hc
  rw [← h]
  exact List.mem_map_of_mem hmem

/-- Optional keywords are made of letters, so they hold neither a space nor a line break. -/
theorem not_mem_of_isOptionalKeyword {word : List Char} {c : Char}
    (h : isOptionalKeyword word = true) (hc : c = ' ' ∨ c = '\n') : c ∉ word := by
  unfold isOptionalKeyword at h
  rcases Bool.or_eq_true_iff.mp h with h | h
  · apply not_mem_of_isSpelling h
    rcases hc with rfl | rfl <;> decide
  · apply not_mem_of_isSpelling h
    rcases hc with rfl | rfl <;> decide

theorem not_mem_of_isArrayKeyword {word : List Char} {c : Char}
    (h : isArrayKeyword word = true) (hc : c = ' ' ∨ c = '\n') : c ∉ word := by
  unfold isArrayKeyword at h
  rcases Bool.or_eq_true_iff.mp h with h | h
  · rcases Bool.or_eq_true_iff.mp h with h | h
    · apply not_mem_of_isSpelling h
      rcases hc with rfl | rfl <;> decide
    · apply not_mem_of_isSpelling h
      rcases hc with rfl | rfl <;> decide
  · apply not_mem_of_isSpelling h
    rcases hc with rfl | rfl <;> decide

/-! ## Optional keywords in front -/

theorem splitOptional?_eq_some_iff {text inner : List Char} :
    splitOptional? text = some inner ↔
      ∃ word, text = word ++ ' ' :: inner ∧ isOptionalKeyword word = true ∧ inner ≠ [] := by
  constructor
  · intro h
    have htext := List.takeWhile_append_dropWhile (p := (· != ' ')) (l := text)
    unfold splitOptional? at h
    split at h
    · rename_i first c rest hdrop
      split at h
      · rename_i hword
        cases h
        have hfirst : first = ' ' := by
          have hhead := List.head?_dropWhile_not (· != ' ') text
          rw [hdrop] at hhead
          simpa using hhead
        rw [hdrop, hfirst] at htext
        exact ⟨_, htext.symm, hword, List.cons_ne_nil _ _⟩
      · cases h
    · cases h
  · rintro ⟨word, rfl, hword, hinner⟩
    have hspace : ' ' ∉ word := not_mem_of_isOptionalKeyword hword (Or.inl rfl)
    have hletters : ∀ c ∈ word, (c != ' ') = true := by
      intro c hc
      simp only [bne_iff_ne, ne_eq]
      rintro rfl
      exact hspace hc
    obtain ⟨c, rest, rfl⟩ := List.exists_cons_of_ne_nil hinner
    unfold splitOptional?
    rw [List.dropWhile_append_of_pos hletters, List.takeWhile_append_of_pos hletters]
    simp [hword]

/-! ## The last separator -/

/-- What stands between the two parts of a union. -/
def separator : List Char := [' ', 'o', 'r', ' ']

/-- A separator stands somewhere in a text, and something follows it. -/
def HasSeparator (text : List Char) : Prop :=
  ∃ left right, text = left ++ (separator ++ right) ∧ right ≠ []

theorem afterSeparator?_eq_some_iff {text right : List Char} :
    afterSeparator? text = some right ↔ text = separator ++ right ∧ right ≠ [] := by
  constructor
  · exact eq_append_of_afterSeparator?
  · rintro ⟨rfl, hright⟩
    obtain ⟨c, rest, rfl⟩ := List.exists_cons_of_ne_nil hright
    rfl

theorem hasSeparator_cons_iff {c : Char} {text : List Char} :
    HasSeparator (c :: text) ↔
      (∃ right, afterSeparator? (c :: text) = some right) ∨ HasSeparator text := by
  constructor
  · rintro ⟨left, right, heq, hright⟩
    cases left with
    | nil => exact Or.inl ⟨right, afterSeparator?_eq_some_iff.mpr ⟨heq, hright⟩⟩
    | cons d left =>
        obtain ⟨-, htext⟩ := List.cons.inj heq
        exact Or.inr ⟨left, right, htext, hright⟩
  · rintro (⟨right, hafter⟩ | ⟨left, right, rfl, hright⟩)
    · obtain ⟨heq, hright⟩ := afterSeparator?_eq_some_iff.mp hafter
      exact ⟨[], right, heq, hright⟩
    · exact ⟨c :: left, right, rfl, hright⟩

/-- Behind its first character, a text that is no union has no separator. -/
theorem splitUnion?_cons_eq_none_iff {c : Char} {text : List Char} :
    splitUnion? (c :: text) = none ↔ ¬ HasSeparator text := by
  induction text generalizing c with
  | nil =>
      refine iff_of_true rfl ?_
      rintro ⟨left, right, heq, -⟩
      simp [separator] at heq
  | cons d text ih =>
      have hrest := @ih d
      rw [splitUnion?, hasSeparator_cons_iff]
      cases hsplit : splitUnion? (d :: text) with
      | some parts =>
          have hlater : HasSeparator text := by simpa [hsplit] using hrest
          simp [hlater]
      | none =>
          have hlater : ¬ HasSeparator text := hrest.mp hsplit
          cases hafter : afterSeparator? (d :: text) with
          | some right => simp
          | none => simp [hlater]

/-- A text is no union when no separator in it has text on both sides. -/
theorem splitUnion?_eq_none_iff {text : List Char} :
    splitUnion? text = none ↔
      ∀ left right, text = left ++ (separator ++ right) → left ≠ [] → right = [] := by
  cases text with
  | nil => simp [splitUnion?, separator]
  | cons c text =>
      rw [splitUnion?_cons_eq_none_iff]
      constructor
      · intro h left right heq hleft
        obtain ⟨d, left, rfl⟩ := List.exists_cons_of_ne_nil hleft
        obtain ⟨-, htext⟩ := List.cons.inj heq
        apply Classical.byContradiction
        intro hright
        exact h ⟨left, right, htext, hright⟩
      · rintro h ⟨left, right, rfl, hright⟩
        exact hright (h (c :: left) right rfl (List.cons_ne_nil _ _))

/-- A union is split at a separator behind which no other begins; the next one might begin with the
last space of it. -/
theorem splitUnion?_eq_some_iff {text left right : List Char} :
    splitUnion? text = some (left, right) ↔
      text = left ++ (separator ++ right) ∧ left ≠ [] ∧ right ≠ [] ∧
        ¬ HasSeparator ('o' :: 'r' :: ' ' :: right) := by
  constructor
  · intro h
    obtain ⟨htext, hleft, hright⟩ := eq_append_of_splitUnion? h
    refine ⟨htext, hleft, hright, ?_⟩
    induction text generalizing left with
    | nil => simp [splitUnion?] at h
    | cons c text ih =>
        rw [splitUnion?] at h
        split at h
        · rename_i rest right' hrec
          cases h
          exact ih hrec (eq_append_of_splitUnion? hrec).1 (eq_append_of_splitUnion? hrec).2.1
        · rename_i hrec
          obtain ⟨right', hafter, heq⟩ := Option.map_eq_some_iff.mp h
          cases heq
          rw [(afterSeparator?_eq_some_iff.mp hafter).1] at hrec
          exact splitUnion?_cons_eq_none_iff.mp hrec
  · rintro ⟨rfl, hleft, hright, hlast⟩
    induction left with
    | nil => exact absurd rfl hleft
    | cons c left ih =>
        cases left with
        | nil =>
            have hnone : splitUnion? (separator ++ right) = none :=
              splitUnion?_cons_eq_none_iff.mpr hlast
            have hafter := afterSeparator?_eq_some_iff.mpr ⟨rfl, hright⟩
            rw [List.singleton_append, splitUnion?, hnone]
            simp [hafter]
        | cons d left =>
            rw [List.cons_append, splitUnion?, ih (List.cons_ne_nil _ _)]

/-! ## Array keywords at the end -/

theorem isArraySuffix_eq_false {member word : List Char} {c : Char} :
    isArraySuffix (c :: member ++ ' ' :: word) = false := by
  unfold isArraySuffix
  split
  · rename_i rest heq
    rw [Bool.eq_false_iff]
    intro hword
    apply not_mem_of_isArrayKeyword hword (Or.inl rfl)
    obtain ⟨-, rfl⟩ := List.cons.inj heq
    simp
  · rfl

theorem splitArray?_eq_some_iff {text member : List Char} :
    splitArray? text = some member ↔
      ∃ word, text = member ++ ' ' :: word ∧ isArrayKeyword word = true ∧ member ≠ [] := by
  constructor
  · exact eq_append_of_splitArray?
  · rintro ⟨word, rfl, hword, hmember⟩
    induction member with
    | nil => exact absurd rfl hmember
    | cons c member ih =>
        cases member with
        | nil => simp [splitArray?, isArraySuffix, hword]
        | cons d member =>
            rw [List.cons_append, splitArray?, isArraySuffix_eq_false, ih (List.cons_ne_nil _ _)]
            rfl

/-! ## Forms -/

section Forms

variable {text inner left right member : List Char}

theorem formOf_eq_optional (hline : '\n' ∉ text) (h : splitOptional? text = some inner) :
    formOf text = .optional inner := by
  simp [formOf, formOfLine, hline, h]

theorem formOf_eq_union (hline : '\n' ∉ text) (hoptional : splitOptional? text = none)
    (h : splitUnion? text = some (left, right)) : formOf text = .union left right := by
  simp [formOf, formOfLine, hline, hoptional, h]

theorem formOf_eq_array (hline : '\n' ∉ text) (hoptional : splitOptional? text = none)
    (hunion : splitUnion? text = none) (h : splitArray? text = some member) :
    formOf text = .array member := by
  simp [formOf, formOfLine, hline, hoptional, hunion, h]

/-- A text is a leaf when it has a line break, and when none of the three splitters finds anything. -/
theorem formOf_eq_leaf_iff :
    formOf text = .leaf ↔
      '\n' ∈ text ∨
        (splitOptional? text = none ∧ splitUnion? text = none ∧ splitArray? text = none) := by
  by_cases hline : '\n' ∈ text
  · simp [formOf, hline]
  · cases hoptional : splitOptional? text with
    | some inner => simp [formOf_eq_optional hline hoptional, hline]
    | none =>
        cases hunion : splitUnion? text with
        | some parts => simp [formOf_eq_union hline hoptional hunion, hline]
        | none =>
            cases harray : splitArray? text with
            | some member => simp [formOf_eq_array hline hoptional hunion harray, hline]
            | none => simp [formOf, formOfLine, hline, hoptional, hunion, harray]

theorem ofChars_of_leaf (h : formOf text = .leaf) : ofChars text = leaf (String.ofList text) := by
  rw [ofChars]
  split <;> simp_all

theorem ofChars_of_optional (h : formOf text = .optional inner) :
    ofChars text = optional (ofChars inner) := by
  rw [ofChars]
  split <;> simp_all

theorem ofChars_of_union (h : formOf text = .union left right) :
    ofChars text =
      union (ofChars left) (ofChars right) (String.ofList left) (String.ofList right) := by
  rw [ofChars]
  split <;> simp_all

theorem ofChars_of_array (h : formOf text = .array member) :
    ofChars text = array (ofChars member) (String.ofList member) := by
  rw [ofChars]
  split <;> simp_all

end Forms

end TypeExpr
end CallSchema
