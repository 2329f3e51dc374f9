import CallSchema.Proofs.TypeExpr.Forms
import Mathlib.Data.List.Forall2

/-!
# Texts with the same words up to keywords

The forms of a text only depend on its words, and of a keyword only on which kind it is.  Two texts are
respellings of each other when their words agree one by one, except that an optional keyword may stand
for another and an array keyword for another (`Respelt`).  Wherever one of two respellings falls apart
at a space, so does the other (`Respelt.of_spaced`); it follows that both have an optional keyword in
front or neither has, and that both hold a separator or neither does.
-/

namespace CallSchema
namespace TypeExpr

/-! ## Words -/

/-- The pieces of a text between its spaces; next to a space there may be an empty one. -/
def words (text : List Char) : List (List Char) := text.splitOn ' '

theorem words_append_space (left right : List Char) :
    words (left ++ ' ' :: right) = words left ++ words right :=
  List.splitOn_append_cons_self left right

theorem words_ne_nil (text : List Char) : words text ≠ [] := List.splitOn_ne_nil ' ' text

theorem words_of_not_mem {word : List Char} (h : ' ' ∉ word) : words word = [word] :=
  List.splitOn_eq_singleton h

theorem eq_of_words_eq_singleton {text word : List Char} (h : words text = [word]) :
    text = word ∧ ' ' ∉ text := by
  by_cases hspace : ' ' ∈ text
  · obtain ⟨left, right, rfl, -⟩ := List.eq_append_cons_of_mem hspace
    rw [words_append_space] at h
    have hlength := congrArg List.length h
    have hleft := List.length_pos_of_ne_nil (words_ne_nil left)
    have hright := List.length_pos_of_ne_nil (words_ne_nil right)
    rw [List.length_append, List.length_singleton] at hlength
    omega
  · rw [words_of_not_mem hspace] at h
    exact ⟨List.head_eq_of_cons_eq h, hspace⟩

/-- A text begins with its first word and, if there are more, a space. -/
theorem exists_rest_of_words_eq_cons {text word : List Char} {rest : List (List Char)}
    (h : words text = word :: rest) (hrest : rest ≠ []) :
    ∃ right, text = word ++ ' ' :: right ∧ ' ' ∉ word ∧ words right = rest := by
  by_cases hspace : ' ' ∈ text
  · obtain ⟨left, right, rfl, hleft⟩ := List.eq_append_cons_of_mem hspace
    rw [words_append_space, words_of_not_mem hleft] at h
    obtain ⟨rfl, hright⟩ := List.cons.inj h
    exact ⟨right, rfl, hleft, hright⟩
  · rw [words_of_not_mem hspace] at h
    exact absurd (List.tail_eq_of_cons_eq h).symm hrest

/-- Wherever the words of a text are parted, there is a space. -/
theorem exists_spaced_of_words_eq_append {text : List Char} {front back : List (List Char)}
    (h : words text = front ++ back) (hfront : front ≠ []) (hback : back ≠ []) :
    ∃ left right, text = left ++ ' ' :: right ∧ words left = front ∧ words right = back := by
  induction front generalizing text with
  | nil => exact absurd rfl hfront
  | cons word front ih =>
      obtain ⟨right, rfl, hword, hright⟩ :=
        exists_rest_of_words_eq_cons h (List.append_ne_nil_of_right_ne_nil front hback)
      cases front with
      | nil => exact ⟨word, right, rfl, words_of_not_mem hword, hright⟩
      | cons next front =>
          obtain ⟨middle, last, rfl, hmiddle, hlast⟩ := ih hright (List.cons_ne_nil _ _)
          refine ⟨word ++ ' ' :: middle, last, by simp, ?_, hlast⟩
          rw [words_append_space, words_of_not_mem hword, hmiddle]
          rfl

/-! ## Respelling -/

/-- Two words that say the same: equal words, and keywords of the same kind. -/
def Synonymous (word other : List Char) : Prop :=
  word = other ∨ (isOptionalKeyword word = true ∧ isOptionalKeyword other = true) ∨
    (isArrayKeyword word = true ∧ isArrayKeyword other = true)

theorem Synonymous.symm {word other : List Char} (h : Synonymous word other) :
    Synonymous other word := by
  rcases h with rfl | ⟨hword, hother⟩ | ⟨hword, hother⟩
  · exact Or.inl rfl
  · exact Or.inr (Or.inl ⟨hother, hword⟩)
  · exact Or.inr (Or.inr ⟨hother, hword⟩)

theorem Synonymous.eq {word other : List Char} (h : Synonymous word other)
    (hoptional : isOptionalKeyword word = false) (harray : isArrayKeyword word = false) :
    other = word := by
  rcases h with rfl | ⟨hword, -⟩ | ⟨hword, -⟩
  · rfl
  · rw [hoptional] at hword
    cases hword
  · rw [harray] at hword
    cases hword

theorem isArrayKeyword_of_isOptionalKeyword {word : List Char} (h : isOptionalKeyword word = true) :
    isArrayKeyword word = false := by
  rw [Bool.eq_false_iff]
  intro harray
  simp only [isOptionalKeyword, isArrayKeyword, Bool.or_eq_true, isSpelling_iff] at h harray
  rcases h with h | h
  · rw [h] at harray
    revert harray
    decide
  · rw [h] at harray
    revert harray
    decide

theorem Synonymous.isOptionalKeyword {word other : List Char} (h : Synonymous word other)
    (hword : isOptionalKeyword word = true) : TypeExpr.isOptionalKeyword other = true := by
  rcases h with rfl | ⟨-, hother⟩ | ⟨harray, -⟩
  · exact hword
  · exact hother
  · rw [isArrayKeyword_of_isOptionalKeyword hword] at harray
    cases harray

/-- Two texts whose words say the same one by one. -/
def Respelt (text other : List Char) : Prop :=
  List.Forall₂ Synonymous (words text) (words other)

namespace Respelt

variable {text other left right left' right' word : List Char}

theorem refl (text : List Char) : Respelt text text :=
  List.forall₂_same.mpr fun _ _ => Or.inl rfl

theorem symm (h : Respelt text other) : Respelt other text :=
  List.Forall₂.flip (List.Forall₂.imp (fun _ _ hword => hword.symm) h)

theorem spaced (hleft : Respelt left left') (hright : Respelt right right') :
    Respelt (left ++ ' ' :: right) (left' ++ ' ' :: right') := by
  unfold Respelt
  rw [words_append_space, words_append_space]
  exact List.rel_append hleft hright

theorem synonymous (h : Respelt word other) (hword : ' ' ∉ word) : Synonymous word other := by
  unfold Respelt at h
  rw [words_of_not_mem hword, List.forall₂_cons_left_iff] at h
  obtain ⟨word', rest, hsynonymous, hrest, hwords⟩ := h
  cases hrest
  rw [(eq_of_words_eq_singleton hwords).1]
  exact hsynonymous

theorem ne_nil_of_forall₂ {these those : List (List Char)}
    (h : List.Forall₂ Synonymous these those) (hne : those ≠ []) : these ≠ [] := by
  rintro rfl
  exact hne (List.forall₂_nil_left_iff.mp h)

/-- Where a text falls apart at a space, every respelling does. -/
theorem of_spaced (h : Respelt (left ++ ' ' :: right) other) :
    ∃ left' right', other = left' ++ ' ' :: right' ∧ Respelt left left' ∧ Respelt right right' := by
  have hflip : List.Forall₂ Synonymous (words other) (words left ++ words right) := by
    rw [← words_append_space]
    exact h.symm
  have hfront := List.forall₂_take_append _ _ _ hflip
  have hback := List.forall₂_drop_append _ _ _ hflip
  have hsplit := (List.take_append_drop (words left).length (words other)).symm
  obtain ⟨left', right', rfl, hleft, hright⟩ := exists_spaced_of_words_eq_append hsplit
    (ne_nil_of_forall₂ hfront (words_ne_nil left)) (ne_nil_of_forall₂ hback (words_ne_nil right))
  refine ⟨left', right', rfl, ?_, ?_⟩
  · refine symm ?_
    rw [Respelt, hleft]
    exact hfront
  · refine symm ?_
    rw [Respelt, hright]
    exact hback

theorem eq_of_word (h : Respelt word other) (hspace : ' ' ∉ word)
    (hoptional : isOptionalKeyword word = false) (harray : isArrayKeyword word = false) :
    other = word :=
  (h.synonymous hspace).eq hoptional harray

theorem ne_nil (h : Respelt text other) (hne : text ≠ []) : other ≠ [] := by
  rintro rfl
  exact hne (h.symm.eq_of_word (by simp) rfl rfl)

/-- Where a text has a separator, every respelling has. -/
theorem of_separated (h : Respelt (left ++ (separator ++ right)) other) :
    ∃ left' right', other = left' ++ (separator ++ right') ∧
      Respelt left left' ∧ Respelt right right' := by
  replace h : Respelt (left ++ ' ' :: ('o' :: 'r' :: ' ' :: right)) other := h
  obtain ⟨left', rest, rfl, hleft, hrest⟩ := h.of_spaced
  replace hrest : Respelt (['o', 'r'] ++ ' ' :: right) rest := hrest
  obtain ⟨middle, right', rfl, hmiddle, hright⟩ := hrest.of_spaced
  rw [hmiddle.eq_of_word (by decide) (by decide) (by decide)]
  exact ⟨left', right', by simp [separator], hleft, hright⟩

theorem hasSeparator (h : Respelt text other) (hseparator : HasSeparator text) :
    HasSeparator other := by
  obtain ⟨left, right, rfl, hne⟩ := hseparator
  obtain ⟨left', right', rfl, -, hright⟩ := h.of_separated
  exact ⟨left', right', rfl, hright.ne_nil hne⟩

/-- Without an optional keyword in front of a text, there is none in front of a respelling. -/
theorem splitOptional?_eq_none (h : Respelt text other) (hnone : splitOptional? text = none) :
    splitOptional? other = none := by
  cases hsome : splitOptional? other with
  | none => rfl
  | some inner =>
      obtain ⟨word, rfl, hword, hinner⟩ := splitOptional?_eq_some_iff.mp hsome
      obtain ⟨word', inner', rfl, hrespelt, hinner'⟩ := h.symm.of_spaced
      have hspace : ' ' ∉ word := not_mem_of_isOptionalKeyword hword (Or.inl rfl)
      have hword' := (hrespelt.synonymous hspace).isOptionalKeyword hword
      have hfound : splitOptional? (word' ++ ' ' :: inner') = some inner' :=
        splitOptional?_eq_some_iff.mpr ⟨word', rfl, hword', hinner'.ne_nil hinner⟩
      rw [hfound] at hnone
      cases hnone

theorem splitUnion?_eq_none (h : Respelt text other) (hnone : splitUnion? text = none) :
    splitUnion? other = none := by
  rw [splitUnion?_eq_none_iff] at hnone ⊢
  rintro left right rfl hleft
  obtain ⟨left', right', rfl, hleft', hright'⟩ := h.symm.of_separated
  have hempty : right' = [] := hnone left' right' rfl (hleft'.ne_nil hleft)
  apply Classical.byContradiction
  intro hright
  exact hright'.ne_nil hright hempty

end Respelt

end TypeExpr
end CallSchema
