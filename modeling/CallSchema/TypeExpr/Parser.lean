import CallSchema.TypeExpr.Basic

/-!
# Reading type expressions

The text of a type expression is taken apart from the outside: first an optional keyword in front,
then the last ` or ` with text on both sides, then an array keyword at the end.  A text without any
of these, and every text with a line break, is the name of a leaf, so reading never fails.  Optional
and array keywords are recognised in any mixture of cases of ASCII letters; ` or ` is not.
-/

namespace CallSchema
namespace TypeExpr

/-- A word with its ASCII letters in lower case. -/
def lowered (word : List Char) : List Char := word.map Char.toLower

/-- Whether a word spells a keyword, which is in lower case; letters are compared one by one. -/
def isSpelling : List Char → List Char → Bool
  | [], [] => true
  | k :: keyword, c :: word => c.toLower = k && isSpelling keyword word
  | _, _ => false

theorem isSpelling_iff {keyword word : List Char} :
    isSpelling keyword word = true ↔ lowered word = keyword := by
  induction keyword generalizing word with
  | nil => cases word <;> simp [isSpelling, lowered]
  | cons k keyword ih =>
      cases word with
      | nil => simp [isSpelling, lowered]
      | cons c word =>
          have h := @ih word
          simp only [lowered] at h
          simp [isSpelling, lowered, h]

/-- The words that make what follows optional. -/
def isOptionalKeyword (word : List Char) : Bool :=
  isSpelling ['o', 'p', 't'] word || isSpelling ['o', 'p', 't', 'i', 'o', 'n', 'a', 'l'] word

/-- The words that make an array of what precedes. -/
def isArrayKeyword (word : List Char) : Bool :=
  isSpelling ['a'] word || isSpelling ['a', 'r', 'r'] word
    || isSpelling ['a', 'r', 'r', 'a', 'y'] word

/-- The text after an optional keyword and a space, when there is some. -/
def splitOptional? (text : List Char) : Option (List Char) :=
  match text.dropWhile (· != ' ') with
  | _ :: c :: inner =>
      if isOptionalKeyword (text.takeWhile (· != ' ')) then some (c :: inner) else none
  | _ => none

/-- The text after ` or `, when the text begins so and goes on. -/
def afterSeparator? : List Char → Option (List Char)
  | ' ' :: 'o' :: 'r' :: ' ' :: c :: right => some (c :: right)
  | _ => none

/-- The texts around the last ` or ` that has text on both sides. -/
def splitUnion? : List Char → Option (List Char × List Char)
  | [] => none
  | c :: text =>
      match splitUnion? text with
      | some (left, right) => some (c :: left, right)
      | none => (afterSeparator? text).map fun right => ([c], right)

/-- Whether a text is a space and an array keyword. -/
def isArraySuffix : List Char → Bool
  | ' ' :: word => isArrayKeyword word
  | _ => false

/-- The text before a space and a closing array keyword, when there is some. -/
def splitArray? : List Char → Option (List Char)
  | [] => none
  | c :: text => if isArraySuffix text then some [c] else (splitArray? text).map (c :: ·)

/-- The outermost form of a text, with the texts of its parts. -/
inductive Form where
  | leaf
  | optional (inner : List Char)
  | union (left right : List Char)
  | array (member : List Char)

/-- The outermost form of a text without line breaks. -/
def formOfLine (text : List Char) : Form :=
  match splitOptional? text with
  | some inner => .optional inner
  | none =>
      match splitUnion? text with
      | some (left, right) => .union left right
      | none =>
          match splitArray? text with
          | some member => .array member
          | none => .leaf

/-- The outermost form of a text: one with a line break is a leaf. -/
def formOf (text : List Char) : Form :=
  if text.contains '\n' then .leaf else formOfLine text

theorem length_of_splitOptional? {text inner : List Char} (h : splitOptional? text = some inner) :
    inner.length < text.length := by
  have hdrop := (List.dropWhile_sublist (l := text) (· != ' ')).length_le
  unfold splitOptional? at h
  split at h
  · rename_i head c rest heq
    rw [heq] at hdrop
    split at h
    · cases h
      simp only [List.length_cons] at hdrop ⊢
      omega
    · exact absurd h (by simp)
  · exact absurd h (by simp)

theorem eq_append_of_afterSeparator? {text right : List Char}
    (h : afterSeparator? text = some right) :
    text = [' ', 'o', 'r', ' '] ++ right ∧ right ≠ [] := by
  unfold afterSeparator? at h
  split at h
  · cases h
    simp
  · exact absurd h (by simp)

/-- A union text is its two parts around the separator, and neither part is empty. -/
theorem eq_append_of_splitUnion? {text left right : List Char}
    (h : splitUnion? text = some (left, right)) :
    text = left ++ ([' ', 'o', 'r', ' '] ++ right) ∧ left ≠ [] ∧ right ≠ [] := by
  induction text generalizing left with
  | nil => simp [splitUnion?] at h
  | cons c text ih =>
      unfold splitUnion? at h
      split at h
      · rename_i l r hrec
        cases h
        obtain ⟨htext, -, hright⟩ := ih hrec
        exact ⟨by simp [htext], by simp, hright⟩
      · obtain ⟨r, hr, heq⟩ := Option.map_eq_some_iff.mp h
        cases heq
        obtain ⟨htext, hne⟩ := eq_append_of_afterSeparator? hr
        exact ⟨by rw [htext]; rfl, by simp, hne⟩

/-- An array text is its member, a space and a keyword, and the member is not empty. -/
theorem eq_append_of_splitArray? {text member : List Char} (h : splitArray? text = some member) :
    ∃ word, text = member ++ ' ' :: word ∧ isArrayKeyword word = true ∧ member ≠ [] := by
  induction text generalizing member with
  | nil => simp [splitArray?] at h
  | cons c text ih =>
      unfold splitArray? at h
      split at h
      · rename_i hsuffix
        cases h
        unfold isArraySuffix at hsuffix
        split at hsuffix
        · rename_i word
          exact ⟨word, rfl, hsuffix, by simp⟩
        · exact absurd hsuffix (by simp)
      · obtain ⟨m, hm, heq⟩ := Option.map_eq_some_iff.mp h
        cases heq
        obtain ⟨word, htext, hword, -⟩ := ih hm
        exact ⟨word, by simp [htext], hword, by simp⟩

/-- What a form says about the text it was found in. -/
theorem formOfLine_of_formOf {text : List Char} {form : Form} (h : formOf text = form)
    (hform : form ≠ .leaf) : '\n' ∉ text ∧ formOfLine text = form := by
  unfold formOf at h
  split at h
  · exact absurd h.symm hform
  · rename_i hline
    exact ⟨by simpa using hline, h⟩

theorem splitOptional?_of_formOf {text inner : List Char} (h : formOf text = .optional inner) :
    splitOptional? text = some inner := by
  have hline := (formOfLine_of_formOf h (by simp)).2
  unfold formOfLine at hline
  split at hline
  · cases hline
    assumption
  · split at hline
    · cases hline
    · split at hline <;> cases hline

theorem splitUnion?_of_formOf {text left right : List Char}
    (h : formOf text = .union left right) :
    splitOptional? text = none ∧ splitUnion? text = some (left, right) := by
  have hline := (formOfLine_of_formOf h (by simp)).2
  unfold formOfLine at hline
  split at hline
  · cases hline
  · rename_i hopt
    split at hline
    · cases hline
      exact ⟨hopt, by assumption⟩
    · split at hline <;> cases hline

theorem splitArray?_of_formOf {text member : List Char} (h : formOf text = .array member) :
    splitOptional? text = none ∧ splitUnion? text = none ∧ splitArray? text = some member := by
  have hline := (formOfLine_of_formOf h (by simp)).2
  unfold formOfLine at hline
  split at hline
  · cases hline
  · rename_i hopt
    split at hline
    · cases hline
    · rename_i hunion
      split at hline
      · cases hline
        exact ⟨hopt, hunion, by assumption⟩
      · cases hline

/-- The expression that the characters of a text stand for. -/
def ofChars (text : List Char) : TypeExpr :=
  match _h : formOf text with
  | .leaf => leaf (String.ofList text)
  | .optional inner => optional (ofChars inner)
  | .union left right =>
      union (ofChars left) (ofChars right) (String.ofList left) (String.ofList right)
  | .array member => array (ofChars member) (String.ofList member)
termination_by text.length
decreasing_by
  · exact length_of_splitOptional? (splitOptional?_of_formOf _h)
  · rw [(eq_append_of_splitUnion? (splitUnion?_of_formOf _h).2).1]
    simp only [List.length_append, List.length_cons, List.length_nil]
    omega
  · rw [(eq_append_of_splitUnion? (splitUnion?_of_formOf _h).2).1]
    simp only [List.length_append, List.length_cons, List.length_nil]
    omega
  · obtain ⟨word, htext, -, -⟩ := eq_append_of_splitArray? (splitArray?_of_formOf _h).2.2
    rw [htext]
    simp only [List.length_append, List.length_cons]
    omega

/-- The expression that a text stands for. -/
def parse (text : String) : TypeExpr := ofChars text.toList

/-- The expression that a value stands for where one is expected: text is read. -/
def ofValue : Value → TypeExpr
  | .str text => parse text
  | value => foreign value

end TypeExpr
end CallSchema
