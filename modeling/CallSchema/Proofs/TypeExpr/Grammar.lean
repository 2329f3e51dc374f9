import CallSchema.Proofs.TypeExpr.Nodes

/-!
# The grammar of type expressions

`Renders` says which texts an expression may be written as, with no word on how a text is taken apart.
The grammar is ambiguous: `opt a or b` is an optional union and also a union whose left part is optional.
Reading picks one of the expressions that render a text (`renders_ofChars`), and it picks a leaf only
where no other expression renders the text (`eq_leaf_of_renders`).
-/

namespace CallSchema
namespace TypeExpr

/-- A text that can be a part of a longer one: there is something in it, and no line break. -/
structure IsPart (text : String) : Prop where
  ne_empty : text ≠ ""
  oneLine : '\n' ∉ text.toList

/-- The texts that an expression may be written as.  A keyword may be spelled in any mixture of cases. -/
inductive Renders : TypeExpr → String → Prop where
  | leaf (name : String) : Renders (leaf name) name
  | optional {inner : TypeExpr} {keyword text : String}
      (hkeyword : keyword.toLower = "opt" ∨ keyword.toLower = "optional")
      (hpart : IsPart text) (hinner : Renders inner text) :
      Renders (optional inner) (keyword ++ " " ++ text)
  | union {left right : TypeExpr} {leftText rightText : String}
      (hleftPart : IsPart leftText) (hrightPart : IsPart rightText)
      (hleft : Renders left leftText) (hright : Renders right rightText) :
      Renders (union left right leftText rightText) (leftText ++ " or " ++ rightText)
  | array {member : TypeExpr} {memberText keyword : String}
      (hkeyword : keyword.toLower = "a" ∨ keyword.toLower = "arr" ∨ keyword.toLower = "array")
      (hpart : IsPart memberText) (hmember : Renders member memberText) :
      Renders (array member memberText) (memberText ++ " " ++ keyword)

/-- Of all the ways to put a text together from two parts around ` or `, this one has the longest left
part. -/
def IsLastSplit (leftText rightText : String) : Prop :=
  ∀ left right, IsPart left → IsPart right →
    left ++ " or " ++ right = leftText ++ " or " ++ rightText → left.length ≤ leftText.length

/-! ## Texts and their characters -/

theorem ofList_spaced (left right : List Char) :
    String.ofList (left ++ ' ' :: right) =
      String.ofList left ++ " " ++ String.ofList right := by
  rw [← String.toList_inj]
  simp

theorem ofList_separated (left right : List Char) :
    String.ofList (left ++ (separator ++ right)) =
      String.ofList left ++ " or " ++ String.ofList right := by
  rw [← String.toList_inj]
  simp [separator]

theorem toList_toLower (word : String) : word.toLower.toList = lowered word.toList :=
  String.toList_map

theorem isOptionalKeyword_toList_iff {keyword : String} :
    isOptionalKeyword keyword.toList = true ↔
      keyword.toLower = "opt" ∨ keyword.toLower = "optional" := by
  rw [isOptionalKeyword, Bool.or_eq_true, isSpelling_iff, isSpelling_iff, ← toList_toLower,
    ← String.toList_inj, ← String.toList_inj]
  rfl

theorem isArrayKeyword_toList_iff {keyword : String} :
    isArrayKeyword keyword.toList = true ↔
      keyword.toLower = "a" ∨ keyword.toLower = "arr" ∨ keyword.toLower = "array" := by
  rw [isArrayKeyword, Bool.or_eq_true, Bool.or_eq_true, isSpelling_iff, isSpelling_iff,
    isSpelling_iff, ← toList_toLower, ← String.toList_inj, ← String.toList_inj,
    ← String.toList_inj, or_assoc]
  rfl

theorem isPart_ofList {text : List Char} (hne : text ≠ []) (hline : '\n' ∉ text) :
    IsPart (String.ofList text) where
  ne_empty := by
    intro h
    apply hne
    simpa using congrArg String.toList h
  oneLine := by simpa using hline

theorem IsPart.toList_ne_nil {text : String} (h : IsPart text) : text.toList ≠ [] := by
  intro hnil
  exact h.ne_empty (String.toList_inj.mp hnil)

/-! ## What is read renders the text -/

theorem renders_ofChars (text : List Char) : Renders (ofChars text) (String.ofList text) := by
  induction text using ofChars.induct with
  | case1 text hform =>
      rw [ofChars_of_leaf hform]
      exact .leaf _
  | case2 text inner hform ih =>
      have hline := (formOfLine_of_formOf hform (by simp)).1
      obtain ⟨word, rfl, hword, hne⟩ := splitOptional?_eq_some_iff.mp (splitOptional?_of_formOf hform)
      -- A line break in the part would be one in the text, and that is a leaf.
      have hinner : '\n' ∉ inner := fun hmem => hline (by simp [hmem])
      rw [ofChars_of_optional hform, ofList_spaced]
      refine .optional (isOptionalKeyword_toList_iff.mp ?_) (isPart_ofList hne hinner) ih
      rwa [String.toList_ofList]
  | case3 text left right hform ihleft ihright =>
      have hline := (formOfLine_of_formOf hform (by simp)).1
      obtain ⟨rfl, hleftne, hrightne, -⟩ :=
        splitUnion?_eq_some_iff.mp (splitUnion?_of_formOf hform).2
      have hleft : '\n' ∉ left := fun hmem => hline (by simp [hmem])
      have hright : '\n' ∉ right := fun hmem => hline (by simp [hmem])
      rw [ofChars_of_union hform, ofList_separated]
      exact .union (isPart_ofList hleftne hleft) (isPart_ofList hrightne hright) ihleft ihright
  | case4 text member hform ih =>
      have hline := (formOfLine_of_formOf hform (by simp)).1
      obtain ⟨word, rfl, hword, hne⟩ :=
        splitArray?_eq_some_iff.mp (splitArray?_of_formOf hform).2.2
      have hmember : '\n' ∉ member := fun hmem => hline (by simp [hmem])
      rw [ofChars_of_array hform, ofList_spaced]
      refine .array (isArrayKeyword_toList_iff.mp ?_) (isPart_ofList hne hmember) ih
      rwa [String.toList_ofList]

/-- A text that reads as a leaf is rendered by that leaf only. -/
theorem eq_leaf_of_renders {expr : TypeExpr} {text : String} (h : Renders expr text)
    (hleaf : formOf text.toList = .leaf) : expr = leaf text := by
  rw [formOf_eq_leaf_iff] at hleaf
  cases h with
  | leaf name => rfl
  | @optional inner keyword text hkeyword hpart hinner =>
      have hword := isOptionalKeyword_toList_iff.mpr hkeyword
      have hsplit : splitOptional? (keyword ++ " " ++ text).toList = some text.toList :=
        splitOptional?_eq_some_iff.mpr ⟨keyword.toList, by simp, hword, hpart.toList_ne_nil⟩
      have hline : '\n' ∉ (keyword ++ " " ++ text).toList := by
        simp [not_mem_of_isOptionalKeyword hword (Or.inr rfl), hpart.oneLine]
      rcases hleaf with hmem | ⟨hnone, -⟩
      · exact absurd hmem hline
      · rw [hsplit] at hnone
        cases hnone
  | @union left right leftText rightText hleftPart hrightPart hleft hright =>
      have hline : '\n' ∉ (leftText ++ " or " ++ rightText).toList := by
        simp [hleftPart.oneLine, hrightPart.oneLine]
      rcases hleaf with hmem | ⟨-, hnone, -⟩
      · exact absurd hmem hline
      · have hempty := splitUnion?_eq_none_iff.mp hnone leftText.toList rightText.toList
          (by simp [separator]) hleftPart.toList_ne_nil
        exact absurd hempty hrightPart.toList_ne_nil
  | @array member memberText keyword hkeyword hpart hmember =>
      have hword := isArrayKeyword_toList_iff.mpr hkeyword
      have hsplit : splitArray? (memberText ++ " " ++ keyword).toList = some memberText.toList :=
        splitArray?_eq_some_iff.mpr ⟨keyword.toList, by simp, hword, hpart.toList_ne_nil⟩
      have hline : '\n' ∉ (memberText ++ " " ++ keyword).toList := by
        simp [not_mem_of_isArrayKeyword hword (Or.inr rfl), hpart.oneLine]
      rcases hleaf with hmem | ⟨-, -, hnone⟩
      · exact absurd hmem hline
      · rw [hsplit] at hnone
        cases hnone

/-! ## The last separator -/

/-- Where a text is split for a union, no later split is possible. -/
theorem isLastSplit_of_formOf {text : List Char} {leftText rightText : String}
    (h : formOf text = .union leftText.toList rightText.toList) :
    IsLastSplit leftText rightText := by
  obtain ⟨-, -, -, hlast⟩ := splitUnion?_eq_some_iff.mp (splitUnion?_of_formOf h).2
  intro left right hleft hright heq
  have hchars : leftText.toList ++ (separator ++ rightText.toList) =
      left.toList ++ (separator ++ right.toList) := by
    simpa [separator] using congrArg String.toList heq.symm
  apply Nat.le_of_not_lt
  intro hlt
  rw [← String.length_toList, ← String.length_toList] at hlt
  rcases List.append_eq_append_iff.mp hchars with ⟨middle, hmiddle, hrest⟩ | ⟨middle, hmiddle, -⟩
  · -- The longer left part reaches over the first space of the separator.
    cases middle with
    | nil => simp [hmiddle] at hlt
    | cons c middle =>
        obtain ⟨-, hrest⟩ := List.cons.inj hrest
        exact hlast ⟨middle, right.toList, hrest, hright.toList_ne_nil⟩
  · rw [hmiddle, List.length_append] at hlt
    omega

/-- Separators may overlap in a space; the later one counts. -/
example : parse "a or or b" = union (leaf "a or") (leaf "b") "a or" "b" := by cbv

/-! ## Reading and the grammar -/

/-- Reading a text gives an expression that renders it, and nothing of the text is lost: at every union
and every array in the expression, the stored texts are read as the parts they belong to.  A union is
split as late as can be.  The text is a leaf exactly when nothing but that leaf renders it, as is every
text with a line break. -/
theorem parse_renders (text : String) :
    Renders (parse text) text ∧
    (∀ path left right leftText rightText,
      (parse text).node? path = some (union left right leftText rightText) →
        parse leftText = left ∧ parse rightText = right ∧ IsLastSplit leftText rightText) ∧
    (∀ path member memberText,
      (parse text).node? path = some (array member memberText) → parse memberText = member) ∧
    ((∃ name, parse text = leaf name) ↔ ∀ expr, Renders expr text → expr = leaf text) ∧
    ('\n' ∈ text.toList → parse text = leaf text) := by
  have hrenders : Renders (parse text) text := by
    simpa [parse] using renders_ofChars text.toList
  refine ⟨hrenders, ?_, ?_, ?_, ?_⟩
  · intro path left right leftText rightText hnode
    obtain ⟨part, -, hpart⟩ := exists_infix_of_node? hnode
    obtain ⟨hform, hleft, hright⟩ := formOf_of_ofChars_eq_union hpart.symm
    exact ⟨hleft, hright, isLastSplit_of_formOf hform⟩
  · intro path member memberText hnode
    obtain ⟨part, -, hpart⟩ := exists_infix_of_node? hnode
    exact (formOf_of_ofChars_eq_array hpart.symm).2
  · constructor
    · rintro ⟨name, hleaf⟩ expr hexpr
      exact eq_leaf_of_renders hexpr (formOf_of_ofChars_eq_leaf hleaf)
    · intro hall
      exact ⟨text, hall _ hrenders⟩
  · intro hline
    rw [parse, ofChars_of_leaf (formOf_eq_leaf_iff.mpr (Or.inl hline)), String.ofList_toList]

end TypeExpr
end CallSchema
