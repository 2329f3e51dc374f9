import CallSchema.Proofs.TypeExpr.Forms
import Mathlib.Data.List.Infix

/-!
# The nodes of an expression

A node is named by the steps that lead to it from the root (`node?`).  Every node of what is read from a
text is what some part of the text stands for (`exists_infix_of_node?`), and a node that is a union or an
array tells the form of that part (`formOf_of_ofChars_eq_union`, `formOf_of_ofChars_eq_array`).
-/

namespace CallSchema
namespace TypeExpr

/-- A step from a node to a part of it. -/
inductive Step where
  | inner
  | left
  | right
  | member
  deriving DecidableEq, Repr

/-- The node that some steps lead to. -/
def node? : TypeExpr → List Step → Option TypeExpr
  | expr, [] => some expr
  | optional inner, .inner :: path => inner.node? path
  | union left _ _ _, .left :: path => left.node? path
  | union _ right _ _, .right :: path => right.node? path
  | array member _, .member :: path => member.node? path
  | _, _ :: _ => none

@[simp] theorem node?_nil (expr : TypeExpr) : expr.node? [] = some expr := by
  cases expr <;> rfl

@[simp] theorem node?_leaf_cons (name : String) (step : Step) (path : List Step) :
    (leaf name).node? (step :: path) = none := by
  cases step <;> rfl

/-- Inside an optional expression every node is one of the inner expression. -/
theorem node?_optional_eq_some_iff {inner node : TypeExpr} {step : Step} {path : List Step} :
    (optional inner).node? (step :: path) = some node ↔
      step = .inner ∧ inner.node? path = some node := by
  cases step <;> simp [node?]

theorem node?_union_eq_some_iff {left right node : TypeExpr} {leftText rightText : String}
    {step : Step} {path : List Step} :
    (union left right leftText rightText).node? (step :: path) = some node ↔
      (step = .left ∧ left.node? path = some node) ∨
        (step = .right ∧ right.node? path = some node) := by
  cases step <;> simp [node?]

theorem node?_array_eq_some_iff {member node : TypeExpr} {memberText : String} {step : Step}
    {path : List Step} :
    (array member memberText).node? (step :: path) = some node ↔
      step = .member ∧ member.node? path = some node := by
  cases step <;> simp [node?]

/-! ## The form of a text and the expression read from it -/

/-- Each form of a text is read as an expression of its own. -/
inductive Reading (text : List Char) : TypeExpr → Prop where
  | leaf (hform : formOf text = .leaf) : Reading text (leaf (String.ofList text))
  | optional {inner : List Char} (hform : formOf text = .optional inner) :
      Reading text (optional (ofChars inner))
  | union {left right : List Char} (hform : formOf text = .union left right) :
      Reading text
        (union (ofChars left) (ofChars right) (String.ofList left) (String.ofList right))
  | array {member : List Char} (hform : formOf text = .array member) :
      Reading text (array (ofChars member) (String.ofList member))

theorem reading_ofChars (text : List Char) : Reading text (ofChars text) := by
  cases hform : formOf text with
  | leaf =>
      rw [ofChars_of_leaf hform]
      exact .leaf hform
  | optional inner =>
      rw [ofChars_of_optional hform]
      exact .optional hform
  | union left right =>
      rw [ofChars_of_union hform]
      exact .union hform
  | array member =>
      rw [ofChars_of_array hform]
      exact .array hform

/-! ## Parts of a text -/

section Parts

variable {text inner left right member : List Char}

theorem infix_of_formOf_optional (h : formOf text = .optional inner) : inner <:+: text := by
  obtain ⟨word, rfl, -, -⟩ := splitOptional?_eq_some_iff.mp (splitOptional?_of_formOf h)
  exact ⟨word ++ [' '], [], by simp⟩

theorem infix_of_formOf_union (h : formOf text = .union left right) :
    left <:+: text ∧ right <:+: text := by
  obtain ⟨rfl, -⟩ := splitUnion?_eq_some_iff.mp (splitUnion?_of_formOf h).2
  exact ⟨⟨[], separator ++ right, by simp⟩, ⟨left ++ separator, [], by simp⟩⟩

theorem infix_of_formOf_array (h : formOf text = .array member) : member <:+: text := by
  obtain ⟨word, rfl, -, -⟩ := splitArray?_eq_some_iff.mp (splitArray?_of_formOf h).2.2
  exact ⟨[], ' ' :: word, by simp⟩

/-- Every node is what some part of the text stands for. -/
theorem exists_infix_of_node? {path : List Step} {node : TypeExpr}
    (h : (ofChars text).node? path = some node) : ∃ part, part <:+: text ∧ node = ofChars part := by
  -- On the path, for every text: a step goes from a text to a part of it.
  induction path generalizing text with
  | nil =>
      rw [node?_nil] at h
      exact ⟨text, List.infix_refl text, (Option.some.inj h).symm⟩
  | cons step path ih =>
      cases hform : formOf text with
      | leaf =>
          rw [ofChars_of_leaf hform, node?_leaf_cons] at h
          cases h
      | optional inner =>
          rw [ofChars_of_optional hform] at h
          obtain ⟨part, hpart, hnode⟩ := ih (node?_optional_eq_some_iff.mp h).2
          exact ⟨part, hpart.trans (infix_of_formOf_optional hform), hnode⟩
      | union left right =>
          rw [ofChars_of_union hform] at h
          obtain ⟨hleft, hright⟩ := infix_of_formOf_union hform
          rcases node?_union_eq_some_iff.mp h with ⟨-, h⟩ | ⟨-, h⟩
          · obtain ⟨part, hpart, hnode⟩ := ih h
            exact ⟨part, hpart.trans hleft, hnode⟩
          · obtain ⟨part, hpart, hnode⟩ := ih h
            exact ⟨part, hpart.trans hright, hnode⟩
      | array member =>
          rw [ofChars_of_array hform] at h
          obtain ⟨part, hpart, hnode⟩ := ih (node?_array_eq_some_iff.mp h).2
          exact ⟨part, hpart.trans (infix_of_formOf_array hform), hnode⟩

/-- Four steps down, the name in the array on the right of an optional union. -/
example : (parse "opt a or OPT b arr").node? [.inner, .right, .inner, .member] = some (leaf "b") := by
  cbv

theorem formOf_of_ofChars_eq_leaf {name : String} (h : ofChars text = leaf name) :
    formOf text = .leaf := by
  have hreading := reading_ofChars text
  rw [h] at hreading
  cases hreading with
  | leaf hform => exact hform

/-- What reads as a union has the form of one, and its stored texts are those of its parts. -/
theorem formOf_of_ofChars_eq_union {first second : TypeExpr} {firstText secondText : String}
    (h : ofChars text = union first second firstText secondText) :
    formOf text = .union firstText.toList secondText.toList ∧
      parse firstText = first ∧ parse secondText = second := by
  have hreading := reading_ofChars text
  rw [h] at hreading
  cases hreading with
  | union hform => simpa [parse] using hform

/-- What reads as an array has the form of one, and its stored text is that of its member. -/
theorem formOf_of_ofChars_eq_array {part : TypeExpr} {partText : String}
    (h : ofChars text = array part partText) :
    formOf text = .array partText.toList ∧ parse partText = part := by
  have hreading := reading_ofChars text
  rw [h] at hreading
  cases hreading with
  | array hform => simpa [parse] using hform

end Parts

end TypeExpr
end CallSchema
