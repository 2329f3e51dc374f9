import CallSchema.Proofs.TypeExpr.Nodes

/-!
# The normal form of what is read

Reading never builds every expression that the grammar allows.  What it builds falls into layers: array
keywords directly behind a leaf (`Suffixed`), optional keywords in front of that (`Operand`), unions that
take an operand on their right (`Alternatives`), and optional keywords in front of all (`NormalForm`).
The layers come from the order in which a text is taken apart: a form that is tried earlier and not found
in a text is not found in those parts of the text that come later (`normalForm_ofChars`).  From the layers
follows where a node of each form may stand (`NormalForm.place`).
-/

namespace CallSchema
namespace TypeExpr

/-! ## Layers -/

/-- A leaf with array keywords behind it. -/
inductive Suffixed : TypeExpr → Prop where
  | leaf (name : String) : Suffixed (leaf name)
  | array {member : TypeExpr} (memberText : String) (h : Suffixed member) :
      Suffixed (array member memberText)

/-- What may stand on the right of a union: optional keywords in front of a leaf with array keywords
behind it. -/
inductive Operand : TypeExpr → Prop where
  | suffixed {expr : TypeExpr} (h : Suffixed expr) : Operand expr
  | optional {inner : TypeExpr} (h : Operand inner) : Operand (optional inner)

/-- Unions that nest to the left, the first alternative without optional keywords. -/
inductive Alternatives : TypeExpr → Prop where
  | suffixed {expr : TypeExpr} (h : Suffixed expr) : Alternatives expr
  | union {left right : TypeExpr} (leftText rightText : String) (hleft : Alternatives left)
      (hright : Operand right) : Alternatives (union left right leftText rightText)

/-- What reading gives: optional keywords in front of alternatives. -/
inductive NormalForm : TypeExpr → Prop where
  | alternatives {expr : TypeExpr} (h : Alternatives expr) : NormalForm expr
  | optional {inner : TypeExpr} (h : NormalForm inner) : NormalForm (optional inner)

/-- No node is a union. -/
def UnionFree (expr : TypeExpr) : Prop :=
  ∀ path left right leftText rightText,
    expr.node? path ≠ some (union left right leftText rightText)

theorem UnionFree.of_optional {inner : TypeExpr} (h : UnionFree (optional inner)) :
    UnionFree inner := by
  intro path left right leftText rightText hnode
  exact h (.inner :: path) left right leftText rightText
    (node?_optional_eq_some_iff.mpr ⟨rfl, hnode⟩)

theorem NormalForm.alternatives_of_ne_optional {expr : TypeExpr} (h : NormalForm expr)
    (hne : ∀ inner, expr ≠ .optional inner) : Alternatives expr := by
  cases h with
  | alternatives h => exact h
  | optional h => exact absurd rfl (hne _)

theorem NormalForm.operand_of_unionFree {expr : TypeExpr} (h : NormalForm expr)
    (hfree : UnionFree expr) : Operand expr := by
  induction h with
  | alternatives h =>
      cases h with
      | suffixed h => exact .suffixed h
      | union leftText rightText hleft hright => exact absurd rfl (hfree [] _ _ _ _)
  | optional h ih => exact .optional (ih hfree.of_optional)

theorem Operand.suffixed_of_ne_optional {expr : TypeExpr} (h : Operand expr)
    (hne : ∀ inner, expr ≠ .optional inner) : Suffixed expr := by
  cases h with
  | suffixed h => exact h
  | optional h => exact absurd rfl (hne _)

/-! ## What a missing form says about parts of the text -/

section Parts

variable {text part : List Char}

/-- An optional keyword in front of the beginning of a text stands in front of the text. -/
theorem splitOptional?_eq_none_of_front (h : part <+: text) (hnone : splitOptional? text = none) :
    splitOptional? part = none := by
  obtain ⟨rest, rfl⟩ := h
  cases hsplit : splitOptional? part with
  | none => rfl
  | some inner =>
      obtain ⟨word, rfl, hword, hinner⟩ := splitOptional?_eq_some_iff.mp hsplit
      have hfound : splitOptional? (word ++ ' ' :: inner ++ rest) = some (inner ++ rest) :=
        splitOptional?_eq_some_iff.mpr
          ⟨word, by simp, hword, List.append_ne_nil_of_left_ne_nil hinner rest⟩
      rw [hfound] at hnone
      cases hnone

/-- A union in a part of a text is a union in the text. -/
theorem splitUnion?_eq_none_of_part (h : part <:+: text) (hnone : splitUnion? text = none) :
    splitUnion? part = none := by
  obtain ⟨before, after, rfl⟩ := h
  rw [splitUnion?_eq_none_iff] at hnone ⊢
  rintro left right rfl hleft
  have hempty : right ++ after = [] :=
    hnone (before ++ left) (right ++ after) (by simp)
      (List.append_ne_nil_of_right_ne_nil before hleft)
  exact (List.append_eq_nil_iff.mp hempty).1

/-- A text that is no union is read without one. -/
theorem unionFree_ofChars (h : splitUnion? text = none) : UnionFree (ofChars text) := by
  intro path left right leftText rightText hnode
  obtain ⟨part, hpart, hread⟩ := exists_infix_of_node? hnode
  have hunion := (splitUnion?_of_formOf (formOf_of_ofChars_eq_union hread.symm).1).2
  rw [splitUnion?_eq_none_of_part hpart h] at hunion
  cases hunion

theorem ofChars_ne_optional (h : splitOptional? text = none) (inner : TypeExpr) :
    ofChars text ≠ optional inner := by
  intro hread
  have hreading := reading_ofChars text
  rw [hread] at hreading
  cases hreading with
  | optional hform =>
      rw [splitOptional?_of_formOf hform] at h
      cases h

end Parts

/-- Whatever is read from a text is in normal form. -/
theorem normalForm_ofChars (text : List Char) : NormalForm (ofChars text) := by
  induction text using ofChars.induct with
  | case1 text hform =>
      rw [ofChars_of_leaf hform]
      exact .alternatives (.suffixed (.leaf _))
  | case2 text inner hform ih =>
      rw [ofChars_of_optional hform]
      exact .optional ih
  | case3 text left right hform ihleft ihright =>
      obtain ⟨hoptional, hunion⟩ := splitUnion?_of_formOf hform
      obtain ⟨rfl, -, -, hlast⟩ := splitUnion?_eq_some_iff.mp hunion
      -- The split was the last one, so not even the separator and the right part make a union.
      have hrest : splitUnion? (separator ++ right) = none := splitUnion?_cons_eq_none_iff.mpr hlast
      have hright : splitUnion? right = none :=
        splitUnion?_eq_none_of_part ⟨separator, [], by simp⟩ hrest
      have hleft : splitOptional? left = none :=
        splitOptional?_eq_none_of_front (List.prefix_append _ _) hoptional
      rw [ofChars_of_union hform]
      exact .alternatives (.union _ _ (ihleft.alternatives_of_ne_optional (ofChars_ne_optional hleft))
        (ihright.operand_of_unionFree (unionFree_ofChars hright)))
  | case4 text member hform ih =>
      obtain ⟨hoptional, hunion, harray⟩ := splitArray?_of_formOf hform
      obtain ⟨word, rfl, -, -⟩ := splitArray?_eq_some_iff.mp harray
      have hmember : splitOptional? member = none :=
        splitOptional?_eq_none_of_front (List.prefix_append _ _) hoptional
      have hfree : splitUnion? member = none :=
        splitUnion?_eq_none_of_part (List.prefix_append _ _).isInfix hunion
      have hoperand := ih.operand_of_unionFree (unionFree_ofChars hfree)
      rw [ofChars_of_array hform]
      exact .alternatives
        (.suffixed (.array _ (hoperand.suffixed_of_ne_optional (ofChars_ne_optional hmember))))

/-! ## Places of nodes -/

/-- Where a node of an expression in normal form stands, with the layer it belongs to. -/
inductive Place : List Step → TypeExpr → Prop where
  /-- Behind some of the optional keywords in front of all. -/
  | prefixed (depth : Nat) {node : TypeExpr} (h : NormalForm node) :
      Place (List.replicate depth .inner) node
  /-- Behind all of those, and to the left in the unions. -/
  | alternative (depth lefts : Nat) {node : TypeExpr} (h : Alternatives node) :
      Place (List.replicate depth .inner ++ List.replicate lefts .left) node
  /-- Behind some of the optional keywords of the right part of a union. -/
  | operand (front : List Step) (depth : Nat) {node : TypeExpr} (h : Operand node) :
      Place (front ++ .right :: List.replicate depth .inner) node
  /-- Anywhere, as a leaf with array keywords behind it. -/
  | suffixed (path : List Step) {node : TypeExpr} (h : Suffixed node) : Place path node

section Places

variable {expr node : TypeExpr} {path : List Step}

theorem Suffixed.of_node? (h : Suffixed expr) (hnode : expr.node? path = some node) :
    Suffixed node := by
  induction h generalizing path with
  | leaf name =>
      cases path with
      | nil =>
          obtain rfl := Option.some.inj hnode
          exact .leaf name
      | cons step path => simp at hnode
  | array memberText hmember ih =>
      cases path with
      | nil =>
          obtain rfl := Option.some.inj hnode
          exact .array memberText hmember
      | cons step path => exact ih (node?_array_eq_some_iff.mp hnode).2

theorem Operand.of_node? (h : Operand expr) (hnode : expr.node? path = some node) :
    Suffixed node ∨ (Operand node ∧ ∃ depth, path = List.replicate depth .inner) := by
  induction h generalizing path with
  | suffixed h => exact Or.inl (h.of_node? hnode)
  | optional h ih =>
      cases path with
      | nil =>
          obtain rfl := Option.some.inj hnode
          exact Or.inr ⟨.optional h, 0, rfl⟩
      | cons step path =>
          obtain ⟨rfl, hinner⟩ := node?_optional_eq_some_iff.mp hnode
          rcases ih hinner with hsuffixed | ⟨hoperand, depth, rfl⟩
          · exact Or.inl hsuffixed
          · exact Or.inr ⟨hoperand, depth + 1, rfl⟩

theorem Alternatives.of_node? (h : Alternatives expr) (hnode : expr.node? path = some node) :
    Suffixed node ∨ (Alternatives node ∧ ∃ lefts, path = List.replicate lefts .left) ∨
      (Operand node ∧ ∃ front depth, path = front ++ .right :: List.replicate depth .inner) := by
  induction h generalizing path with
  | suffixed h => exact Or.inl (h.of_node? hnode)
  | union leftText rightText hleft hright ih =>
      cases path with
      | nil =>
          obtain rfl := Option.some.inj hnode
          exact Or.inr (Or.inl ⟨.union leftText rightText hleft hright, 0, rfl⟩)
      | cons step path =>
          rcases node?_union_eq_some_iff.mp hnode with ⟨rfl, hpart⟩ | ⟨rfl, hpart⟩
          · rcases ih hpart with hsuffixed | ⟨halternatives, lefts, rfl⟩ | ⟨hoperand, front, depth, rfl⟩
            · exact Or.inl hsuffixed
            · exact Or.inr (Or.inl ⟨halternatives, lefts + 1, rfl⟩)
            · exact Or.inr (Or.inr ⟨hoperand, .left :: front, depth, rfl⟩)
          · rcases hright.of_node? hpart with hsuffixed | ⟨hoperand, depth, rfl⟩
            · exact Or.inl hsuffixed
            · exact Or.inr (Or.inr ⟨hoperand, [], depth, rfl⟩)

/-- One more optional keyword in front of all moves every place by one step. -/
theorem Place.behind_optional (h : Place path node) : Place (.inner :: path) node := by
  cases h with
  | prefixed depth h => exact .prefixed (depth + 1) h
  | alternative depth lefts h => exact .alternative (depth + 1) lefts h
  | operand front depth h => exact .operand (.inner :: front) depth h
  | suffixed path h => exact .suffixed _ h

/-- Every node of an expression in normal form has its place. -/
theorem NormalForm.place (h : NormalForm expr) (hnode : expr.node? path = some node) :
    Place path node := by
  -- On the optional keywords in front of all; the node may stand before the last of them.
  induction h generalizing path with
  | alternatives h =>
      rcases h.of_node? hnode with hsuffixed | ⟨halternatives, lefts, rfl⟩ | ⟨hoperand, front, depth, rfl⟩
      · exact .suffixed path hsuffixed
      · exact .alternative 0 lefts halternatives
      · exact .operand front depth hoperand
  | optional h ih =>
      cases path with
      | nil =>
          obtain rfl := Option.some.inj hnode
          exact .prefixed 0 (.optional h)
      | cons step path =>
          obtain ⟨rfl, hinner⟩ := node?_optional_eq_some_iff.mp hnode
          exact (ih hinner).behind_optional

/-! ## Nodes of each form -/

section Nodes

variable {left right member inner : TypeExpr} {leftText rightText memberText : String}

theorem Alternatives.ne_optional (h : Alternatives expr) : expr ≠ optional inner := by
  rintro rfl
  cases h with
  | suffixed h => cases h

theorem Operand.unionFree (h : Operand expr) : UnionFree expr := by
  intro path left right leftText rightText hnode
  rcases h.of_node? hnode with hsuffixed | ⟨hoperand, -⟩
  · cases hsuffixed
  · cases hoperand with
    | suffixed h => cases h

theorem Place.of_array (h : Place path (array member memberText)) : Suffixed member := by
  have hsuffixed : Suffixed (array member memberText) := by
    cases h with
    | prefixed depth h =>
        cases h with
        | alternatives h =>
            cases h with
            | suffixed h => exact h
    | alternative depth lefts h =>
        cases h with
        | suffixed h => exact h
    | operand front depth h =>
        cases h with
        | suffixed h => exact h
    | suffixed path h => exact h
  cases hsuffixed with
  | array memberText hmember => exact hmember

theorem Place.of_union (h : Place path (union left right leftText rightText)) :
    Alternatives left ∧ Operand right ∧
      ∃ depth lefts, path = List.replicate depth .inner ++ List.replicate lefts .left := by
  obtain ⟨halternatives, hpath⟩ : Alternatives (union left right leftText rightText) ∧
      ∃ depth lefts, path = List.replicate depth .inner ++ List.replicate lefts .left := by
    cases h with
    | prefixed depth h =>
        exact ⟨h.alternatives_of_ne_optional (by simp), depth, 0, by simp⟩
    | alternative depth lefts h => exact ⟨h, depth, lefts, rfl⟩
    | operand front depth h =>
        cases h with
        | suffixed h => cases h
    | suffixed path h => cases h
  cases halternatives with
  | suffixed h => cases h
  | union leftText rightText hleft hright => exact ⟨hleft, hright, hpath⟩

theorem Place.of_optional (h : Place path (optional inner)) :
    (∃ depth, path = List.replicate depth .inner) ∨
      ∃ front depth, path = front ++ .right :: List.replicate depth .inner := by
  cases h with
  | prefixed depth h => exact Or.inl ⟨depth, rfl⟩
  | alternative depth lefts h => exact absurd rfl h.ne_optional
  | operand front depth h => exact Or.inr ⟨front, depth, rfl⟩
  | suffixed path h => cases h

end Nodes

end Places

/-- Where the forms of an expression stand: arrays are made of arrays and leaves, unions nest to the left
only, and an optional expression stands at the root, in front of all, or on the right of a union. -/
structure WellPlaced (expr : TypeExpr) : Prop where
  member_of_array : ∀ path member memberText, expr.node? path = some (array member memberText) →
    (∃ name, member = leaf name) ∨ ∃ part partText, member = array part partText
  left_of_union : ∀ path left right leftText rightText,
    expr.node? path = some (union left right leftText rightText) → ∀ inner, left ≠ optional inner
  right_of_union : ∀ path left right leftText rightText,
    expr.node? path = some (union left right leftText rightText) → UnionFree right
  /-- A union is reached through the optional keywords in front of all and then to the left only. -/
  path_of_union : ∀ path left right leftText rightText,
    expr.node? path = some (union left right leftText rightText) →
      ∃ depth lefts, path = List.replicate depth .inner ++ List.replicate lefts .left
  /-- An optional expression is reached through nothing but optional ones, from the root or from the
  right part of a union. -/
  path_of_optional : ∀ path inner, expr.node? path = some (optional inner) →
    (∃ depth, path = List.replicate depth .inner) ∨
      ∃ front depth, path = front ++ .right :: List.replicate depth .inner

/-- In every expression that is read from a text, the forms stand where they should. -/
theorem parse_wellPlaced (text : String) : WellPlaced (parse text) := by
  have hplace : ∀ {path node}, (parse text).node? path = some node → Place path node :=
    fun hnode => (normalForm_ofChars text.toList).place hnode
  constructor
  · intro path member memberText hnode
    cases (hplace hnode).of_array with
    | leaf name => exact Or.inl ⟨name, rfl⟩
    | array partText hpart => exact Or.inr ⟨_, partText, rfl⟩
  · intro path left right leftText rightText hnode inner
    exact (hplace hnode).of_union.1.ne_optional
  · intro path left right leftText rightText hnode
    exact (hplace hnode).of_union.2.1.unionFree
  · intro path left right leftText rightText hnode
    exact (hplace hnode).of_union.2.2
  · intro path inner hnode
    exact (hplace hnode).of_optional

end TypeExpr
end CallSchema
