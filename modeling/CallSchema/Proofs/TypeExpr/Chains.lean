import CallSchema.Proofs.TypeExpr.Denotation
import CallSchema.Proofs.TypeExpr.Grammar

/-!
# Chains of branches

A chain is a text of branches joined by ` or `.  It is not read branch by branch: the last separator parts
the last branch from the others, and an optional keyword in front of the first branch takes in the whole
chain.  Still a chain denotes what one of its branches denotes (`denotes_chain_iff`), since null, which is
all that the keyword adds, is added to the union either way.  A branch that ends in an optional keyword
would break this: `opt or num` is read as an optional expression around `or num`.

So a check against a chain admits what a check against one of the branches admits (`chain_admits_any`).  The
argument's name must be one that can be written: where a branch refuses, it writes its reason, also though
the next branch accepts (`chain_of_unwritten_argument`).
-/

namespace CallSchema
namespace TypeExpr

/-- A word that makes what follows optional. -/
def SpellsOptional (word : String) : Prop := word.toLower = "opt" ∨ word.toLower = "optional"

instance (word : String) : Decidable (SpellsOptional word) :=
  decidable_of_iff _ isOptionalKeyword_toList_iff

/-- A word that may stand in a branch. -/
structure IsBranchWord (word : String) : Prop where
  ne_empty : word ≠ ""
  spaceless : ' ' ∉ word.toList
  oneLine : '\n' ∉ word.toList
  ne_or : word ≠ "or"

instance (word : String) : Decidable (IsBranchWord word) :=
  decidable_of_iff (word ≠ "" ∧ ' ' ∉ word.toList ∧ '\n' ∉ word.toList ∧ word ≠ "or")
    ⟨fun ⟨hempty, hspace, hline, hor⟩ => ⟨hempty, hspace, hline, hor⟩,
      fun h => ⟨h.ne_empty, h.spaceless, h.oneLine, h.ne_or⟩⟩

/-- A branch of a chain, by its words; the last one is no optional keyword. -/
structure Branch where
  words : List String
  ne_nil : words ≠ []
  isBranchWord : ∀ word ∈ words, IsBranchWord word
  ends : ∀ word ∈ words.getLast?, ¬ SpellsOptional word

/-- The words of a branch, joined by single spaces. -/
def Branch.text (branch : Branch) : String := " ".intercalate branch.words

/-- The branches of a chain, joined by ` or `. -/
def chain (branches : List Branch) : String := " or ".intercalate (branches.map Branch.text)

/-- The check of a value against a text accepts it. -/
def Admits [Host] (registry : Registry) (argument : Value) (text : String) (value : Value) : Prop :=
  ((parse text).check registry argument value).outcome = .ok .accepted

/-! ## Parts around a separator -/

/-- The last word of a text is neither empty nor an optional keyword. -/
def EndsPlainly (text : List Char) : Prop :=
  ∃ word, (words text).getLast? = some word ∧ word ≠ [] ∧ isOptionalKeyword word = false

section Parts

variable {left right word : List Char}

theorem endsPlainly_spaced_iff : EndsPlainly (left ++ ' ' :: right) ↔ EndsPlainly right := by
  have hlast : (words (left ++ ' ' :: right)).getLast? = (words right).getLast? := by
    rw [words_append_space, List.getLast?_append_of_ne_nil _ (words_ne_nil right)]
  rw [EndsPlainly, EndsPlainly, hlast]

theorem endsPlainly_separated_iff :
    EndsPlainly (left ++ (separator ++ right)) ↔ EndsPlainly right := by
  have hspaced : left ++ (separator ++ right) = (left ++ [' ', 'o', 'r']) ++ ' ' :: right := by
    simp [separator]
  rw [hspaced, endsPlainly_spaced_iff]

theorem EndsPlainly.ne_nil (h : EndsPlainly left) : left ≠ [] := by
  rintro rfl
  obtain ⟨word, hlast, hne, -⟩ := h
  rw [words_of_not_mem List.not_mem_nil] at hlast
  exact hne (Option.some.inj hlast).symm

theorem EndsPlainly.not_isOptionalKeyword (h : EndsPlainly word) :
    isOptionalKeyword word = false := by
  by_cases hspace : ' ' ∈ word
  · rw [Bool.eq_false_iff]
    exact fun hword => not_mem_of_isOptionalKeyword hword (Or.inl rfl) hspace
  · obtain ⟨last, hlast, -, hplain⟩ := h
    rw [words_of_not_mem hspace] at hlast
    obtain rfl := Option.some.inj hlast
    exact hplain

/-- The first space of a text in two parts is the one between them, or it stands in the left part. -/
theorem eq_or_exists_of_spaced_eq {inner : List Char} (hspace : ' ' ∉ word)
    (h : left ++ ' ' :: right = word ++ ' ' :: inner) :
    left = word ∨ ∃ rest, left = word ++ ' ' :: rest := by
  rcases List.append_eq_append_iff.mp h with ⟨rest, rfl, hrest⟩ | ⟨rest, rfl, hrest⟩
  · cases rest with
    | nil => exact Or.inl (List.append_nil left).symm
    | cons c rest =>
        obtain ⟨rfl, -⟩ := List.cons.inj hrest
        exact absurd (List.mem_append_right left List.mem_cons_self) hspace
  · cases rest with
    | nil => exact Or.inl (List.append_nil word)
    | cons c rest =>
        obtain ⟨rfl, -⟩ := List.cons.inj hrest
        exact Or.inr ⟨rest, rfl⟩

/-- An optional keyword in front of the left part is in front of the whole text, and there is no other. -/
theorem splitOptional?_separated (h : EndsPlainly left) :
    splitOptional? (left ++ (separator ++ right)) =
      (splitOptional? left).map (· ++ (separator ++ right)) := by
  cases hleft : splitOptional? left with
  | some inner =>
      obtain ⟨word, rfl, hword, hne⟩ := splitOptional?_eq_some_iff.mp hleft
      exact splitOptional?_eq_some_iff.mpr
        ⟨word, by simp, hword, List.append_ne_nil_of_left_ne_nil hne _⟩
  | none =>
      rw [Option.map_none, Option.eq_none_iff_forall_ne_some]
      intro inner hinner
      obtain ⟨word, htext, hword, -⟩ := splitOptional?_eq_some_iff.mp hinner
      have hspace : ' ' ∉ word := not_mem_of_isOptionalKeyword hword (Or.inl rfl)
      rcases eq_or_exists_of_spaced_eq hspace htext with rfl | ⟨rest, rfl⟩
      · -- The left part would be an optional keyword.
        rw [h.not_isOptionalKeyword] at hword
        cases hword
      · have hrest : rest ≠ [] := (endsPlainly_spaced_iff.mp h).ne_nil
        rw [splitOptional?_eq_some_iff.mpr ⟨word, rfl, hword, hrest⟩] at hleft
        cases hleft

/-- A text without the word `or` has no separator, also not with the end of one in front. -/
theorem not_hasSeparator_of_not_mem_words (h : ['o', 'r'] ∉ words right) :
    ¬ HasSeparator ('o' :: 'r' :: ' ' :: right) := by
  rintro ⟨front, back, htext, -⟩
  have hwords : words ('o' :: 'r' :: ' ' :: right) = ['o', 'r'] :: words right :=
    words_append_space ['o', 'r'] right
  have hparts : words (front ++ (separator ++ back)) =
      words front ++ (['o', 'r'] :: words back) := by
    rw [show front ++ (separator ++ back) = front ++ ' ' :: (['o', 'r'] ++ ' ' :: back) from rfl,
      words_append_space, words_append_space]
    rfl
  rw [htext, hparts] at hwords
  obtain ⟨first, others, hfront⟩ := List.exists_cons_of_ne_nil (words_ne_nil front)
  rw [hfront] at hwords
  apply h
  rw [← List.tail_eq_of_cons_eq hwords]
  simp

/-- Without an optional keyword in front, a text is split at its last separator. -/
theorem ofChars_separated (hnone : splitOptional? left = none) (hleft : EndsPlainly left)
    (hright : right ≠ []) (hor : ['o', 'r'] ∉ words right)
    (hline : '\n' ∉ left ++ (separator ++ right)) :
    ofChars (left ++ (separator ++ right)) =
      union (ofChars left) (ofChars right) (String.ofList left) (String.ofList right) := by
  apply ofChars_of_union
  apply formOf_eq_union hline
  · rw [splitOptional?_separated hleft, hnone, Option.map_none]
  · exact splitUnion?_eq_some_iff.mpr
      ⟨rfl, hleft.ne_nil, hright, not_hasSeparator_of_not_mem_words hor⟩

/-- A text whose right part has no separator denotes what one of its parts denotes. -/
theorem denotes_separated_iff [Host] (registry : Registry) (value : Value) (hleft : EndsPlainly left)
    (hright : right ≠ []) (hor : ['o', 'r'] ∉ words right)
    (hline : '\n' ∉ left ++ (separator ++ right)) :
    (ofChars (left ++ (separator ++ right))).Denotes registry value ↔
      (ofChars left).Denotes registry value ∨ (ofChars right).Denotes registry value := by
  -- Along the reading of the left part, to strip its optional keywords.
  induction left using ofChars.induct with
  | case2 left inner hform ih =>
      have hsplit := splitOptional?_of_formOf hform
      have hwhole : splitOptional? (left ++ (separator ++ right)) =
          some (inner ++ (separator ++ right)) := by
        rw [splitOptional?_separated hleft, hsplit, Option.map_some]
      rw [ofChars_of_optional (formOf_eq_optional hline hwhole), ofChars_of_optional hform, Denotes,
        Denotes]
      obtain ⟨word, rfl, -, -⟩ := splitOptional?_eq_some_iff.mp hsplit
      have hinnerLine : '\n' ∉ inner ++ (separator ++ right) := by
        rw [List.append_assoc, List.cons_append] at hline
        exact fun hmem => hline (List.mem_append_right word (List.mem_cons_of_mem ' ' hmem))
      rw [ih (endsPlainly_spaced_iff.mp hleft) hinnerLine, or_assoc]
  | case1 left hform =>
      rcases formOf_eq_leaf_iff.mp hform with hmem | ⟨hnone, -⟩
      · exact absurd (List.mem_append_left _ hmem) hline
      · rw [ofChars_separated hnone hleft hright hor hline, Denotes]
  | case3 left first second hform =>
      have hnone := (splitUnion?_of_formOf hform).1
      rw [ofChars_separated hnone hleft hright hor hline, Denotes]
  | case4 left member hform =>
      have hnone := (splitArray?_of_formOf hform).1
      rw [ofChars_separated hnone hleft hright hor hline, Denotes]

end Parts

/-! ## Branches and chains -/

theorem not_mem_intercalate {c : Char} {between : List Char} {parts : List (List Char)}
    (hbetween : c ∉ between) (hparts : ∀ part ∈ parts, c ∉ part) :
    c ∉ between.intercalate parts := by
  induction parts with
  | nil => simp [List.intercalate]
  | cons part parts ih =>
      obtain ⟨hpart, hothers⟩ := List.forall_mem_cons.mp hparts
      cases parts with
      | nil => simpa [List.intercalate] using hpart
      | cons next parts => simpa [List.intercalate, hpart, hbetween] using ih hothers

namespace Branch

variable (branch : Branch)

/-- The words of a branch are those that its text falls apart into. -/
theorem words_text : TypeExpr.words branch.text.toList = branch.words.map String.toList := by
  rw [text, String.toList_intercalate]
  refine List.splitOn_intercalate ' ' ?_ (mt List.map_eq_nil_iff.mp branch.ne_nil)
  intro chars hchars
  obtain ⟨word, hword, rfl⟩ := List.mem_map.mp hchars
  exact (branch.isBranchWord word hword).spaceless

theorem oneLine_text : '\n' ∉ branch.text.toList := by
  rw [text, String.toList_intercalate]
  apply not_mem_intercalate (by decide)
  intro chars hchars
  obtain ⟨word, hword, rfl⟩ := List.mem_map.mp hchars
  exact (branch.isBranchWord word hword).oneLine

theorem or_not_mem_words_text : ['o', 'r'] ∉ TypeExpr.words branch.text.toList := by
  rw [words_text]
  intro hmem
  obtain ⟨word, hword, hor⟩ := List.mem_map.mp hmem
  exact (branch.isBranchWord word hword).ne_or (String.toList_inj.mp hor)

theorem endsPlainly_text : EndsPlainly branch.text.toList := by
  have hlast := List.getLast?_eq_some_getLast branch.ne_nil
  generalize branch.words.getLast branch.ne_nil = word at hlast
  have hword := branch.isBranchWord word (List.mem_of_getLast? hlast)
  refine ⟨word.toList, ?_, ?_, ?_⟩
  · rw [words_text, List.getLast?_map, hlast, Option.map_some]
  · exact fun hnil => hword.ne_empty (String.toList_inj.mp hnil)
  · rw [Bool.eq_false_iff]
    exact mt isOptionalKeyword_toList_iff.mp (branch.ends word hlast)

/-- Behind an optional keyword at the front of a branch there is a branch. -/
theorem exists_rest {keyword : String} {later : List String}
    (hwords : branch.words = keyword :: later)
    (hkeyword : SpellsOptional keyword) :
    ∃ rest : Branch, rest.words = later ∧ branch.text = keyword ++ (" " ++ rest.text) := by
  have hlater : later ≠ [] := by
    rintro rfl
    exact branch.ends keyword (by rw [hwords]; rfl) hkeyword
  refine ⟨⟨later, hlater, ?_, ?_⟩, rfl, ?_⟩
  · intro word hword
    exact branch.isBranchWord word (hwords ▸ List.mem_cons_of_mem keyword hword)
  · intro word hlast
    refine branch.ends word ?_
    rwa [hwords, List.getLast?_cons_of_ne_nil hlater]
  · show " ".intercalate branch.words = keyword ++ (" " ++ " ".intercalate later)
    rw [hwords, String.intercalate_cons_of_ne_nil hlater, String.append_assoc]

end Branch

theorem toList_chain_append_singleton {branches : List Branch} (hne : branches ≠ []) (last : Branch) :
    (chain (branches ++ [last])).toList =
      (chain branches).toList ++ (separator ++ last.text.toList) := by
  rw [chain, List.map_append, List.map_singleton,
    String.intercalate_append_of_ne_nil (mt List.map_eq_nil_iff.mp hne) (List.cons_ne_nil _ _),
    String.intercalate_singleton]
  simp [chain, separator]

theorem oneLine_chain (branches : List Branch) : '\n' ∉ (chain branches).toList := by
  rw [chain, String.toList_intercalate]
  apply not_mem_intercalate (by decide)
  simp only [List.map_map, List.mem_map]
  rintro chars ⟨branch, -, rfl⟩
  exact branch.oneLine_text

theorem endsPlainly_chain {branches : List Branch} (hne : branches ≠ []) :
    EndsPlainly (chain branches).toList := by
  induction branches using List.reverseRecOn with
  | nil => exact absurd rfl hne
  | append_singleton branches last ih =>
      cases branches with
      | nil => exact last.endsPlainly_text
      | cons first branches =>
          rw [toList_chain_append_singleton (List.cons_ne_nil _ _), endsPlainly_separated_iff]
          exact last.endsPlainly_text

/-- A chain denotes what one of its branches denotes. -/
theorem denotes_chain_iff [Host] (registry : Registry) (value : Value) {branches : List Branch}
    (hne : branches ≠ []) :
    (parse (chain branches)).Denotes registry value ↔
      ∃ branch ∈ branches, (parse branch.text).Denotes registry value := by
  -- The last separator parts the last branch from the others.
  induction branches using List.reverseRecOn with
  | nil => exact absurd rfl hne
  | append_singleton branches last ih =>
      by_cases hfirst : branches = []
      · subst hfirst
        simp [chain]
      · have hline := oneLine_chain (branches ++ [last])
        rw [toList_chain_append_singleton hfirst] at hline
        have hparts := denotes_separated_iff registry value (endsPlainly_chain hfirst)
          last.endsPlainly_text.ne_nil last.or_not_mem_words_text hline
        rw [← toList_chain_append_singleton hfirst] at hparts
        refine hparts.trans ?_
        rw [← parse, ← parse, ih hfirst]
        simp [or_and_right, exists_or]

/-- A branch that ends in an optional keyword would not be read as one. -/
example : parse "opt or num" = optional (leaf "or num") := by cbv

/-- An optional keyword in front of the first branch is read as one in front of the whole chain. -/
theorem parse_chain_of_optional {branch rest : Branch} {keyword : String} (others : List Branch)
    (htext : branch.text = keyword ++ (" " ++ rest.text))
    (hkeyword : SpellsOptional keyword) :
    parse (chain (branch :: others)) = optional (parse (chain (rest :: others))) := by
  have hchain : chain (branch :: others) = keyword ++ (" " ++ chain (rest :: others)) := by
    rw [chain, chain, List.map_cons, List.map_cons, htext, String.intercalate_cons_append,
      String.intercalate_cons_append]
  have hsplit : splitOptional? (chain (branch :: others)).toList =
      some (chain (rest :: others)).toList :=
    splitOptional?_eq_some_iff.mpr ⟨keyword.toList, by simp [hchain],
      isOptionalKeyword_toList_iff.mpr hkeyword, (endsPlainly_chain (List.cons_ne_nil _ _)).ne_nil⟩
  exact ofChars_of_optional (formOf_eq_optional (oneLine_chain _) hsplit)

/-! ## Chains over a reliable registry -/

section

variable [Host] {registry : Registry} {argument : Value}

theorem admits_iff_denotes (hregistry : registry.Reliable) (hargument : argument.Writable)
    (text : String) (value : Value) :
    Admits registry argument text value ↔ (parse text).Denotes registry value := by
  obtain ⟨argumentText, hargument⟩ := hargument
  exact (settles_of_isProper (hregistry _) (isProper_ofChars text.toList) hargument value).accepted_iff

theorem admits_chain_iff (hregistry : registry.Reliable) (hargument : argument.Writable)
    {branches : List Branch} (hne : branches ≠ []) (value : Value) :
    Admits registry argument (chain branches) value ↔
      ∃ branch ∈ branches, Admits registry argument branch.text value := by
  simp only [admits_iff_denotes hregistry hargument, denotes_chain_iff registry value hne]

/-- Over a reliable registry and for an argument whose name can be written every check against a text ends
in a verdict, and a chain means any of its branches: it admits what one of them admits.  So the order of the
branches does not matter, although an optional keyword in front of the first branch takes in the whole
chain. -/
theorem chain_admits_any (hregistry : registry.Reliable) (hargument : argument.Writable)
    {branches : List Branch} (hne : branches ≠ []) (value : Value) :
    (∀ text, ∃ verdict, ((parse text).check registry argument value).outcome = .ok verdict) ∧
    (Admits registry argument (chain branches) value ↔
      ∃ branch ∈ branches, Admits registry argument branch.text value) ∧
    (∀ reordered : List Branch, reordered.Perm branches →
      (Admits registry argument (chain reordered) value ↔
        Admits registry argument (chain branches) value)) ∧
    ∀ branch others keyword later, branches = branch :: others →
      branch.words = keyword :: later → SpellsOptional keyword →
        ∃ rest : Branch, rest.words = later ∧
          parse (chain branches) = optional (parse (chain (rest :: others))) := by
  refine ⟨?_, admits_chain_iff hregistry hargument hne value, ?_, ?_⟩
  · intro text
    obtain ⟨argumentText, hargument⟩ := hargument
    obtain ⟨verdict, hverdict, -⟩ :=
      settles_of_isProper (hregistry _) (isProper_ofChars text.toList) hargument value
    exact ⟨verdict, hverdict⟩
  · intro reordered hperm
    have hreordered : reordered ≠ [] := by
      rintro rfl
      exact hne hperm.nil_eq.symm
    rw [admits_chain_iff hregistry hargument hne, admits_chain_iff hregistry hargument hreordered]
    simp only [hperm.mem_iff]
  · rintro branch others keyword later rfl hwords hkeyword
    obtain ⟨rest, hrest, htext⟩ := branch.exists_rest hwords hkeyword
    exact ⟨rest, hrest, parse_chain_of_optional others htext hkeyword⟩

end

/-- Even numbers, arrays of points, and texts. -/
def sampleBranches : List Branch := [
  ⟨["opt", "e"], by decide, by decide, by decide⟩,
  ⟨["pt", "arr"], by decide, by decide, by decide⟩,
  ⟨["str"], by decide, by decide, by decide⟩]

/-- Null is admitted wherever the optional branch stands, in front or at the end. -/
theorem chain_admits_any_sampleBranches :
    letI := evenHost
    sampleRegistry.Reliable ∧ sampleBranches ≠ [] ∧
    chain sampleBranches = "opt e or pt arr or str" ∧
    chain sampleBranches.reverse = "str or pt arr or opt e" ∧
    Admits sampleRegistry (.str "x") (chain sampleBranches) .null ∧
    Admits sampleRegistry (.str "x") (chain sampleBranches.reverse) .null ∧
    ∃ rest : Branch, rest.words = ["e"] ∧
      parse (chain sampleBranches) =
        optional (parse (chain (rest :: sampleBranches.tail))) := by
  let _ := evenHost
  have hregistry : sampleRegistry.Reliable := reliable_sampleRegistry
  have hne : sampleBranches ≠ [] := by decide
  obtain ⟨-, hany, horder, hfront⟩ :=
    chain_admits_any hregistry (Value.writable_str "x") hne .null
  have hbranch : Admits sampleRegistry (.str "x") "opt e" .null := by
    rw [Admits]
    cbv
  have hchain := hany.mpr ⟨_, List.mem_cons_self, hbranch⟩
  exact ⟨hregistry, hne, by cbv, by cbv, hchain,
    (horder _ (List.reverse_perm sampleBranches)).mpr hchain,
    hfront _ _ "opt" ["e"] rfl rfl (by decide)⟩

/-- Numbers or texts. -/
def numberOrText : List Branch := [
  ⟨["num"], by decide, by decide, by decide⟩,
  ⟨["str"], by decide, by decide, by decide⟩]

/-- A text is admitted as one, but by no chain that asks for a number first, if the argument is named by a
number of too many digits: the refusal of the first branch cannot be written. -/
theorem chain_of_unwritten_argument :
    letI := Host.quiet
    Registry.standard.Reliable ∧ chain numberOrText = "num or str" ∧
    Admits Registry.standard (.int digitBound) "str" (.str "a") ∧
    ¬ (Admits Registry.standard (.int digitBound) (chain numberOrText) (.str "a") ↔
      ∃ branch ∈ numberOrText, Admits Registry.standard (.int digitBound) branch.text (.str "a")) := by
  let _ := Host.quiet
  have htext : chain numberOrText = "num or str" := by cbv
  have hbranch : Admits Registry.standard (.int digitBound) "str" (.str "a") := by
    have hparse : parse "str" = leaf "str" := by cbv
    have hresolve : Registry.standard.resolve (.str "str") =
        .ok ⟨.str "string", .callable (.standard .isString)⟩ := by cbv
    rw [Admits, hparse]
    exact checkLeaf_eq_accepted_iff.mpr ⟨_, hresolve, rfl⟩
  refine ⟨Registry.reliable_standard, htext, hbranch, ?_⟩
  intro hany
  have hparse : parse (chain numberOrText) = union (leaf "num") (leaf "str") "num" "str" := by
    rw [htext]
    cbv
  have hresolve : Registry.standard.resolve (.str "num") =
      .ok ⟨.str "number", .callable (.standard .isNumber)⟩ := by cbv
  have hfault : (checkLeaf Registry.standard (.int digitBound) "num" (.str "a")).outcome =
      .error .tooManyDigits := outcome_checkLeaf_of_unwritten intText_digitBound hresolve rfl
  have hadmits : Admits Registry.standard (.int digitBound) (chain numberOrText) (.str "a") :=
    hany.mpr ⟨_, List.mem_cons_of_mem _ List.mem_cons_self, hbranch⟩
  rw [Admits, hparse, check, check, Run.bind_of_error hfault] at hadmits
  cases hadmits

end TypeExpr
end CallSchema
