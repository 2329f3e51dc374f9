import CallSchema.Schema.Resolve
import Mathlib.Data.List.MinMax

/-!
# Ranking matches

Keeping the better of two matches is associative, so the best of several can be found group by group:
this is what makes nested lists of candidates equal to flat ones.  Two descriptions of the best match
stand beside the fold that computes it:

* `pick?` names it outright: the earliest match of the largest consumption, among the accepting ones
  if there are any (`pick?_cons`);
* `ranked` sorts the matches by consumption, the largest first and equals in their order; the best is
  then the first that accepts, or the very first (`first?_ranked_cons`).
-/

namespace CallSchema
namespace Match

theorem outranks_iff {later earlier : Match} :
    later.outranks earlier = true ↔
      (later.ok = true ∧ earlier.ok = false) ∨
        (later.ok = earlier.ok ∧ earlier.consumed < later.consumed) := by
  simp [outranks]

theorem better_eq_left {earlier later : Match} (h : ¬ later.outranks earlier = true) :
    earlier.better later = earlier := if_neg h

theorem better_eq_right {earlier later : Match} (h : later.outranks earlier = true) :
    earlier.better later = later := if_pos h

/-- Of two matches one is kept. -/
theorem better_eq_or (earlier later : Match) :
    earlier.better later = earlier ∨ earlier.better later = later := by
  by_cases h : later.outranks earlier = true
  · exact Or.inr (better_eq_right h)
  · exact Or.inl (better_eq_left h)

/-- What holds of two matches holds of the better one. -/
theorem better_of_both {P : Match → Prop} {earlier later : Match} (h : P earlier) (h' : P later) :
    P (earlier.better later) := by
  rcases better_eq_or earlier later with hkept | hkept
  · rw [hkept]
    exact h
  · rw [hkept]
    exact h'

theorem outranks_trans {first second third : Match} (h : second.outranks first = true)
    (h' : third.outranks second = true) : third.outranks first = true := by
  rw [outranks_iff] at h h' ⊢
  grind

/-- What outranks a match also outranks all that do not outrank it. -/
theorem outranks_of_not_outranks {first second third : Match}
    (h : ¬ second.outranks first = true) (h' : third.outranks first = true) :
    third.outranks second = true := by
  rw [outranks_iff] at h h' ⊢
  grind

theorem better_assoc (first second third : Match) :
    (first.better second).better third = first.better (second.better third) := by
  by_cases h : second.outranks first = true
  · rw [better_eq_right h]
    by_cases h' : third.outranks second = true
    · rw [better_eq_right h', better_eq_right (outranks_trans h h')]
    · rw [better_eq_left h', better_eq_right h]
  · rw [better_eq_left h]
    by_cases h' : third.outranks second = true
    · rw [better_eq_right h']
    · rw [better_eq_left h', better_eq_left h]
      apply better_eq_left
      intro hthird
      exact h' (outranks_of_not_outranks h hthird)

instance : Std.Associative better := ⟨better_assoc⟩

@[simp] theorem best_nil (first : Match) : best first [] = first := rfl

theorem best_cons (first next : Match) (others : List Match) :
    best first (next :: others) = best (first.better next) others := rfl

/-- The best of a group may first be found on its own. -/
theorem better_best (first next : Match) (others : List Match) :
    first.better (best next others) = best first (next :: others) :=
  List.foldl_assoc.symm

theorem best_append (first : Match) (group others : List Match) :
    best first (group ++ others) = best (best first group) others :=
  List.foldl_append

/-! ## The earliest of the largest -/

/-- The match to keep: the earliest of those that consumed most, among the accepting ones if there
are any. -/
def pick? (results : List Match) : Option Match :=
  if results.any ok then (results.filter ok).argmax consumed else results.argmax consumed

/-- The match to keep accepts when any does. -/
theorem ok_of_pick? {results : List Match} {chosen : Match} (h : pick? results = some chosen) :
    chosen.ok = results.any ok := by
  unfold pick? at h
  split at h
  · rename_i hany
    rw [hany]
    exact (List.mem_filter.mp (List.argmax_mem h)).2
  · rename_i hany
    by_contra hne
    have hok : chosen.ok = true := by
      rw [Bool.eq_false_of_not_eq_true hany] at hne
      exact Bool.eq_true_of_not_eq_false hne
    exact hany (List.any_eq_true.mpr ⟨chosen, List.argmax_mem h, hok⟩)

/-- Among matches that all accept or all refuse, the better one is the earliest of the largest. -/
theorem argmax_cons_of_some {first chosen : Match} {others : List Match}
    (h : others.argmax consumed = some chosen) (hok : chosen.ok = first.ok) :
    (first :: others).argmax consumed = some (first.better chosen) := by
  rw [List.argmax_cons]
  simp only [h]
  by_cases hlt : first.consumed < chosen.consumed
  · rw [if_pos hlt, better_eq_right (outranks_iff.mpr (Or.inr ⟨hok, hlt⟩))]
  · have hkept : ¬ chosen.outranks first = true := by
      simp [outranks_iff, hok, hlt]
    rw [if_neg hlt, better_eq_left hkept]

/-- A match in front of others stays unless the one kept of the others outranks it. -/
theorem pick?_cons_of_some {first chosen : Match} {others : List Match}
    (h : pick? others = some chosen) : pick? (first :: others) = some (first.better chosen) := by
  have hchosen := ok_of_pick? h
  unfold pick? at h
  cases hfirst : first.ok with
  | true =>
      have hpick : pick? (first :: others) = (first :: others.filter ok).argmax consumed := by
        simp [pick?, hfirst]
      rw [hpick]
      cases hany : others.any ok with
      | true =>
          rw [hany] at h hchosen
          exact argmax_cons_of_some h (hchosen.trans hfirst.symm)
      | false =>
          -- Nothing behind an accepting match accepts, so it is picked alone.
          have hnone : others.filter ok = [] := by simpa using hany
          rw [hany] at hchosen
          have hkept : ¬ chosen.outranks first = true := by
            simp [outranks_iff, hfirst, hchosen]
          rw [hnone, better_eq_left hkept]
          rfl
  | false =>
      have hpick : pick? (first :: others) =
          if others.any ok then (others.filter ok).argmax consumed
          else (first :: others).argmax consumed := by
        simp [pick?, hfirst]
      rw [hpick]
      cases hany : others.any ok with
      | true =>
          rw [hany] at h hchosen
          have hkept : chosen.outranks first = true :=
            outranks_iff.mpr (Or.inl ⟨hchosen, hfirst⟩)
          rw [better_eq_right hkept]
          exact h
      | false =>
          rw [hany] at h hchosen
          exact argmax_cons_of_some h (hchosen.trans hfirst.symm)

/-- The best of several matches is the earliest of the largest, among the accepting ones if there are
any. -/
theorem pick?_cons (first : Match) (others : List Match) :
    pick? (first :: others) = some (best first others) := by
  induction others generalizing first with
  | nil =>
      by_cases hfirst : first.ok = true
      · simp [pick?, hfirst]
      · simp [pick?, hfirst]
  | cons next others ih =>
      rw [pick?_cons_of_some (ih next), better_best]

/-! ## The first of the ranked -/

/-- The matches by consumption, the largest first and equals in their order. -/
def ranked (results : List Match) : List Match :=
  results.mergeSort fun earlier later => later.consumed ≤ earlier.consumed

/-- The first ranked match that accepts, or else the very first. -/
def first? (results : List Match) : Option Match :=
  (results.find? ok).or results.head?

/-- Where a match in front of others ends up when they are ranked. -/
theorem ranked_cons (first : Match) (others : List Match) :
    ∃ before after, ranked (first :: others) = before ++ first :: after ∧
      ranked others = before ++ after ∧
      (∀ result ∈ before, first.consumed < result.consumed) ∧
      (∀ result ∈ after, result.consumed ≤ first.consumed) := by
  have htrans : ∀ a b c : Match, decide (b.consumed ≤ a.consumed) = true →
      decide (c.consumed ≤ b.consumed) = true → decide (c.consumed ≤ a.consumed) = true := by
    intro a b c hab hbc
    exact decide_eq_true (Nat.le_trans (of_decide_eq_true hbc) (of_decide_eq_true hab))
  have htotal : ∀ a b : Match,
      (decide (b.consumed ≤ a.consumed) || decide (a.consumed ≤ b.consumed)) = true := by
    intro a b
    simp only [Bool.or_eq_true, decide_eq_true_eq]
    omega
  obtain ⟨before, after, hranked, hothers, hbefore⟩ :=
    List.mergeSort_cons htrans htotal first others
  refine ⟨before, after, hranked, hothers, ?_, ?_⟩
  · intro result hmem
    simpa using hbefore result hmem
  · intro result hmem
    have hsorted := List.pairwise_mergeSort htrans htotal (first :: others)
    rw [hranked, List.pairwise_append, List.pairwise_cons] at hsorted
    simpa using hsorted.2.1.1 result hmem

/-- When no accepting match is found, each of them refuses. -/
theorem refused_of_find?_eq_none {results : List Match} (h : results.find? ok = none)
    {result : Match} (hmem : result ∈ results) : result.ok = false := by
  simpa using List.find?_eq_none.mp h result hmem

section Insertion

variable {first chosen : Match} {before after : List Match}

/-- An accepting match among sorted ones gives way to an accepting one before it, and to no other. -/
theorem first?_insert_accepting (hfirst : first.ok = true)
    (hbefore : ∀ result ∈ before, first.consumed < result.consumed)
    (hafter : ∀ result ∈ after, result.consumed ≤ first.consumed)
    (h : first? (before ++ after) = some chosen) :
    first? (before ++ first :: after) = some (first.better chosen) := by
  unfold first? at h ⊢
  rw [List.find?_append] at h ⊢
  cases hfind : before.find? ok with
  | some accepting =>
      -- An accepting match ranked before `first` consumed more than it.
      have heq : accepting = chosen := by simpa [hfind] using h
      have hok : accepting.ok = true := List.find?_some hfind
      have hlt := hbefore accepting (List.mem_of_find?_eq_some hfind)
      subst heq
      rw [better_eq_right (outranks_iff.mpr (Or.inr ⟨hok.trans hfirst.symm, hlt⟩))]
      rfl
  | none =>
      -- The match chosen accepts and is ranked behind `first`, or it refuses.
      have hkept : ¬ chosen.outranks first = true := by
        cases hlater : after.find? ok with
        | some accepting =>
            have heq : accepting = chosen := by simpa [hfind, hlater] using h
            have hle := hafter accepting (List.mem_of_find?_eq_some hlater)
            subst heq
            simp [outranks_iff, hfirst, hle]
        | none =>
            have hmem : chosen ∈ before ++ after :=
              List.mem_of_mem_head? (by simpa [hfind, hlater] using h)
            have hrefused : chosen.ok = false := by
              rcases List.mem_append.mp hmem with hmem | hmem
              · exact refused_of_find?_eq_none hfind hmem
              · exact refused_of_find?_eq_none hlater hmem
            simp [outranks_iff, hfirst, hrefused]
      rw [better_eq_left hkept, List.find?_cons_of_pos hfirst]
      rfl

/-- A refusing match among sorted ones gives way to every accepting one, and to one before it. -/
theorem first?_insert_refusing (hfirst : first.ok = false)
    (hbefore : ∀ result ∈ before, first.consumed < result.consumed)
    (hafter : ∀ result ∈ after, result.consumed ≤ first.consumed)
    (h : first? (before ++ after) = some chosen) :
    first? (before ++ first :: after) = some (first.better chosen) := by
  have hskip : (before ++ first :: after).find? ok = (before ++ after).find? ok := by
    simp [List.find?_append, hfirst]
  unfold first? at h ⊢
  rw [hskip]
  cases hfind : (before ++ after).find? ok with
  | some accepting =>
      have heq : accepting = chosen := by simpa [hfind] using h
      have hok : accepting.ok = true := List.find?_some hfind
      subst heq
      rw [better_eq_right (outranks_iff.mpr (Or.inl ⟨hok, hfirst⟩))]
      rfl
  | none =>
      -- All matches refuse, so the front one is chosen with and without `first`.
      rw [hfind, Option.none_or] at h
      have hrefused := refused_of_find?_eq_none hfind (List.mem_of_mem_head? h)
      cases before with
      | nil =>
          have hle := hafter chosen (List.mem_of_mem_head? h)
          rw [better_eq_left (by simp [outranks_iff, hrefused, hle])]
          rfl
      | cons front before =>
          have heq : front = chosen := by simpa using h
          subst heq
          have hlt := hbefore front List.mem_cons_self
          rw [better_eq_right (outranks_iff.mpr (Or.inr ⟨hrefused.trans hfirst.symm, hlt⟩))]
          rfl

end Insertion

/-- Ranking one match more: it is kept unless the one kept so far outranks it. -/
theorem first?_ranked_cons_of_some {first chosen : Match} {others : List Match}
    (h : first? (ranked others) = some chosen) :
    first? (ranked (first :: others)) = some (first.better chosen) := by
  obtain ⟨before, after, hranked, hothers, hbefore, hafter⟩ := ranked_cons first others
  rw [hothers] at h
  rw [hranked]
  cases hfirst : first.ok with
  | true => exact first?_insert_accepting hfirst hbefore hafter h
  | false => exact first?_insert_refusing hfirst hbefore hafter h

/-- The best of several matches is the first that accepts once they are ranked, or the very first of
the ranked if none does. -/
theorem first?_ranked_cons (first : Match) (others : List Match) :
    first? (ranked (first :: others)) = some (best first others) := by
  induction others generalizing first with
  | nil =>
      unfold first? ranked
      rw [List.mergeSort_singleton]
      cases hfirst : first.ok with
      | true => simp [hfirst]
      | false => simp [hfirst]
  | cons next others ih =>
      rw [first?_ranked_cons_of_some (ih next), better_best]

end Match
end CallSchema
