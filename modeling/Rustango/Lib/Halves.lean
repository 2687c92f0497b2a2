import Mathlib

/-!
# Splitting at a separator

A text split once, at the first or the last occurrence of a separator, and what the halves are.
-/

namespace Rustango.Halves

variable {α : Type*} [DecidableEq α]

/-- What stands before and after the first `c`. -/
def splitOnce (c : α) : List α → Option (List α × List α)
  | [] => none
  | d :: t => if d = c then some ([], t) else (splitOnce c t).map fun halves => (d :: halves.1, halves.2)

/-- What stands before and after the last `c`. -/
def rsplitOnce (c : α) (t : List α) : Option (List α × List α) :=
  (splitOnce c t.reverse).map fun halves => (halves.2.reverse, halves.1.reverse)

/-- What stands before and after the first occurrence of `sep`. -/
def splitOnceAt (sep : List α) : List α → Option (List α × List α)
  | [] => if sep = [] then some ([], []) else none
  | d :: t =>
    if sep <+: d :: t then some ([], (d :: t).drop sep.length)
    else (splitOnceAt sep t).map fun halves => (d :: halves.1, halves.2)

section Equations
-- Their equations are derived here, once for all the proofs that unfold them.
attribute [local simp] splitOnce splitOnceAt
end Equations

theorem splitOnce_eq_none (c : α) (t : List α) : splitOnce c t = none ↔ c ∉ t := by
  induction t with
  | nil => simp [splitOnce]
  | cons d t ih =>
    rw [splitOnce]
    by_cases h : d = c
    · simp [h]
    · simp [h, ih, Ne.symm h]

theorem splitOnce_append (c : α) (s t : List α) (h : c ∉ s) : splitOnce c (s ++ c :: t) = some (s, t) := by
  induction s with
  | nil => simp [splitOnce]
  | cons d s ih =>
    simp only [List.mem_cons, not_or] at h
    rw [List.cons_append, splitOnce, if_neg (Ne.symm h.1), ih h.2]
    rfl

theorem splitOnce_eq_some (c : α) (t a b : List α) (h : splitOnce c t = some (a, b)) :
    t = a ++ c :: b ∧ c ∉ a := by
  induction t generalizing a with
  | nil => cases h
  | cons d t ih =>
    rw [splitOnce] at h
    split at h
    · rename_i hd
      cases h
      simp [hd]
    · rename_i hd
      cases hrest : splitOnce c t with
      | none =>
        rw [hrest] at h
        cases h
      | some halves =>
        rw [hrest] at h
        cases h
        have hsplit := ih halves.1 hrest
        refine ⟨by rw [List.cons_append, ← hsplit.1], ?_⟩
        simp only [List.mem_cons, not_or]
        exact ⟨Ne.symm hd, hsplit.2⟩

theorem rsplitOnce_eq_none (c : α) (t : List α) : rsplitOnce c t = none ↔ c ∉ t := by
  rw [rsplitOnce, Option.map_eq_none_iff, splitOnce_eq_none, List.mem_reverse]

theorem rsplitOnce_eq_some (c : α) (t a b : List α) (h : rsplitOnce c t = some (a, b)) :
    t = a ++ c :: b ∧ c ∉ b := by
  unfold rsplitOnce at h
  cases hsplit : splitOnce c t.reverse with
  | none =>
    rw [hsplit] at h
    cases h
  | some halves =>
    rw [hsplit] at h
    cases h
    obtain ⟨hwhole, hafter⟩ := splitOnce_eq_some c t.reverse halves.1 halves.2 hsplit
    have hreverse := congrArg List.reverse hwhole
    simp only [List.reverse_reverse, List.reverse_append, List.reverse_cons, List.append_assoc,
      List.singleton_append] at hreverse
    exact ⟨hreverse, by simpa using hafter⟩

theorem splitOnceAt_eq_some (sep t a b : List α) (h : splitOnceAt sep t = some (a, b)) : t = a ++ sep ++ b := by
  induction t generalizing a with
  | nil =>
    rw [splitOnceAt] at h
    split at h
    · rename_i hsep
      cases h
      simp [hsep]
    · cases h
  | cons d t ih =>
    rw [splitOnceAt] at h
    split at h
    · rename_i hprefix
      cases h
      rw [List.nil_append]
      exact (List.prefix_iff_eq_append.1 hprefix).symm
    · cases hrest : splitOnceAt sep t with
      | none =>
        rw [hrest] at h
        cases h
      | some halves =>
        rw [hrest] at h
        cases h
        rw [ih halves.1 hrest]
        rfl

theorem splitOnceAt_append (c : α) (sep s t : List α) (h : c ∉ s) :
    splitOnceAt (c :: sep) (s ++ c :: sep ++ t) = some (s, t) := by
  induction s with
  | nil =>
    rw [List.nil_append, List.cons_append, splitOnceAt, if_pos (by simp)]
    simp
  | cons d s ih =>
    simp only [List.mem_cons, not_or] at h
    have hno : ¬ c :: sep <+: d :: (s ++ c :: sep ++ t) := by
      intro hprefix
      exact h.1 (List.cons_prefix_cons.1 hprefix).1
    rw [List.cons_append, List.cons_append, splitOnceAt, if_neg hno, ih h.2]
    rfl

theorem not_mem_of_mem_splitOn (c : α) (t p : List α) (h : p ∈ t.splitOn c) : c ∉ p := by
  induction t generalizing p with
  | nil =>
    rw [List.splitOn_nil, List.mem_singleton] at h
    simp [h]
  | cons d t ih =>
    rw [List.splitOn_cons_eq_if_modifyHead] at h
    by_cases hd : d = c
    · rw [if_pos (beq_iff_eq.2 hd), List.mem_cons] at h
      rcases h with rfl | h
      · simp
      · exact ih p h
    · rw [if_neg (mt beq_iff_eq.1 hd)] at h
      cases hsplit : t.splitOn c with
      | nil =>
        rw [hsplit] at h
        cases h
      | cons q qs =>
        rw [hsplit, List.modifyHead_cons, List.mem_cons] at h
        rcases h with rfl | h
        · have hq := ih q (by simp [hsplit])
          simp [Ne.symm hd, hq]
        · exact ih p (by simp [hsplit, h])

theorem splitOn_map {β : Type*} [DecidableEq β] (f : β → α) (b : β) (t : List β)
    (hf : ∀ d ∈ t, f d = f b → d = b) : (t.map f).splitOn (f b) = (t.splitOn b).map (List.map f) := by
  induction t with
  | nil => simp
  | cons d t ih =>
    have hrest := ih fun d hd => hf d (List.mem_cons_of_mem _ hd)
    rw [List.map_cons, List.splitOn_cons_eq_if_modifyHead, List.splitOn_cons_eq_if_modifyHead, hrest]
    by_cases hd : d = b
    · rw [if_pos (by simp [hd]), if_pos (by simp [hd])]
      rfl
    · have hne : f d ≠ f b := fun heq => hd (hf d List.mem_cons_self heq)
      rw [if_neg (by simpa using hne), if_neg (by simpa using hd)]
      cases t.splitOn b <;> rfl

end Rustango.Halves
