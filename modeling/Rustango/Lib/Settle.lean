import Mathlib.Data.List.Basic

/-!
# What is left free

Some elements wait, and a waiting one holds back every ready element that depends on it, which then
waits too. Round by round this ends in the largest part of the ready elements that depends on
nothing outside it.
-/

namespace Rustango.Settle

variable {α : Type*} (needs : α → α → Bool)

/-- The ready elements that need a waiting one. -/
def stuck (waiting ready : List α) : List α := ready.filter fun c => waiting.any (needs c)

def free (waiting ready : List α) : List α := ready.filter fun c => !waiting.any (needs c)

theorem free_length {waiting ready : List α} (h : ¬ (stuck needs waiting ready).isEmpty) :
    (free needs waiting ready).length < ready.length := by
  apply List.length_filter_lt_length_iff_exists.mpr
  obtain ⟨c, hc⟩ := List.exists_mem_of_ne_nil _ (mt List.isEmpty_iff.mpr h)
  have hc := List.mem_filter.mp hc
  exact ⟨c, hc.1, by simp [hc.2]⟩

/-- The waiting elements and the free ones, once no ready element needs a waiting one. -/
def settle (waiting ready : List α) : List α × List α :=
  if (stuck needs waiting ready).isEmpty then (waiting, ready)
  else settle (waiting ++ stuck needs waiting ready) (free needs waiting ready)
termination_by ready.length
decreasing_by
  rename_i h
  exact free_length needs h

theorem settle_perm (waiting ready : List α) :
    ((settle needs waiting ready).1 ++ (settle needs waiting ready).2).Perm (waiting ++ ready) := by
  fun_induction settle needs waiting ready with
  | case1 waiting ready hstuck => exact List.Perm.refl _
  | case2 waiting ready hstuck ih =>
    apply ih.trans
    rw [List.append_assoc]
    exact (List.filter_append_perm _ ready).append_left waiting

theorem settle_subset (waiting ready : List α) :
    (settle needs waiting ready).2 ⊆ ready := by
  fun_induction settle needs waiting ready with
  | case1 waiting ready hstuck => exact List.Subset.refl _
  | case2 waiting ready hstuck ih => exact List.Subset.trans ih (List.filter_subset_self ready)

theorem settle_free (waiting ready : List α) : ∀ c ∈ (settle needs waiting ready).2,
    ∀ d ∈ (settle needs waiting ready).1, needs c d = false := by
  fun_induction settle needs waiting ready with
  | case1 waiting ready hstuck =>
    intro c hc d hd
    by_contra hneeds
    have hmem : c ∈ stuck needs waiting ready :=
      List.mem_filter.mpr ⟨hc, List.any_eq_true.mpr ⟨d, hd, Bool.of_not_eq_false hneeds⟩⟩
    rw [List.isEmpty_iff.mp hstuck] at hmem
    exact List.not_mem_nil hmem
  | case2 waiting ready hstuck ih => exact ih

/-- Any part that needs nothing outside it, and that holds nothing that waits, stays free. -/
theorem settle_greatest {early rest : List α} (hfree : ∀ c ∈ early, ∀ d ∈ rest, needs c d = false)
    (waiting ready : List α) (hcover : ∀ d ∈ waiting ++ ready, d ∈ early ∨ d ∈ rest)
    (hwaiting : ∀ d ∈ waiting, d ∉ early) :
    ∀ c ∈ ready, c ∈ early → c ∈ (settle needs waiting ready).2 := by
  fun_induction settle needs waiting ready with
  | case1 waiting ready hstuck =>
    intro c hc _
    exact hc
  | case2 waiting ready hstuck ih =>
    have hrest : ∀ d ∈ waiting, d ∈ rest := by
      intro d hd
      exact (hcover d (List.mem_append_left _ hd)).resolve_left (hwaiting d hd)
    -- What a waiting element holds back is not early, so no round takes an early element.
    have hkept : ∀ c ∈ early, ¬ waiting.any (needs c) := by
      intro c hc hany
      obtain ⟨d, hd, hneeds⟩ := List.any_eq_true.mp hany
      rw [hfree c hc d (hrest d hd)] at hneeds
      exact Bool.false_ne_true hneeds
    have hsplit : ∀ d, d ∈ stuck needs waiting ready ∨ d ∈ free needs waiting ready → d ∈ ready := by
      rintro d (hd | hd)
      · exact (List.mem_filter.mp hd).1
      · exact (List.mem_filter.mp hd).1
    intro c hc hearly
    apply ih
    · intro d hd
      simp only [List.mem_append, or_assoc] at hd
      rcases hd with hd | hd
      · exact hcover d (List.mem_append_left _ hd)
      · exact hcover d (List.mem_append_right _ (hsplit d hd))
    · intro d hd
      rcases List.mem_append.mp hd with hd | hd
      · exact hwaiting d hd
      · exact fun hearly => hkept d hearly (List.mem_filter.mp hd).2
    · exact List.mem_filter.mpr ⟨hc, by simpa using hkept c hearly⟩
    · exact hearly

end Rustango.Settle
