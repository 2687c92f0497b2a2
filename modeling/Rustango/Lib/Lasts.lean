import Mathlib.Data.List.Pairwise

/-!
# The last of each class

Of a list, the elements that nothing later is related to. Where two relations are to leave the same
elements, no two of which the second one relates, they relate the same pairs of the list.
-/

namespace Rustango.Lasts

variable {α : Type*}

/-- The elements that no later one is related to. -/
def lasts (r : α → α → Bool) : List α → List α
  | [] => []
  | x :: xs => if xs.any (r x) then lasts r xs else x :: lasts r xs

/-- A relation of elements that have a key, by their keys. -/
structure Keyed (r : α → α → Bool) : Prop where
  symm : ∀ x y, r x y = true → r y x = true
  trans : ∀ x y z, r x y = true → r y z = true → r x z = true

section Equations
-- Its equations are derived here, once for all the proofs that unfold it.
attribute [local simp] lasts
end Equations

section
variable {r s : α → α → Bool} {x y : α} {l : List α}

theorem lasts_sublist (r : α → α → Bool) (l : List α) : (lasts r l).Sublist l := by
  induction l with
  | nil => exact .slnil
  | cons x xs ih =>
    unfold lasts
    split
    · exact ih.cons x
    · exact ih.cons_cons x

theorem lasts_apart (r : α → α → Bool) (l : List α) : (lasts r l).Pairwise fun x y => r x y = false := by
  induction l with
  | nil => exact .nil
  | cons x xs ih =>
    unfold lasts
    split
    · exact ih
    · rename_i hany
      refine List.pairwise_cons.mpr ⟨?_, ih⟩
      intro y hy
      have hy' : y ∈ xs := (lasts_sublist r xs).subset hy
      simp only [List.any_eq_true, not_exists, not_and, Bool.not_eq_true] at hany
      exact hany y hy'

/-- Every element is one of the last or is related to one. -/
theorem exists_last (hr : Keyed r) (hx : x ∈ l) : ∃ u ∈ lasts r l, u = x ∨ r x u = true := by
  induction l generalizing x with
  | nil => cases hx
  | cons y ys ih =>
    have hrest : ∀ z ∈ ys, ∃ u ∈ lasts r (y :: ys), u = z ∨ r z u = true := by
      intro z hz
      obtain ⟨u, hu, hzu⟩ := ih hz
      refine ⟨u, ?_, hzu⟩
      unfold lasts
      split
      · exact hu
      · exact List.mem_cons_of_mem y hu
    rcases List.mem_cons.mp hx with rfl | hmem
    · by_cases hany : ys.any (r x) = true
      · obtain ⟨z, hz, hxz⟩ := List.any_eq_true.mp hany
        obtain ⟨u, hu, hzu⟩ := hrest z hz
        refine ⟨u, hu, .inr ?_⟩
        rcases hzu with rfl | hzu
        · exact hxz
        · exact hr.trans x z u hxz hzu
      · refine ⟨x, ?_, .inl rfl⟩
        rw [lasts, if_neg hany]
        exact List.mem_cons_self
    · exact hrest x hmem

theorem any_congr_of (h : ∀ y ∈ l, r x y = s x y) : l.any (r x) = l.any (s x) := by
  induction l with
  | nil => rfl
  | cons y ys ih =>
    rw [List.any_cons, List.any_cons, h y List.mem_cons_self,
      ih fun z hz => h z (List.mem_cons_of_mem y hz)]

theorem lasts_congr (h : l.Pairwise fun x y => r x y = s x y) : lasts r l = lasts s l := by
  induction l with
  | nil => rfl
  | cons x xs ih =>
    rw [List.pairwise_cons] at h
    rw [lasts, lasts, any_congr_of h.1, ih h.2]

theorem any_of_apart (hr : Keyed r) (hrs : ∀ x y, r x y = true → ∀ z, s z x = s z y)
    (hany : l.any (s x) = true) : ∃ u ∈ lasts r l, s x u = true := by
  obtain ⟨z, hz, hxz⟩ := List.any_eq_true.mp hany
  obtain ⟨u, hu, hzu⟩ := exists_last hr hz
  refine ⟨u, hu, ?_⟩
  rcases hzu with rfl | hzu
  · exact hxz
  · rw [← hrs z u hzu x]
    exact hxz

theorem lasts_sublist_lasts (hr : Keyed r) (hrs : ∀ x y, r x y = true → ∀ z, s z x = s z y)
    (h : (lasts r l).Pairwise fun x y => s x y = false) : (lasts r l).Sublist (lasts s l) := by
  induction l with
  | nil => exact .slnil
  | cons x xs ih =>
    by_cases hany : xs.any (r x) = true
    · have hs : lasts s (x :: xs) = if xs.any (s x) then lasts s xs else x :: lasts s xs := rfl
      rw [lasts, if_pos hany] at h
      rw [lasts, if_pos hany, hs]
      split
      · exact ih h
      · exact (ih h).cons x
    · rw [lasts, if_neg hany] at h ⊢
      rw [List.pairwise_cons] at h
      have hnone : ¬ xs.any (s x) = true := by
        intro hs
        obtain ⟨u, hu, hxu⟩ := any_of_apart hr hrs hs
        rw [h.1 u hu] at hxu
        cases hxu
      rw [lasts, if_neg hnone]
      exact (ih h.2).cons_cons x

theorem pairwise_mem (hr : Keyed r) (hs : Keyed s) (h : l.Pairwise fun x y => r x y = s x y)
    (hx : x ∈ l) (hy : y ∈ l) (hne : x ≠ y) : r x y = s x y := by
  have hsymm : Std.Symm fun x y : α => r x y = s x y := by
    constructor
    intro x y hxy
    have hr' : r x y = r y x := Bool.eq_iff_iff.mpr ⟨hr.symm x y, hr.symm y x⟩
    have hs' : s x y = s y x := Bool.eq_iff_iff.mpr ⟨hs.symm x y, hs.symm y x⟩
    rw [← hr', ← hs', hxy]
  exact h.forall hx hy hne

/-- `r` leaves what `s` leaves, apart for `s`, exactly if the two relate the same pairs. -/
theorem lasts_eq_iff (hr : Keyed r) (hs : Keyed s)
    (hrs : ∀ x y, r x y = true → ∀ z, s z x = s z y) :
    (lasts r l = lasts s l ∧ (lasts r l).Pairwise fun x y => s x y = false) ↔
      l.Pairwise fun x y => r x y = s x y := by
  constructor
  · induction l with
    | nil => exact fun _ => .nil
    | cons x xs ih =>
      intro ⟨heq, hapart⟩
      have hsub := lasts_sublist_lasts hr hrs hapart
      by_cases hany : xs.any (r x) = true
      · have hrest : (lasts r xs).Pairwise fun x y => s x y = false := by
          rwa [lasts, if_pos hany] at hapart
        by_cases hany' : xs.any (s x) = true
        · rw [lasts, if_pos hany, lasts, if_pos hany'] at heq
          have htail := ih ⟨heq, hrest⟩
          refine List.pairwise_cons.mpr ⟨?_, htail⟩
          obtain ⟨y, hy, hxy⟩ := List.any_eq_true.mp hany
          obtain ⟨z, hz, hxz⟩ := List.any_eq_true.mp hany'
          have hself : s y y = true := by
            have hzx := hs.symm x z hxz
            rw [hrs x y hxy z] at hzx
            exact hs.trans y z y (hs.symm z y hzx) hzx
          intro w hw
          have hleft : r x w = r y w := by
            apply Bool.eq_iff_iff.mpr
            exact ⟨hr.trans y x w (hr.symm x y hxy), hr.trans x y w hxy⟩
          have hright : s x w = s y w := by
            have hsame := hrs x y hxy w
            apply Bool.eq_iff_iff.mpr
            constructor
            · intro h
              exact hs.symm w y (hsame ▸ hs.symm x w h)
            · intro h
              exact hs.symm w x (hsame.symm ▸ hs.symm y w h)
          rw [hleft, hright]
          by_cases hyw : y = w
          · rw [← hyw, hself]
            exact hr.trans y x y (hr.symm x y hxy) hxy
          · exact pairwise_mem hr hs htail hy hw hyw
        · rw [lasts, if_pos hany, lasts, if_neg hany'] at heq
          have hlen := (lasts_sublist_lasts hr hrs hrest).length_le
          rw [heq, List.length_cons] at hlen
          omega
      · rw [lasts, if_neg hany] at hapart
        rw [List.pairwise_cons] at hapart
        have hany' : ¬ xs.any (s x) = true := by
          intro hs'
          obtain ⟨u, hu, hxu⟩ := any_of_apart hr hrs hs'
          rw [hapart.1 u hu] at hxu
          cases hxu
        rw [lasts, if_neg hany, lasts, if_neg hany', List.cons.injEq] at heq
        refine List.pairwise_cons.mpr ⟨?_, ih ⟨heq.2, hapart.2⟩⟩
        intro y hy
        simp only [List.any_eq_true, not_exists, not_and, Bool.not_eq_true] at hany hany'
        rw [hany y hy, hany' y hy]
  · intro h
    have heq := lasts_congr h
    exact ⟨heq, heq ▸ lasts_apart s l⟩

end

end Rustango.Lasts
