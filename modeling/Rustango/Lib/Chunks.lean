import Rustango.Lib.Firsts

/-!
# Chunks

A list cut into pieces of one size, the last one shorter. The pieces make up the list, and elements
that no relation joins with each other are spread over them: a class is found in one piece.
-/

namespace Rustango.Chunks

open Rustango.Firsts

variable {α : Type}

/-- `slice::chunks`. -/
def sliceChunks (size : Nat) (rows : List α) : List (List α) :=
  match rows with
  | [] => []
  | x :: xs => if size = 0 then [] else ((x :: xs).take size) :: sliceChunks size ((x :: xs).drop size)
termination_by rows.length
decreasing_by simp; omega

section Equations
-- Its equations are derived here, once for all the proofs that unfold it.
attribute [local simp] sliceChunks
end Equations

variable {size : Nat} {rows chunk : List α}

theorem flatten_sliceChunks (hsize : 0 < size) (rows : List α) :
    (sliceChunks size rows).flatten = rows := by
  induction rows using sliceChunks.induct size with
  | case1 => rw [sliceChunks]; rfl
  | case2 x xs hzero => omega
  | case3 x xs _ ih =>
    rw [sliceChunks, if_neg (Nat.ne_of_gt hsize), List.flatten_cons, ih, List.take_append_drop]

theorem sublist_of_mem_sliceChunks (h : chunk ∈ sliceChunks size rows) : chunk.Sublist rows := by
  induction rows using sliceChunks.induct size with
  | case1 => simp [sliceChunks] at h
  | case2 x xs hzero => simp [sliceChunks, hzero] at h
  | case3 x xs hsize ih =>
    rw [sliceChunks, if_neg hsize] at h
    rcases List.mem_cons.mp h with rfl | hrest
    · exact List.take_sublist _ _
    · exact (ih hrest).trans (List.drop_sublist _ _)

theorem length_of_mem_sliceChunks (h : chunk ∈ sliceChunks size rows) : chunk.length ≤ size := by
  induction rows using sliceChunks.induct size with
  | case1 => simp [sliceChunks] at h
  | case2 x xs hzero => simp [sliceChunks, hzero] at h
  | case3 x xs hsize ih =>
    rw [sliceChunks, if_neg hsize] at h
    rcases List.mem_cons.mp h with rfl | hrest
    · simp
    · exact ih hrest

/-- Of pieces that make up elements apart, one holds the class of an element. -/
theorem countP_any_flatten {r : α → α → Bool} (hsymm : ∀ x y, r x y = true → r y x = true)
    (htrans : ∀ x y z, r x y = true → r y z = true → r x z = true) {pieces : List (List α)}
    (hapart : Apart r pieces.flatten) {k : α} (hk : ∃ x ∈ pieces.flatten, r x k = true) :
    (pieces.countP fun piece => piece.any fun x => r x k) = 1 := by
  induction pieces with
  | nil => simp at hk
  | cons piece pieces ih =>
    rw [List.flatten_cons, Apart, List.pairwise_append] at hapart
    rw [List.countP_cons]
    by_cases hpiece : (piece.any fun x => r x k) = true
    · obtain ⟨x, hx, hxk⟩ := List.any_eq_true.mp hpiece
      have hrest : (pieces.countP fun piece => piece.any fun x => r x k) = 0 := by
        rw [List.countP_eq_zero]
        intro piece' hpiece' hany
        obtain ⟨y, hy, hyk⟩ := List.any_eq_true.mp hany
        have hxy := hapart.2.2 x hx y (List.mem_flatten.mpr ⟨piece', hpiece', hy⟩)
        rw [htrans x k y hxk (hsymm y k hyk)] at hxy
        cases hxy
      rw [hrest, if_pos hpiece]
    · rw [if_neg hpiece]
      apply ih hapart.2.1
      obtain ⟨x, hx, hxk⟩ := hk
      rcases List.mem_append.mp hx with hx | hx
      · exact absurd (List.any_eq_true.mpr ⟨x, hx, hxk⟩) hpiece
      · exact ⟨x, hx, hxk⟩

end Rustango.Chunks
