import Mathlib

/-!
# A list handed out page by page

A walk asks for one page after another with the token of the last one. What is left is cut at the end of each page,
so the pages together are what the walk began with.
-/

namespace Rustango.Walk

variable {α β τ : Type*}

/-- The pages from a token on, put together; `none` when a page fails or the walk is longer than `fuel` pages. -/
def follow (step : Option τ → Option (List β × Option τ)) : Nat → Option τ → Option (List β)
  | 0, _ => none
  | fuel + 1, token => (step token).bind fun page =>
      match page.2 with
      | none => some page.1
      | some next => (follow step fuel (some next)).map fun rest => page.1 ++ rest

/-- What one page does to what is left: it shows a front part and names the rest, or shows all there is to show. -/
structure Serves (emit : List α → List β) (stands : Option τ → List α → Prop)
    (page : List β × Option τ) (left : List α) : Prop where
  last : page.2 = none → page.1 = emit left
  next : ∀ token, page.2 = some token → ∃ front back, left = front ++ back ∧ front ≠ [] ∧ page.1 = emit front ∧
    stands (some token) back

/-- A walk whose pages serve what is left shows all of it. -/
theorem follow_eq {step : Option τ → Option (List β × Option τ)} {emit : List α → List β}
    {stands : Option τ → List α → Prop} (hemit : ∀ a b, emit (a ++ b) = emit a ++ emit b)
    (hstep : ∀ token left, stands token left → ∃ page, step token = some page ∧ Serves emit stands page left)
    {fuel : Nat} {token : Option τ} {left : List α} (hstands : stands token left) (hfuel : left.length < fuel) :
    follow step fuel token = some (emit left) := by
  induction fuel generalizing token left with
  | zero => omega
  | succ fuel ih =>
    obtain ⟨page, hpage, hserves⟩ := hstep token left hstands
    rw [follow, hpage, Option.bind_some]
    cases hnext : page.2 with
    | none => simp [hserves.last hnext]
    | some next =>
      obtain ⟨front, back, hleft, hfront, hshown, hback⟩ := hserves.next next hnext
      have hlength : 0 < front.length := List.length_pos_of_ne_nil hfront
      rw [hleft, List.length_append] at hfuel
      simp only
      rw [ih hback (by omega), Option.map_some, hshown, hleft, hemit]

/-- The first `n` elements of a kind end at one of them; what is behind it holds the others. -/
theorem exists_cut {p : α → Bool} {l : List α} {n : Nat} (hn : 0 < n) (h : l.filter p ≠ []) :
    ∃ front e back, l = front ++ e :: back ∧ p e = true ∧ (front ++ [e]).filter p = (l.filter p).take n ∧
      (n < (l.filter p).length → back.filter p ≠ []) := by
  induction l generalizing n with
  | nil => exact absurd rfl h
  | cons a l ih =>
    cases ha : p a with
    | false =>
      rw [List.filter_cons_of_neg (by simp [ha])] at h ⊢
      obtain ⟨front, e, back, hl, he, hfilter, hmore⟩ := ih hn h
      exact ⟨a :: front, e, back, by rw [hl, List.cons_append], he, by simpa [ha] using hfilter, hmore⟩
    | true =>
      rw [List.filter_cons_of_pos ha]
      by_cases hend : n = 1 ∨ l.filter p = []
      · refine ⟨[], a, l, rfl, ha, ?_, ?_⟩
        · rcases hend with hone | hnone
          · simp [ha, hone]
          · obtain ⟨k, hk⟩ : ∃ k, n = k + 1 := ⟨n - 1, by omega⟩
            simp [ha, hnone, hk]
        · intro hlt hnil
          rw [hnil] at hlt
          simp only [List.length_singleton] at hlt
          omega
      · push Not at hend
        obtain ⟨k, hk⟩ : ∃ k, n = k + 1 := ⟨n - 1, by omega⟩
        obtain ⟨front, e, back, hl, he, hfilter, hmore⟩ := ih (n := k) (by omega) hend.2
        refine ⟨a :: front, e, back, by rw [hl, List.cons_append], he, ?_, ?_⟩
        · rw [List.cons_append, List.filter_cons_of_pos ha, hfilter, hk, List.take_succ_cons]
        · intro hlt
          rw [List.length_cons] at hlt
          exact hmore (by omega)

end Rustango.Walk
