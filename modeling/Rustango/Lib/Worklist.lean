import Mathlib

/-!
# Worklists

A depth-first walk over a graph given by its successor lists, with a stack of names still to visit
and the set of names seen. With fuel for every edge it ends, and what it has seen is exactly what
the start reaches.
-/

namespace Rustango.Worklist

variable {α : Type*} (succ : α → List α)

/-- `y` is reached from `x` along successors. -/
def Reaches : α → α → Prop := Relation.ReflTransGen fun a b => b ∈ succ a

theorem Reaches.head_iff {x y : α} :
    Reaches succ x y ↔ y = x ∨ ∃ z ∈ succ x, Reaches succ z y := by
  unfold Reaches
  rw [Relation.ReflTransGen.cases_head_iff]
  exact or_congr eq_comm Iff.rfl

variable [DecidableEq α]

/-- Pops a name, and pushes its successors unless it was seen before. -/
def visit : Nat → List α → List α → List α
  | 0, _, seen => seen
  | _ + 1, [], seen => seen
  | fuel + 1, x :: todo, seen =>
    if x ∈ seen then visit fuel todo seen
    else visit fuel ((succ x).reverse ++ todo) (x :: seen)

/-- The edges out of the names of `dom` not seen yet. -/
def unseenEdges (dom seen : List α) : Nat :=
  ((dom.filter (· ∉ seen)).map fun x => (succ x).length).sum

/-- Every name that `x` reaches; `dom` holds every name with a successor. -/
def reach (dom : List α) (x : α) : List α :=
  visit succ (1 + unseenEdges succ dom []) [x] []

private theorem sum_filter_ne (f : α → Nat) (x : α) (l : List α) :
    ((l.filter (· ≠ x)).map f).sum + (if x ∈ l then f x else 0) ≤ (l.map f).sum := by
  induction l with
  | nil => simp
  | cons a l ih =>
    by_cases ha : a = x
    · subst ha
      rw [List.filter_cons_of_neg (by simp), if_pos List.mem_cons_self, List.map_cons, List.sum_cons]
      have hrest : ((l.filter (· ≠ a)).map f).sum ≤ (l.map f).sum := Nat.le_trans (Nat.le_add_right _ _) ih
      omega
    · rw [List.filter_cons_of_pos (by simpa using ha), List.map_cons, List.map_cons, List.sum_cons,
        List.sum_cons]
      have hmem : (x ∈ a :: l) = (x ∈ l) := by simp [Ne.symm ha]
      rw [if_congr (iff_of_eq hmem) rfl rfl]
      omega

theorem unseenEdges_cons {dom seen : List α} {x : α} (hdom : succ x ≠ [] → x ∈ dom)
    (hx : x ∉ seen) :
    unseenEdges succ dom (x :: seen) + (succ x).length ≤ unseenEdges succ dom seen := by
  have hsplit : dom.filter (· ∉ x :: seen) = (dom.filter (· ∉ seen)).filter (· ≠ x) := by
    rw [List.filter_filter]
    apply List.filter_congr
    intro y _
    simp [not_or]
  have hpay : (succ x).length ≤
      if x ∈ dom.filter (· ∉ seen) then (succ x).length else 0 := by
    by_cases hnil : succ x = []
    · simp [hnil]
    · exact Nat.le_of_eq (if_pos (List.mem_filter.mpr ⟨hdom hnil, by simpa using hx⟩)).symm
  unfold unseenEdges
  rw [hsplit]
  exact Nat.le_trans (Nat.add_le_add_left hpay _) (sum_filter_ne _ x _)

/-- The successors of a seen name are seen or still to visit. -/
def Frontier (seen todo : List α) : Prop := ∀ x ∈ seen, ∀ y ∈ succ x, y ∈ seen ∨ y ∈ todo

variable {succ}

omit [DecidableEq α] in
theorem Frontier.crossed {seen todo : List α} (h : Frontier succ seen todo) {x y : α} (hx : x ∈ seen)
    (hr : Reaches succ x y) : y ∈ seen ∨ ∃ t ∈ todo, Reaches succ t y := by
  induction hr using Relation.ReflTransGen.head_induction_on with
  | refl => exact .inl hx
  | @head a b hab hby ih =>
    cases h a hx b hab with
    | inl hb => exact ih hb
    | inr hb => exact .inr ⟨b, hb, hby⟩

/-- The walk ends with the seen names and all that the stack reaches. -/
theorem mem_visit {dom : List α} (hdom : ∀ x, succ x ≠ [] → x ∈ dom) {fuel : Nat}
    {todo seen : List α} (hfront : Frontier succ seen todo)
    (hfuel : todo.length + unseenEdges succ dom seen ≤ fuel) (y : α) :
    y ∈ visit succ fuel todo seen ↔ y ∈ seen ∨ ∃ x ∈ todo, Reaches succ x y := by
  induction fuel generalizing todo seen with
  | zero =>
    have hnil : todo = [] := List.eq_nil_of_length_eq_zero (by omega)
    simp [visit, hnil]
  | succ fuel ih =>
    cases todo with
    | nil => simp [visit]
    | cons x todo =>
      rw [visit]
      simp only [List.length_cons] at hfuel
      by_cases hx : x ∈ seen
      · -- the stack loses a name already seen, so the rest is a frontier too
        have hrest : Frontier succ seen todo := by
          intro a ha b hb
          rcases hfront a ha b hb with h | h
          · exact .inl h
          · rcases List.mem_cons.mp h with rfl | h
            · exact .inl hx
            · exact .inr h
        rw [if_pos hx, ih hrest (by omega)]
        constructor
        · rintro (h | ⟨t, ht, hr⟩)
          · exact .inl h
          · exact .inr ⟨t, List.mem_cons_of_mem _ ht, hr⟩
        · rintro (h | ⟨t, ht, hr⟩)
          · exact .inl h
          · rcases List.mem_cons.mp ht with rfl | ht
            · exact hrest.crossed hx hr
            · exact .inr ⟨t, ht, hr⟩
      · have hnext : Frontier succ (x :: seen) ((succ x).reverse ++ todo) := by
          intro a ha b hb
          rcases List.mem_cons.mp ha with rfl | ha
          · exact .inr (List.mem_append_left _ (List.mem_reverse.mpr hb))
          · rcases hfront a ha b hb with h | h
            · exact .inl (List.mem_cons_of_mem _ h)
            · rcases List.mem_cons.mp h with rfl | h
              · exact .inl List.mem_cons_self
              · exact .inr (List.mem_append_right _ h)
        have hpaid := unseenEdges_cons succ (hdom x) hx
        have hlength : ((succ x).reverse ++ todo).length + unseenEdges succ dom (x :: seen) ≤ fuel := by
          rw [List.length_append, List.length_reverse]
          omega
        rw [if_neg hx, ih hnext hlength]
        constructor
        · rintro (h | ⟨t, ht, hr⟩)
          · rcases List.mem_cons.mp h with rfl | h
            · exact .inr ⟨y, List.mem_cons_self, .refl⟩
            · exact .inl h
          · rcases List.mem_append.mp ht with ht | ht
            · have hstep : Reaches succ x y :=
                (Reaches.head_iff succ).mpr (.inr ⟨t, List.mem_reverse.mp ht, hr⟩)
              exact .inr ⟨x, List.mem_cons_self, hstep⟩
            · exact .inr ⟨t, List.mem_cons_of_mem _ ht, hr⟩
        · rintro (h | ⟨t, ht, hr⟩)
          · exact .inl (List.mem_cons_of_mem _ h)
          · rcases List.mem_cons.mp ht with rfl | ht
            · rcases (Reaches.head_iff succ).mp hr with rfl | ⟨z, hz, hzy⟩
              · exact .inl List.mem_cons_self
              · exact .inr ⟨z, List.mem_append_left _ (List.mem_reverse.mpr hz), hzy⟩
            · exact .inr ⟨t, List.mem_append_right _ ht, hr⟩

theorem mem_reach {dom : List α} (hdom : ∀ x, succ x ≠ [] → x ∈ dom) (x y : α) :
    y ∈ reach succ dom x ↔ Reaches succ x y := by
  unfold reach
  have hempty : Frontier succ [] [x] := fun a ha => absurd ha List.not_mem_nil
  rw [mem_visit hdom hempty (by simp)]
  simp

end Rustango.Worklist
