import Mathlib.Data.List.Induction
import Mathlib.Data.List.Nodup
import Mathlib.Logic.Function.Basic

/-!
# Assignments in turn and at once

A list of assignments to the places of a store, each computed from a store. Run in turn, each reads
what the ones before it wrote; run at once, all read the old store. The two agree exactly when no
assignment notices the new values of the places before it.
-/

namespace Rustango.Assignments

open Function

variable {κ β : Type} [DecidableEq κ]

abbrev Assigned (κ β : Type) := κ × ((κ → β) → β)

/-- Each assignment reads the store that the ones before it leave. -/
def inTurn (assigned : List (Assigned κ β)) (r : κ → β) : κ → β :=
  assigned.foldl (fun now a => update now a.1 (a.2 now)) r

/-- Each assignment reads the old store. -/
def atOnce (assigned : List (Assigned κ β)) (r : κ → β) : κ → β :=
  assigned.foldl (fun now a => update now a.1 (a.2 r)) r

variable {assigned : List (Assigned κ β)} {r : κ → β}

@[simp] theorem inTurn_snoc (a : Assigned κ β) :
    inTurn (assigned ++ [a]) r = update (inTurn assigned r) a.1 (a.2 (inTurn assigned r)) := by
  simp [inTurn]

@[simp] theorem atOnce_snoc (a : Assigned κ β) :
    atOnce (assigned ++ [a]) r = update (atOnce assigned r) a.1 (a.2 r) := by
  simp [atOnce]

theorem inTurn_of_not_mem {k : κ} (h : k ∉ assigned.map Prod.fst) : inTurn assigned r k = r k := by
  induction assigned using List.reverseRecOn with
  | nil => rfl
  | append_singleton as a ih =>
    simp only [List.map_append, List.map_cons, List.map_nil, List.mem_append, List.mem_singleton,
      not_or] at h
    rw [inTurn_snoc, update_of_ne h.2, ih h.1]

theorem atOnce_of_not_mem {k : κ} (h : k ∉ assigned.map Prod.fst) : atOnce assigned r k = r k := by
  induction assigned using List.reverseRecOn with
  | nil => rfl
  | append_singleton as a ih =>
    simp only [List.map_append, List.map_cons, List.map_nil, List.mem_append, List.mem_singleton,
      not_or] at h
    rw [atOnce_snoc, update_of_ne h.2, ih h.1]

/-- No assignment notices the new values of the places assigned before it. -/
def Unnoticed (assigned : List (Assigned κ β)) (r : κ → β) : Prop :=
  ∀ before a after, assigned = before ++ a :: after → a.2 (atOnce before r) = a.2 r

theorem unnoticed_snoc {a : Assigned κ β} :
    Unnoticed (assigned ++ [a]) r ↔ Unnoticed assigned r ∧ a.2 (atOnce assigned r) = a.2 r := by
  constructor
  · intro h
    constructor
    · intro before b after hsplit
      exact h before b (after ++ [a]) (by rw [hsplit]; simp)
    · exact h assigned a [] rfl
  · intro h before b after hsplit
    rcases List.eq_nil_or_concat after with rfl | ⟨rest, c, rfl⟩
    · have hlast := List.append_inj' hsplit rfl
      rw [← hlast.1, ← List.singleton_inj.mp hlast.2]
      exact h.2
    · have hlast : assigned ++ [a] = (before ++ b :: rest) ++ [c] := by
        rw [hsplit]
        simp
      exact h.1 before b rest (List.append_inj' hlast rfl).1

/-- For distinct places. -/
theorem inTurn_eq_atOnce_iff (h : (assigned.map Prod.fst).Nodup) :
    inTurn assigned r = atOnce assigned r ↔ Unnoticed assigned r := by
  induction assigned using List.reverseRecOn with
  | nil => simp [inTurn, atOnce, Unnoticed]
  | append_singleton as a ih =>
    rw [List.map_append, List.nodup_append] at h
    have hfresh : a.1 ∉ as.map Prod.fst := fun hmem => h.2.2 _ hmem _ (by simp) rfl
    rw [unnoticed_snoc, ← ih h.1, inTurn_snoc, atOnce_snoc]
    constructor
    · intro heq
      have hplaces : inTurn as r = atOnce as r := by
        funext k
        by_cases hk : k = a.1
        · rw [hk, inTurn_of_not_mem hfresh, atOnce_of_not_mem hfresh]
        · simpa [update_of_ne hk] using congrFun heq k
      have hvalue := congrFun heq a.1
      simp only [update_self] at hvalue
      rw [hplaces] at hvalue
      exact ⟨hplaces, hvalue⟩
    · intro ⟨hplaces, hvalue⟩
      rw [hplaces, hvalue]

end Rustango.Assignments
