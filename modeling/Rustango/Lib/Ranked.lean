import Mathlib

/-!
# Lists in the order of a comparison

A list sorted by a three-way comparison that tells its elements apart has one arrangement in that order, and what
follows an element in it is what is greater.
-/

namespace Rustango.Ranked

open Std

variable {α : Type*}

/-- The elements of a list, the least first. -/
def ranked (cmp : α → α → Ordering) (l : List α) : List α := l.insertionSort fun a b => (cmp a b).isLE = true

/-- No two elements at different places compare equal. -/
def Distinct (cmp : α → α → Ordering) (l : List α) : Prop := l.Pairwise fun a b => cmp a b ≠ .eq

variable {cmp : α → α → Ordering} {l s : List α}

theorem ranked_perm (l : List α) : (ranked cmp l).Perm l := List.perm_insertionSort _ l

@[simp] theorem mem_ranked {a : α} : a ∈ ranked cmp l ↔ a ∈ l := (ranked_perm l).mem_iff

@[simp] theorem length_ranked : (ranked cmp l).length = l.length := (ranked_perm l).length_eq

theorem Distinct.sublist (h : Distinct cmp l) (hsub : s.Sublist l) : Distinct cmp s := List.Pairwise.sublist hsub h

section Transitive
variable [TransCmp cmp]

theorem pairwise_ranked (l : List α) : (ranked cmp l).Pairwise fun a b => (cmp a b).isLE = true := by
  have htotal : Std.Total fun a b => (cmp a b).isLE = true := by
    constructor
    intro a b
    have hswap : cmp b a = (cmp a b).swap := OrientedCmp.eq_swap
    rw [hswap]
    cases cmp a b <;> simp
  have htrans : IsTrans α fun a b => (cmp a b).isLE = true := ⟨fun a b c => TransCmp.isLE_trans⟩
  exact List.pairwise_insertionSort _ l

theorem Distinct.perm (h : Distinct cmp l) (hperm : l.Perm s) : Distinct cmp s := by
  apply (hperm.pairwise_iff ?_).1 h
  intro a b hab heq
  exact hab (OrientedCmp.eq_comm.1 heq)

theorem Distinct.eq_of_mem (h : Distinct cmp l) {a b : α} (ha : a ∈ l) (hb : b ∈ l) (heq : cmp a b = .eq) : a = b := by
  have hsymm : Std.Symm fun a b => cmp a b ≠ .eq := ⟨fun a b hab hba => hab (OrientedCmp.eq_comm.1 hba)⟩
  by_contra hne
  exact List.Pairwise.forall h ha hb hne heq

theorem Distinct.nodup (h : Distinct cmp l) : l.Nodup := by
  apply h.imp
  intro a b hab heq
  rw [heq] at hab
  exact hab ReflCmp.compare_self

theorem eq_ranked (h : Distinct cmp l) (hperm : s.Perm l) (hsorted : s.Pairwise fun a b => (cmp a b).isLE = true) :
    s = ranked cmp l := by
  apply @List.Perm.eq_of_pairwise _ (fun a b => (cmp a b).isLE = true) _ _ _ hsorted (pairwise_ranked l)
    (hperm.trans (ranked_perm l).symm)
  intro a b ha hb hab hba
  apply h.eq_of_mem (hperm.subset ha) (mem_ranked.1 hb)
  have hswap : cmp b a = (cmp a b).swap := OrientedCmp.eq_swap
  rw [hswap] at hba
  cases hcmp : cmp a b <;> simp [hcmp] at hab hba ⊢

theorem pairwise_lt_ranked (h : Distinct cmp l) : (ranked cmp l).Pairwise fun a b => cmp a b = .lt := by
  have hdistinct : Distinct cmp (ranked cmp l) := h.perm (ranked_perm l).symm
  apply (pairwise_ranked l).imp₂ ?_ hdistinct
  intro a b hle hne
  cases hcmp : cmp a b <;> simp [hcmp] at hle hne ⊢

theorem filter_ranked (h : Distinct cmp l) (p : α → Bool) : (ranked cmp l).filter p = ranked cmp (l.filter p) :=
  eq_ranked (h.sublist List.filter_sublist) ((ranked_perm l).filter p) ((pairwise_ranked l).filter p)

/-- What is greater than an element of a sorted list is what follows it. -/
theorem filter_greater {front rest : List α} {a : α} (h : (front ++ a :: rest).Pairwise fun a b => cmp a b = .lt) :
    (front ++ a :: rest).filter (fun b => cmp a b = .lt) = rest := by
  rw [List.pairwise_append, List.pairwise_cons] at h
  have hfront : front.filter (fun b => cmp a b = .lt) = [] := by
    rw [List.filter_eq_nil_iff]
    intro b hb
    have hlt := h.2.2 b hb a List.mem_cons_self
    have hswap : cmp a b = (cmp b a).swap := OrientedCmp.eq_swap
    rw [hswap, hlt]
    decide
  have hrest : rest.filter (fun b => cmp a b = .lt) = rest := by
    rw [List.filter_eq_self]
    intro b hb
    simpa using h.2.1.1 b hb
  have hself : cmp a a = .eq := ReflCmp.compare_self
  simp [List.filter_append, hfront, hrest, hself]

end Transitive

end Rustango.Ranked
