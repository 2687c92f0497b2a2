import Mathlib

/-!
# Weighed entries

Entries under keys, each key once, and the weight of all of them together. A counter that follows each
change of the entries holds this sum.
-/

namespace Rustango.Tally

variable {κ α : Type*} [DecidableEq κ]

def find (k : κ) (l : List (κ × α)) : Option α := (l.find? fun p => p.1 = k).map (·.2)

def without (k : κ) (l : List (κ × α)) : List (κ × α) := l.filter fun p => p.1 ≠ k

def modify (k : κ) (f : α → α) (l : List (κ × α)) : List (κ × α) :=
  l.map fun p => if p.1 = k then (p.1, f p.2) else p

/-- The weight of all entries. -/
def weigh (w : α → Nat) (l : List (κ × α)) : Nat := (l.map fun p => w p.2).sum

def Keyed (l : List (κ × α)) : Prop := (l.map Prod.fst).Nodup

variable {k k' : κ} {a a' : α} {l l' : List (κ × α)} {w : α → Nat}

@[simp] theorem find_nil : find k ([] : List (κ × α)) = none := rfl

theorem find_cons (p : κ × α) : find k (p :: l) = if p.1 = k then some p.2 else find k l := by
  by_cases h : p.1 = k <;> simp [find, h]

@[simp] theorem find_cons_self : find k ((k, a) :: l) = some a := by simp [find_cons]

theorem find_eq_none : find k l = none ↔ ∀ p ∈ l, p.1 ≠ k := by
  simp [find]

theorem mem_of_find (h : find k l = some a) : (k, a) ∈ l := by
  induction l with
  | nil => simp at h
  | cons p l ih =>
    rw [find_cons] at h
    split at h
    · rename_i hk
      subst hk
      simp [← Option.some.inj h]
    · exact List.mem_cons_of_mem _ (ih h)

theorem find_of_mem (hl : Keyed l) (h : (k, a) ∈ l) : find k l = some a := by
  induction l with
  | nil => simp at h
  | cons p l ih =>
    have hnodup := List.nodup_cons.mp hl
    rw [find_cons]
    rcases List.mem_cons.mp h with rfl | hmem
    · simp
    · have hk : p.1 ≠ k := by
        intro hk
        exact hnodup.1 (hk ▸ List.mem_map_of_mem (f := Prod.fst) hmem)
      rw [if_neg hk]
      exact ih hnodup.2 hmem

omit [DecidableEq κ] in
theorem Keyed.sublist (hl : Keyed l) (h : l'.Sublist l) : Keyed l' := List.Nodup.sublist (h.map _) hl

theorem without_sublist : (without k l).Sublist l := List.filter_sublist

theorem mem_without {p : κ × α} : p ∈ without k l ↔ p ∈ l ∧ p.1 ≠ k := by simp [without]

theorem without_eq_self (h : find k l = none) : without k l = l := by
  rw [without, List.filter_eq_self]
  simpa using find_eq_none.mp h

@[simp] theorem find_without : find k (without k l) = none := by simp [find_eq_none, without]

@[simp] theorem without_without : without k (without k l) = without k l := without_eq_self find_without

theorem keyed_cons_without (hl : Keyed l) : Keyed ((k, a) :: without k l) := by
  refine List.nodup_cons.mpr ⟨?_, hl.sublist without_sublist⟩
  simp [without]

theorem find_without_of_ne (h : k' ≠ k) : find k' (without k l) = find k' l := by
  induction l with
  | nil => rfl
  | cons p l ih =>
    by_cases hp : p.1 = k
    · have hp' : p.1 ≠ k' := fun hk' => h (hk'.symm.trans hp)
      have hcons : without k (p :: l) = without k l := by simp [without, hp]
      rw [hcons, ih, find_cons, if_neg hp']
    · have hcons : without k (p :: l) = p :: without k l := by simp [without, hp]
      rw [hcons, find_cons, find_cons, ih]

@[simp] theorem keyed_modify {f : α → α} : Keyed (modify k f l) ↔ Keyed l := by
  have hkeys : (modify k f l).map Prod.fst = l.map Prod.fst := by
    rw [modify, List.map_map]
    apply List.map_congr_left
    intro p _
    simp only [Function.comp]
    split <;> rfl
  rw [Keyed, Keyed, hkeys]

theorem find_modify (k' : κ) (f : α → α) :
    find k' (modify k f l) = (find k' l).map (if k' = k then f else id) := by
  induction l with
  | nil => rfl
  | cons p l ih =>
    have hcons : modify k f (p :: l) = (if p.1 = k then (p.1, f p.2) else p) :: modify k f l := rfl
    rw [hcons, find_cons, find_cons, ih]
    by_cases hp : p.1 = k
    · subst hp
      by_cases hk : p.1 = k'
      · simp [hk]
      · simp [hk]
    · by_cases hk : p.1 = k'
      · subst hk
        simp [hp]
      · simp [hp, hk]

omit [DecidableEq κ] in
@[simp] theorem weigh_nil : weigh w ([] : List (κ × α)) = 0 := rfl

omit [DecidableEq κ] in
@[simp] theorem weigh_cons (p : κ × α) : weigh w (p :: l) = w p.2 + weigh w l := by simp [weigh]

omit [DecidableEq κ] in
theorem weigh_filter (q : κ × α → Bool) :
    weigh w (l.filter q) + weigh w (l.filter fun p => !q p) = weigh w l := by
  induction l with
  | nil => rfl
  | cons p l ih =>
    by_cases hq : q p = true
    · simp only [List.filter_cons, hq, if_true, weigh_cons, Bool.not_true, Bool.false_eq_true, if_false]
      omega
    · have hno : q p = false := by simpa using hq
      simp only [List.filter_cons, hno, Bool.false_eq_true, if_false, Bool.not_false, if_true, weigh_cons]
      omega

/-- An entry that leaves takes its weight along. -/
theorem weigh_without (hl : Keyed l) (h : find k l = some a) :
    weigh w (without k l) + w a = weigh w l := by
  induction l with
  | nil => simp at h
  | cons p l ih =>
    have hnodup := List.nodup_cons.mp hl
    rw [find_cons] at h
    by_cases hp : p.1 = k
    · rw [if_pos hp] at h
      have hnone : find k l = none := by
        rw [find_eq_none]
        intro q hq hk
        exact hnodup.1 (hp.trans hk.symm ▸ List.mem_map_of_mem hq)
      have hcons : without k (p :: l) = l := by
        rw [← without_eq_self hnone]
        simp [without, hp]
      rw [hcons, weigh_cons, Option.some.inj h]
      omega
    · rw [if_neg hp] at h
      have hcons : without k (p :: l) = p :: without k l := by simp [without, hp]
      have hrest := ih hnodup.2 h
      rw [hcons, weigh_cons, weigh_cons]
      omega

theorem weigh_modify {f : α → α} (hf : ∀ a, w (f a) = w a) : weigh w (modify k f l) = weigh w l := by
  induction l with
  | nil => rfl
  | cons p l ih =>
    have hcons : modify k f (p :: l) = (if p.1 = k then (p.1, f p.2) else p) :: modify k f l := rfl
    rw [hcons, weigh_cons, weigh_cons, ih]
    split
    · rw [hf]
    · rfl

theorem filter_sublist_filter {β : Type*} {l : List β} {p q : β → Bool}
    (h : ∀ x ∈ l, p x = true → q x = true) : (l.filter p).Sublist (l.filter q) := by
  have hboth : l.filter p = (l.filter q).filter p := by
    rw [List.filter_filter]
    apply List.filter_congr
    intro x hx
    have himp := h x hx
    cases hp : p x <;> simp_all
  rw [hboth]
  exact List.filter_sublist

omit [DecidableEq κ] in
theorem weigh_le_of_sublist (h : l'.Sublist l) : weigh w l' ≤ weigh w l :=
  List.Sublist.sum_le_sum (h.map _) fun _ _ => Nat.zero_le _

end Rustango.Tally
