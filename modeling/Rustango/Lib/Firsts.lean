import Mathlib.Data.List.Nodup
import Mathlib.Data.List.Perm.Basic
import Mathlib.Data.List.Perm.Subperm
import Mathlib.Order.Lattice

/-!
# The first of each group, and windows

A list cut down to the first element of each class of an equivalence, a window of a list, and when
the two commute. Nothing is assumed of the elements but a decidable relation, and of an order only
that it is total and transitive.
-/

namespace Rustango.Firsts

variable {α β : Type*}

section Firsts
variable (r : α → α → Bool)

/-- The elements that no earlier kept one is related to. -/
def firsts : List α → List α
  | [] => []
  | x :: xs => x :: (firsts xs).filter fun y => !r x y

/-- No two elements are related. -/
abbrev Apart (l : List α) : Prop := l.Pairwise fun x y => r x y = false

theorem firsts_sublist (l : List α) : (firsts r l).Sublist l := by
  induction l with
  | nil => exact List.Sublist.refl _
  | cons x xs ih => exact (List.filter_sublist.trans ih).cons_cons x

theorem firsts_apart (l : List α) : Apart r (firsts r l) := by
  induction l with
  | nil => exact List.Pairwise.nil
  | cons x xs ih =>
    rw [firsts, Apart, List.pairwise_cons]
    refine ⟨fun y hy => ?_, ih.sublist List.filter_sublist⟩
    have hxy := (List.mem_filter.mp hy).2
    simpa using hxy

theorem firsts_append {a : List α} (b : List α) (ha : Apart r a) :
    ∃ c, firsts r (a ++ b) = a ++ c := by
  induction a with
  | nil => exact ⟨firsts r b, rfl⟩
  | cons x xs ih =>
    rw [Apart, List.pairwise_cons] at ha
    obtain ⟨c, hc⟩ := ih ha.2
    have hxs : (xs.filter fun y => !r x y) = xs := by
      rw [List.filter_eq_self]
      intro y hy
      simp [ha.1 y hy]
    exact ⟨c.filter fun y => !r x y, by rw [List.cons_append, firsts, hc, List.filter_append, hxs,
      List.cons_append]⟩

theorem firsts_eq_self {l : List α} (h : Apart r l) : firsts r l = l := by
  obtain ⟨c, hc⟩ := firsts_append r [] h
  rw [List.append_nil] at hc
  have hlen := (firsts_sublist r l).length_le
  rw [hc, List.length_append] at hlen
  have hnil : c = [] := List.length_eq_zero_iff.mp (by omega)
  rw [hc, hnil, List.append_nil]

theorem take_firsts {k : Nat} {l : List α} (h : Apart r (l.take k)) :
    (firsts r l).take k = l.take k := by
  by_cases hk : l.length ≤ k
  · rw [List.take_of_length_le hk] at h
    rw [firsts_eq_self r h]
  · obtain ⟨c, hc⟩ := firsts_append r (l.drop k) h
    rw [List.take_append_drop] at hc
    rw [hc, List.take_append_of_le_length (by rw [List.length_take]; omega), List.take_take,
      min_self]

theorem firsts_map (f : β → α) (l : List β) :
    firsts r (l.map f) = (firsts (fun x y => r (f x) (f y)) l).map f := by
  induction l with
  | nil => rfl
  | cons x xs ih =>
    rw [List.map_cons, firsts, firsts, List.map_cons, ih, List.filter_map]
    rfl

theorem exists_mem_firsts (hrefl : ∀ x, r x x) (htrans : ∀ x y z, r x y → r y z → r x z)
    {l : List α} {x : α} (hx : x ∈ l) : ∃ y ∈ firsts r l, r y x := by
  induction l with
  | nil => cases hx
  | cons z zs ih =>
    rcases List.mem_cons.mp hx with rfl | hx
    · exact ⟨x, List.mem_cons_self, hrefl x⟩
    · obtain ⟨y, hy, hyx⟩ := ih hx
      by_cases hzy : r z y = true
      · exact ⟨z, List.mem_cons_self, htrans z y x hzy hyx⟩
      · refine ⟨y, List.mem_cons_of_mem z ?_, hyx⟩
        rw [List.mem_filter]
        exact ⟨hy, by simpa using hzy⟩

end Firsts

theorem exists_of_map_perm {f : α → β} {l : List α} {l' : List β} (h : (l.map f).Perm l') :
    ∃ k, l.Perm k ∧ l' = k.map f := by
  have hcomp := (congrFun (congrFun (List.eq_map_comp_perm f) l') l).mpr h.symm
  obtain ⟨k, hk, hperm⟩ := hcomp
  exact ⟨k, hperm.symm, hk⟩

/-- What is left after `skip` elements, at most `count` of them. -/
def window (skip : Nat) : Option Nat → List α → List α
  | none, l => l.drop skip
  | some n, l => (l.drop skip).take n

/-- The elements up to the end of the window. -/
def reach (skip : Nat) : Option Nat → List α → List α
  | none, l => l
  | some n, l => l.take (skip + n)

theorem window_eq_drop (skip : Nat) (count : Option Nat) (l : List α) :
    window skip count l = (reach skip count l).drop skip := by
  cases count with
  | none => rfl
  | some n => rw [window, reach, List.drop_take, Nat.add_sub_cancel_left]

theorem window_sublist (skip : Nat) (count : Option Nat) (l : List α) :
    (window skip count l).Sublist l := by
  cases count with
  | none => exact List.drop_sublist skip l
  | some n => exact (List.take_sublist n _).trans (List.drop_sublist skip l)

theorem reach_sublist (skip : Nat) (count : Option Nat) (l : List α) :
    (reach skip count l).Sublist l := by
  cases count with
  | none => exact List.Sublist.refl l
  | some n => exact List.take_sublist _ l

theorem window_map (skip : Nat) (count : Option Nat) (f : α → β) (l : List α) :
    window skip count (l.map f) = (window skip count l).map f := by
  cases count <;> simp [window, List.map_drop, List.map_take]

theorem length_window_congr {l : List α} {l' : List β} (h : l.length = l'.length) (skip : Nat)
    (count : Option Nat) : (window skip count l).length = (window skip count l').length := by
  cases count <;> simp [window, h]

@[simp] theorem window_zero_none (l : List α) : window 0 none l = l := rfl

@[simp] theorem window_some_zero (skip : Nat) (l : List α) : window skip (some 0) l = [] := by
  simp [window]

section Commute
variable (r : α → α → Bool)

theorem window_firsts {skip : Nat} {count : Option Nat} {l : List α}
    (h : Apart r (reach skip count l)) : window skip count (firsts r l) = window skip count l := by
  rw [window_eq_drop, window_eq_drop skip count l]
  congr 1
  cases count with
  | none => exact firsts_eq_self r h
  | some n => exact take_firsts r h

theorem window_firsts_eq_nil {skip : Nat} {count : Option Nat} {l : List α}
    (h : window skip count l = []) : window skip count (firsts r l) = [] := by
  have hlen := (firsts_sublist r l).length_le
  cases count with
  | none =>
    rw [window, List.drop_eq_nil_iff] at h ⊢
    omega
  | some n =>
    rw [window, List.take_eq_nil_iff, List.drop_eq_nil_iff] at h ⊢
    omega

theorem apart_of_mem_firsts (hrefl : ∀ x, r x x) (hsymm : ∀ x y, r x y → r y x) {l l' : List α}
    (hn : l.Nodup) (h : ∀ x, x ∈ l ↔ x ∈ firsts r l') : Apart r l := by
  have hapart := firsts_apart r l'
  have hn' : (firsts r l').Nodup := hapart.imp fun hxy heq => by
    subst heq
    rw [hrefl] at hxy
    cases hxy
  have hperm : (firsts r l').Perm l := (List.perm_ext_iff_of_nodup hn' hn).mpr fun x => (h x).symm
  refine hapart.perm hperm fun {x y} hxy => ?_
  rw [Bool.eq_false_iff] at hxy ⊢
  exact fun hyx => hxy (hsymm y x hyx)

variable {le : α → α → Prop} (hle : ∀ x y, le x y ∨ le y x)
variable (htrans : ∀ x y z, le x y → le y z → le x z)
variable (htie : ∀ x y, r x y = true ↔ le x y ∧ le y x)
include hle

private theorem mem_take_of_below {l : List α} (hl : l.Pairwise le) {k : Nat} {x y : α}
    (hx : (l.drop k).head? = some x) (hy : y ∈ l) (hyx : ¬ le x y) : y ∈ l.take k := by
  rw [← List.take_append_drop k l, List.mem_append] at hy
  rcases hy with hy | hy
  · exact hy
  · exfalso
    apply hyx
    have hdrop := hl.sublist (List.drop_sublist k l)
    cases hd : l.drop k with
    | nil =>
      rw [hd] at hy
      cases hy
    | cons z zs =>
      rw [hd, List.head?_cons] at hx
      obtain rfl := Option.some.inj hx
      rw [hd] at hy hdrop
      rcases List.mem_cons.mp hy with rfl | hy
      · exact (hle y y).elim id id
      · exact (List.pairwise_cons.mp hdrop).1 y hy

include htie

/-- The first element of a window survives only when nothing before it is related. -/
private theorem apart_before {l l' : List α} (hl : l.Pairwise le) (hl' : l'.Pairwise le)
    (hperm : l.Perm l') {skip : Nat} {x : α} (hx : (l.drop skip).head? = some x)
    (hmem : x ∈ (firsts r l').drop skip) : Apart r (l.take skip) ∧ ∀ y ∈ l.take skip, ¬ le x y := by
  have hrefl : ∀ x, r x x = true := fun x => (htie x x).mpr ⟨(hle x x).elim id id, (hle x x).elim id id⟩
  let ys := (firsts r l').take skip
  have hapart := firsts_apart r l'
  have hys : Apart r ys := hapart.sublist (List.take_sublist skip _)
  have hsplit := List.take_append_drop skip (firsts r l')
  -- All `skip` elements before `x` are strictly below it.
  have hbelow : ∀ y ∈ ys, ¬ le x y := by
    intro y hy hxy
    rw [← hsplit, Apart, List.pairwise_append] at hapart
    have hyx := hapart.2.2 y hy x hmem
    have hsorted := hl'.sublist (firsts_sublist r l')
    rw [← hsplit, List.pairwise_append] at hsorted
    have hle' := hsorted.2.2 y hy x hmem
    rw [(htie y x).mpr ⟨hle', hxy⟩] at hyx
    cases hyx
  have hin : ∀ y ∈ ys, y ∈ l.take skip := by
    intro y hy
    have hyl' : y ∈ l' := ((List.take_sublist skip _).trans (firsts_sublist r l')).subset hy
    exact mem_take_of_below hle hl hx (hperm.mem_iff.mpr hyl') (hbelow y hy)
  have hn : ys.Nodup := hys.imp fun hxy heq => by
    subst heq
    rw [hrefl] at hxy
    cases hxy
  have hlen : ys.length = skip := by
    have hpos : 0 < ((firsts r l').drop skip).length := List.length_pos_of_mem hmem
    rw [List.length_drop] at hpos
    rw [List.length_take]
    omega
  have hpermTake : ys.Perm (l.take skip) := by
    apply (List.subperm_of_subset hn hin).perm_of_length_le
    rw [List.length_take, hlen]
    exact min_le_left _ _
  constructor
  · refine hys.perm hpermTake fun {a b} hab => ?_
    rw [Bool.eq_false_iff] at hab ⊢
    exact fun hba => hab ((htie a b).mpr ((htie b a).mp hba).symm)
  · exact fun y hy => hbelow y (hpermTake.mem_iff.mpr hy)

include htrans

/-- A window of the firsts has the elements of the window only if the list has no related elements
up to the window's end. -/
theorem apart_of_window_firsts {l l' : List α} (hl : l.Pairwise le) (hl' : l'.Pairwise le)
    (hperm : l.Perm l') (hn : l.Nodup) {skip : Nat} {count : Option Nat}
    (hne : window skip count l ≠ [])
    (h : ∀ x, x ∈ window skip count l ↔ x ∈ window skip count (firsts r l')) :
    Apart r (reach skip count l) := by
  have hrefl : ∀ x, r x x = true := fun x => (htie x x).mpr ⟨(hle x x).elim id id, (hle x x).elim id id⟩
  have hsymm : ∀ x y, r x y = true → r y x = true := fun x y hxy =>
    (htie y x).mpr ((htie x y).mp hxy).symm
  obtain ⟨x, xs, hw⟩ := List.exists_cons_of_ne_nil hne
  have hhead : (l.drop skip).head? = some x := by
    cases count with
    | none => rw [show l.drop skip = x :: xs from hw, List.head?_cons]
    | some n =>
      cases hd : l.drop skip with
      | nil => simp [window, hd] at hw
      | cons z zs =>
        cases n with
        | zero => simp [window] at hw
        | succ n =>
          rw [window, hd, List.take_succ_cons] at hw
          rw [List.head?_cons, (List.cons.inj hw).1]
  have hxmem : x ∈ (firsts r l').drop skip := by
    have hx := (h x).mp (hw ▸ List.mem_cons_self)
    cases count with
    | none => exact hx
    | some n => exact (List.take_sublist n _).subset hx
  obtain ⟨hbefore, hstrict⟩ := apart_before r hle htie hl hl' hperm hhead hxmem
  -- The window itself is the window of the firsts.
  have hwindow : Apart r (window skip count l) := by
    have hsub := window_sublist skip count (firsts r l')
    have hapart : Apart r (window skip count (firsts r l')) := (firsts_apart r l').sublist hsub
    have hself : firsts r (window skip count (firsts r l')) = window skip count (firsts r l') :=
      firsts_eq_self r hapart
    have hmem : ∀ y, y ∈ window skip count l ↔ y ∈ firsts r (window skip count (firsts r l')) := by
      intro y
      rw [hself]
      exact h y
    exact apart_of_mem_firsts r hrefl hsymm (hn.sublist (window_sublist skip count l)) hmem
  have hsplit : reach skip count l = l.take skip ++ window skip count l := by
    rw [window_eq_drop]
    have htake : (reach skip count l).take skip = l.take skip := by
      cases count with
      | none => rfl
      | some n => rw [reach, List.take_take, min_eq_left (Nat.le_add_right skip n)]
    rw [← htake, List.take_append_drop]
  rw [hsplit, Apart, List.pairwise_append]
  refine ⟨hbefore, hwindow, fun y hy z hz => ?_⟩
  have hsorted := hl.sublist (List.drop_sublist skip l)
  have hxz : le x z := by
    have hzd : z ∈ l.drop skip := by
      cases count with
      | none => exact hz
      | some n => exact (List.take_sublist n _).subset hz
    cases hd : l.drop skip with
    | nil => simp [hd] at hzd
    | cons w ws =>
      rw [hd, List.head?_cons] at hhead
      obtain rfl := Option.some.inj hhead
      rw [hd] at hzd hsorted
      rcases List.mem_cons.mp hzd with rfl | hzd
      · exact (hle z z).elim id id
      · exact (List.pairwise_cons.mp hsorted).1 z hzd
  rw [Bool.eq_false_iff]
  intro hyz
  exact hstrict y hy (htrans x z y hxz ((htie y z).mp hyz).2)

end Commute

end Rustango.Firsts
