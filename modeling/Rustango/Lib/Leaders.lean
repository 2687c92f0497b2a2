import Mathlib.Data.List.Sort
import Mathlib.Data.Multiset.ZeroCons
import Rustango.Lib.Firsts

/-!
# The least of each group

One element of each class of an equivalence, least in an order. The first elements of a list sorted
inside each class are such leaders, and row numbers inside each class find them.
-/

namespace Rustango.Firsts

variable {α β : Type*} (r : α → α → Bool)

/-- The place of each element among the related ones, counted from one. -/
def rowNumbers : List α → List α → List (α × Nat)
  | _, [] => []
  | before, x :: xs => (x, before.countP (r · x) + 1) :: rowNumbers (before ++ [x]) xs

private theorem rowNumbers_one (before l : List α) :
    ((rowNumbers r before l).filter fun p => p.2 = 1).map (·.1) =
      (firsts r l).filter fun x => before.all fun b => !r b x := by
  induction l generalizing before with
  | nil => rfl
  | cons x xs ih =>
    have hrest : ((rowNumbers r (before ++ [x]) xs).filter fun p => p.2 = 1).map (·.1) =
        ((firsts r xs).filter fun y => !r x y).filter fun y => before.all fun b => !r b y := by
      rw [ih, List.filter_filter]
      apply List.filter_congr
      intro y _
      simp [List.all_append]
    have hone : (before.countP (r · x) + 1 = 1) ↔ (before.all fun b => !r b x) = true := by
      simp [List.countP_eq_zero, List.all_eq_true]
    rw [rowNumbers, firsts, List.filter_cons, List.filter_cons]
    by_cases h : (before.all fun b => !r b x) = true
    · rw [if_pos (by simpa using hone.mpr h), if_pos h, List.map_cons, hrest]
    · rw [if_neg (by simpa using fun h' => h (hone.mp h')), if_neg h, hrest]

theorem map_filter_rowNumbers (l : List α) :
    ((rowNumbers r [] l).filter fun p => p.2 = 1).map (·.1) = firsts r l := by
  rw [rowNumbers_one]
  exact List.filter_eq_self.mpr fun x _ => rfl

/-- `kept` has one element of each class of `l`, which nothing of its class is below. -/
structure Leaders (le : α → α → Prop) (l kept : List α) : Prop where
  subset : kept ⊆ l
  apart : Apart r kept
  least : ∀ x ∈ l, ∃ k ∈ kept, r k x = true ∧ le k x

section Leaders
variable {r} {le : α → α → Prop} {l l' kept kept' : List α}

theorem Leaders.of_perm (h : Leaders r le l kept) (hl : l.Perm l') : Leaders r le l' kept :=
  ⟨fun _ hx => hl.subset (h.subset hx), h.apart, fun x hx => h.least x (hl.mem_iff.mpr hx)⟩

theorem Leaders.perm_kept (hsymm : ∀ x y, r x y = true → r y x = true) (h : Leaders r le l kept)
    (hk : kept.Perm kept') : Leaders r le l kept' := by
  refine ⟨fun _ hx => h.subset (hk.symm.subset hx), ?_, fun x hx => ?_⟩
  · refine h.apart.perm hk fun {x y} hxy => ?_
    rw [Bool.eq_false_iff] at hxy ⊢
    exact fun hyx => hxy (hsymm y x hyx)
  · obtain ⟨k, hkm, hkx⟩ := h.least x hx
    exact ⟨k, hk.mem_iff.mp hkm, hkx⟩

theorem nodup_of_apart (hrefl : ∀ x, r x x = true) (h : Apart r l) : l.Nodup :=
  h.imp fun hxy heq => by
    subst heq
    rw [hrefl] at hxy
    cases hxy

theorem pairwise_within (h : l.Pairwise le) : l.Pairwise fun x y => r x y = true → le x y := by
  apply h.imp
  intro x y hxy _
  exact hxy

/-- Related elements of a list without related elements are one. -/
theorem eq_of_apart (hsymm : ∀ x y, r x y = true → r y x = true) (h : Apart r l) {x y : α}
    (hx : x ∈ l) (hy : y ∈ l) (hxy : r x y = true) : x = y := by
  induction l with
  | nil => cases hx
  | cons z zs ih =>
    rw [Apart, List.pairwise_cons] at h
    rcases List.mem_cons.mp hx with hxz | hxs
    · rcases List.mem_cons.mp hy with hyz | hys
      · rw [hxz, hyz]
      · rw [hxz, h.1 y hys] at hxy
        cases hxy
    · rcases List.mem_cons.mp hy with hyz | hys
      · have hzx := hsymm x y hxy
        rw [hyz, h.1 x hxs] at hzx
        cases hzx
      · exact ih h.2 hxs hys

/-- The first of each class leads it, in a list that is sorted inside each class. -/
theorem leaders_firsts (hrefl : ∀ x, r x x = true)
    (htrans : ∀ x y z, r x y = true → r y z = true → r x z = true) (hle : ∀ x, le x x)
    (h : l.Pairwise fun x y => r x y = true → le x y) : Leaders r le l (firsts r l) := by
  refine ⟨(firsts_sublist r l).subset, firsts_apart r l, ?_⟩
  induction l with
  | nil => simp
  | cons z zs ih =>
    rw [List.pairwise_cons] at h
    intro x hx
    rcases List.mem_cons.mp hx with rfl | hx
    · exact ⟨x, List.mem_cons_self, hrefl x, hle x⟩
    · obtain ⟨y, hy, hyx, hle'⟩ := ih h.2 x hx
      by_cases hzy : r z y = true
      · have hzx := htrans z y x hzy hyx
        exact ⟨z, List.mem_cons_self, hzx, h.1 x hx hzx⟩
      · refine ⟨y, List.mem_cons_of_mem z (List.mem_filter.mpr ⟨hy, ?_⟩), hyx, hle'⟩
        simpa using hzy

/-- Leaders stand in front of some arrangement, sorted inside each class, whose first elements they
are. -/
theorem Leaders.exists_arrangement (hrefl : ∀ x, r x x = true)
    (hsymm : ∀ x y, r x y = true → r y x = true)
    (htrans : ∀ x y z, r x y = true → r y z = true → r x z = true)
    (hsort : ∀ l : List α, ∃ l', l.Perm l' ∧ l'.Pairwise fun x y => r x y = true → le x y)
    (h : Leaders r le l kept) :
    ∃ l', l.Perm l' ∧ (l'.Pairwise fun x y => r x y = true → le x y) ∧ firsts r l' = kept := by
  have hsub : kept.Subperm l := List.subperm_of_subset (nodup_of_apart hrefl h.apart) h.subset
  obtain ⟨kept', hkept, hsublist⟩ := hsub
  obtain ⟨rest, hrest'⟩ := hsublist.exists_perm_append
  have hrest : l.Perm (kept ++ rest) := hrest'.trans (hkept.append_right rest)
  obtain ⟨sorted, hperm, hsorted⟩ := hsort rest
  have harrange : l.Perm (kept ++ sorted) := hrest.trans (hperm.append_left kept)
  refine ⟨kept ++ sorted, harrange, ?_, ?_⟩
  · rw [List.pairwise_append]
    refine ⟨h.apart.imp fun hxy hr => ?_, hsorted, fun k hk x hx hkx => ?_⟩
    · rw [hxy] at hr
      cases hr
    · have hxl : x ∈ l := harrange.mem_iff.mpr (List.mem_append_right kept hx)
      obtain ⟨k', hk', hk'x, hle⟩ := h.least x hxl
      have hrel : r k k' = true := htrans k x k' hkx (hsymm k' x hk'x)
      exact eq_of_apart hsymm h.apart hk hk' hrel ▸ hle
  · obtain ⟨c, hc⟩ := firsts_append r sorted h.apart
    have hnil : c = [] := by
      rw [List.eq_nil_iff_forall_not_mem]
      intro x hx
      have hmem : x ∈ firsts r (kept ++ sorted) := hc ▸ List.mem_append_right kept hx
      have hxl : x ∈ l := harrange.mem_iff.mpr ((firsts_sublist r _).subset hmem)
      obtain ⟨k, hk, hkx, -⟩ := h.least x hxl
      have hap := firsts_apart r (kept ++ sorted)
      rw [hc, Apart, List.pairwise_append] at hap
      rw [hap.2.2 k hk x hx] at hkx
      cases hkx
    rw [hc, hnil, List.append_nil]

/-- In an order without ties the leaders are determined, up to their arrangement. -/
theorem Leaders.unique (hrefl : ∀ x, r x x = true) (hsymm : ∀ x y, r x y = true → r y x = true)
    (htrans : ∀ x y z, r x y = true → r y z = true → r x z = true) {le' : α → α → Prop}
    (hanti : ∀ x ∈ l, ∀ y ∈ l, le x y → le' y x → x = y) (h : Leaders r le l kept)
    (h' : Leaders r le' l kept') : kept.Perm kept' := by
  have hmem : ∀ x, x ∈ kept → x ∈ kept' := by
    intro x hx
    obtain ⟨y, hy, hyx, hle'⟩ := h'.least x (h.subset hx)
    obtain ⟨z, hz, hzy, hle⟩ := h.least y (h'.subset hy)
    have hzx : z = x := eq_of_apart hsymm h.apart hz hx (htrans z y x hzy hyx)
    rw [hzx] at hle
    exact hanti x (h.subset hx) y (h'.subset hy) hle hle' ▸ hy
  have hmem' : ∀ x, x ∈ kept' → x ∈ kept := by
    intro x hx
    obtain ⟨y, hy, hyx, hle⟩ := h.least x (h'.subset hx)
    obtain ⟨z, hz, hzy, hle'⟩ := h'.least y (h.subset hy)
    have hzx : z = x := eq_of_apart hsymm h'.apart hz hx (htrans z y x hzy hyx)
    rw [hzx] at hle'
    exact hanti y (h.subset hy) x (h'.subset hx) hle hle' ▸ hy
  exact (List.perm_ext_iff_of_nodup (nodup_of_apart hrefl h.apart)
    (nodup_of_apart hrefl h'.apart)).mpr fun x => ⟨hmem x, hmem' x⟩

/-- One element of each class gives the same values, where the values are one in each class. -/
theorem map_perm_of_classes (f : α → β) (hsymm : ∀ x y, r x y = true → r y x = true)
    (htrans : ∀ x y z, r x y = true → r y z = true → r x z = true) (h : Apart r kept)
    (h' : Apart r kept') (hsub : ∀ x ∈ kept, ∃ y ∈ kept', r y x = true)
    (hsub' : ∀ y ∈ kept', ∃ x ∈ kept, r x y = true)
    (hf : ∀ x ∈ kept, ∀ y ∈ kept', r y x = true → f x = f y) :
    (kept.map f).Perm (kept'.map f) := by
  classical
  induction kept generalizing kept' with
  | nil =>
    have hnil : kept' = [] := by
      rw [List.eq_nil_iff_forall_not_mem]
      intro y hy
      obtain ⟨x, hx, -⟩ := hsub' y hy
      cases hx
    rw [hnil]
  | cons x xs ih =>
    rw [Apart, List.pairwise_cons] at h
    obtain ⟨y, hy, hyx⟩ := hsub x List.mem_cons_self
    have hperm : kept'.Perm (y :: kept'.erase y) := List.perm_cons_erase hy
    have hsplit : Apart r (y :: kept'.erase y) := h'.perm hperm fun {a b} hab => by
      rw [Bool.eq_false_iff] at hab ⊢
      exact fun hba => hab (hsymm b a hba)
    rw [Apart, List.pairwise_cons] at hsplit
    have hrest : (xs.map f).Perm ((kept'.erase y).map f) := by
      refine ih h.2 hsplit.2 (fun z hz => ?_) (fun z hz => ?_) (fun z hz w hw => ?_)
      · obtain ⟨w, hw, hwz⟩ := hsub z (List.mem_cons_of_mem x hz)
        rcases List.mem_cons.mp (hperm.mem_iff.mp hw) with rfl | hw
        · have hxz := htrans x w z (hsymm w x hyx) hwz
          rw [h.1 z hz] at hxz
          cases hxz
        · exact ⟨w, hw, hwz⟩
      · obtain ⟨w, hw, hwz⟩ := hsub' z (hperm.mem_iff.mpr (List.mem_cons_of_mem y hz))
        rcases List.mem_cons.mp hw with rfl | hw
        · have hyz := htrans y w z hyx hwz
          rw [hsplit.1 z hz] at hyz
          cases hyz
        · exact ⟨w, hw, hwz⟩
      · exact hf z (List.mem_cons_of_mem x hz) w (List.mem_of_mem_erase hw)
    rw [List.map_cons, hf x List.mem_cons_self y hy hyx]
    exact (hrest.cons (f y)).trans (hperm.symm.map f)

/-- Two rows of one class with different values are told apart by a choice of one element each. -/
theorem exists_other_choice (hrefl : ∀ x, r x x = true)
    (hsymm : ∀ x y, r x y = true → r y x = true)
    (htrans : ∀ x y z, r x y = true → r y z = true → r x z = true) (f : α → β)
    (h : Leaders r le l kept) {x y : α} (hx : x ∈ l) (hy : y ∈ l) (hxy : r x y = true)
    (hf : f x ≠ f y) :
    ∃ l', l.Perm l' ∧ ¬ ((firsts r l').map f).Perm (kept.map f) := by
  classical
  obtain ⟨k, hk, hkx, -⟩ := h.least x hx
  -- One of the two differs from the leader of their class.
  obtain ⟨z, hz, hkz, hfz⟩ : ∃ z ∈ l, r k z = true ∧ f z ≠ f k := by
    by_cases hfx : f x = f k
    · exact ⟨y, hy, htrans k x y hkx hxy, fun hfy => hf (hfx.trans hfy.symm)⟩
    · exact ⟨x, hx, hkx, hfx⟩
  have hperm : kept.Perm (k :: kept.erase k) := List.perm_cons_erase hk
  have hsplit : Apart r (k :: kept.erase k) := (h.perm_kept hsymm hperm).apart
  rw [Apart, List.pairwise_cons] at hsplit
  have hchoice : Leaders r (fun _ _ => True) l (z :: kept.erase k) := by
    refine ⟨fun w hw => ?_, ?_, fun w hw => ?_⟩
    · rcases List.mem_cons.mp hw with rfl | hw
      · exact hz
      · exact h.subset (List.mem_of_mem_erase hw)
    · rw [Apart, List.pairwise_cons]
      refine ⟨fun w hw => ?_, hsplit.2⟩
      rw [Bool.eq_false_iff]
      intro hzw
      have hkw := htrans k z w hkz hzw
      rw [hsplit.1 w hw] at hkw
      cases hkw
    · obtain ⟨k', hk', hk'w, -⟩ := h.least w hw
      rcases List.mem_cons.mp (hperm.mem_iff.mp hk') with rfl | hk'
      · exact ⟨z, List.mem_cons_self, htrans z k' w (hsymm k' z hkz) hk'w, trivial⟩
      · exact ⟨k', List.mem_cons_of_mem z hk', hk'w, trivial⟩
  obtain ⟨l', hl', -, hfirsts⟩ := hchoice.exists_arrangement hrefl hsymm htrans
    fun l => ⟨l, List.Perm.refl l, List.pairwise_of_forall fun _ _ _ => trivial⟩
  refine ⟨l', hl', fun heq => hfz ?_⟩
  rw [hfirsts, List.map_cons] at heq
  have hsame : (f z :: (kept.erase k).map f).Perm (f k :: (kept.erase k).map f) :=
    heq.trans (hperm.map f)
  have hcons := Multiset.coe_eq_coe.mpr hsame
  rw [← Multiset.cons_coe, ← Multiset.cons_coe] at hcons
  exact (Multiset.cons_inj_left _).mp hcons

end Leaders

/-- One element of each class of a list. -/
structure Transversal (l kept : List α) : Prop where
  subset : kept ⊆ l
  apart : Apart r kept
  covers : ∀ x ∈ l, ∃ k ∈ kept, r k x = true

section Count
variable {r}

theorem transversal_firsts (hrefl : ∀ x, r x x = true)
    (htrans : ∀ x y z, r x y = true → r y z = true → r x z = true) (l : List α) :
    Transversal r l (firsts r l) :=
  ⟨(firsts_sublist r l).subset, firsts_apart r l, fun _ hx => exists_mem_firsts r hrefl htrans hx⟩

theorem Transversal.length_eq (hsymm : ∀ x y, r x y = true → r y x = true)
    (htrans : ∀ x y z, r x y = true → r y z = true → r x z = true) {l l' kept kept' : List α}
    (h : Transversal r l kept) (h' : Transversal r l' kept') (hl : ∀ x ∈ l, ∃ y ∈ l', r y x = true)
    (hl' : ∀ y ∈ l', ∃ x ∈ l, r x y = true) : kept.length = kept'.length := by
  have hperm := map_perm_of_classes (fun _ => ()) hsymm htrans h.apart h'.apart (fun x hx => by
    obtain ⟨y, hy, hyx⟩ := hl x (h.subset hx)
    obtain ⟨k, hk, hky⟩ := h'.covers y hy
    exact ⟨k, hk, htrans k y x hky hyx⟩) (fun y hy => by
    obtain ⟨x, hx, hxy⟩ := hl' y (h'.subset hy)
    obtain ⟨k, hk, hkx⟩ := h.covers x hx
    exact ⟨k, hk, htrans k x y hkx hxy⟩) fun _ _ _ _ _ => rfl
  simpa using hperm.length_eq

/-- The elements of two transversals of one list can be matched. -/
theorem Transversal.exists_matching (hrefl : ∀ x, r x x = true)
    (hsymm : ∀ x y, r x y = true → r y x = true)
    (htrans : ∀ x y z, r x y = true → r y z = true → r x z = true) {l kept kept' : List α}
    (h : Transversal r l kept) (h' : Transversal r l kept') :
    ∃ k, kept'.Perm k ∧ List.Forall₂ (fun x y => r x y = true) kept k := by
  let classes : Setoid α := ⟨fun x y => r x y = true, hrefl, fun h => hsymm _ _ h,
    fun h h' => htrans _ _ _ h h'⟩
  let f : α → Quotient classes := Quotient.mk classes
  have hperm : (kept.map f).Perm (kept'.map f) :=
    map_perm_of_classes f hsymm htrans h.apart h'.apart (fun x hx => h'.covers x (h.subset hx))
      (fun y hy => h.covers y (h'.subset hy)) fun x _ y _ hyx => Quotient.sound (hsymm y x hyx)
  obtain ⟨k, hk, heq⟩ := exists_of_map_perm hperm.symm
  refine ⟨k, hk, ?_⟩
  have hmap : List.Forall₂ (· = ·) (kept.map f) (k.map f) := List.forall₂_eq_eq_eq ▸ heq
  rw [List.forall₂_map_left_iff, List.forall₂_map_right_iff] at hmap
  exact hmap.imp fun _ _ hxy => Quotient.exact hxy

theorem length_firsts_perm (hrefl : ∀ x, r x x = true) (hsymm : ∀ x y, r x y = true → r y x = true)
    (htrans : ∀ x y z, r x y = true → r y z = true → r x z = true) {l l' : List α} (h : l.Perm l') :
    (firsts r l).length = (firsts r l').length :=
  (transversal_firsts hrefl htrans l).length_eq hsymm htrans (transversal_firsts hrefl htrans l')
    (fun x hx => ⟨x, h.mem_iff.mp hx, hrefl x⟩) fun y hy => ⟨y, h.mem_iff.mpr hy, hrefl y⟩

end Count

theorem firsts_congr {r r' : α → α → Bool} {l : List α} (h : ∀ x ∈ l, ∀ y ∈ l, r x y = r' x y) :
    firsts r l = firsts r' l := by
  induction l with
  | nil => rfl
  | cons x xs ih =>
    have hrest := ih fun y hy z hz => h y (List.mem_cons_of_mem x hy) z (List.mem_cons_of_mem x hz)
    rw [firsts, firsts, hrest]
    congr 1
    apply List.filter_congr
    intro y hy
    have hmem := (firsts_sublist r' xs).subset hy
    rw [h x List.mem_cons_self y (List.mem_cons_of_mem x hmem)]

/-- A finer equivalence has as many classes only if it relates what the coarser one does. -/
theorem length_firsts_eq_iff (r r' : α → α → Bool) (hrefl : ∀ x, r x x = true)
    (hsymm : ∀ x y, r x y = true → r y x = true)
    (htrans : ∀ x y z, r x y = true → r y z = true → r x z = true) (hrefl' : ∀ x, r' x x = true)
    (hsymm' : ∀ x y, r' x y = true → r' y x = true)
    (htrans' : ∀ x y z, r' x y = true → r' y z = true → r' x z = true)
    (hfiner : ∀ x y, r' x y = true → r x y = true) {l : List α} :
    (firsts r l).length = (firsts r' l).length ↔ ∀ x ∈ l, ∀ y ∈ l, r x y = true → r' x y = true := by
  constructor
  · intro hlen x hx y hy hxy
    have hagain : (firsts r (firsts r' l)).length = (firsts r l).length :=
      (transversal_firsts hrefl htrans _).length_eq hsymm htrans (transversal_firsts hrefl htrans l)
        (fun z hz => ⟨z, (firsts_sublist r' l).subset hz, hrefl z⟩) fun z hz => by
          obtain ⟨k, hk, hkz⟩ := exists_mem_firsts r' hrefl' htrans' hz
          exact ⟨k, hk, hfiner k z hkz⟩
    have heq : firsts r (firsts r' l) = firsts r' l :=
      (firsts_sublist r (firsts r' l)).eq_of_length (hagain.trans hlen)
    have hapart : Apart r (firsts r' l) := heq ▸ firsts_apart r (firsts r' l)
    obtain ⟨x', hx', hxx'⟩ := exists_mem_firsts r' hrefl' htrans' hx
    obtain ⟨y', hy', hyy'⟩ := exists_mem_firsts r' hrefl' htrans' hy
    have hrel : r x' y' = true := htrans x' x y' (hfiner x' x hxx')
      (htrans x y y' hxy (hsymm y' y (hfiner y' y hyy')))
    have hone : x' = y' := eq_of_apart hsymm hapart hx' hy' hrel
    exact htrans' x x' y (hsymm' x' x hxx') (hone ▸ hyy')
  · intro h
    have hsame : firsts r l = firsts r' l := firsts_congr fun x hx y hy => by
      rw [Bool.eq_iff_iff]
      exact ⟨h x hx y hy, hfiner x y⟩
    rw [hsame]

end Rustango.Firsts
