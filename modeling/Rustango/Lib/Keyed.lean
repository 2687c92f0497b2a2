import Mathlib.Data.List.Basic
import Mathlib.Data.List.Nodup
import Mathlib.Data.List.Perm.Basic
import Mathlib.Data.List.Sort

/-!
# Lists with a key

A list whose entries are found by a key: lookup, and how each list operation changes it.
The last part is the rule for a loop that visits each key once and changes only that key.
-/

namespace Rustango.Keyed

section Lookup
variable {α κ : Type*} [DecidableEq κ] (key : α → κ)

/-- The first entry under `k`. -/
def lookup (l : List α) (k : κ) : Option α := l.find? fun x => key x = k

/-- Every entry under `k` taken out. -/
def retain (l : List α) (k : κ) : List α := l.filter fun x => key x ≠ k

/-- The first entry under `k` replaced by `v`. -/
def replaceFirst (k : κ) (v : α) : List α → List α
  | [] => []
  | x :: xs => if key x = k then v :: xs else x :: replaceFirst k v xs

/-- The first entry that satisfies `p` rewritten by `f`. -/
def modifyFirst (p : α → Bool) (f : α → α) : List α → List α
  | [] => []
  | x :: xs => if p x then f x :: xs else x :: modifyFirst p f xs

@[simp] theorem lookup_nil (k : κ) : lookup key [] k = none := rfl

theorem lookup_cons (x : α) (l : List α) (k : κ) :
    lookup key (x :: l) k = if key x = k then some x else lookup key l k := by
  by_cases h : key x = k <;> simp [lookup, h]

theorem lookup_key {l : List α} {k : κ} {x : α} (h : lookup key l k = some x) : key x = k := by
  simpa using List.find?_some h

theorem mem_of_lookup {l : List α} {k : κ} {x : α} (h : lookup key l k = some x) : x ∈ l :=
  List.mem_of_find?_eq_some h

theorem lookup_eq_none {l : List α} {k : κ} :
    lookup key l k = none ↔ ∀ x ∈ l, key x ≠ k := by
  simp [lookup, List.find?_eq_none]

theorem lookup_isSome {l : List α} {k : κ} :
    (lookup key l k).isSome ↔ k ∈ l.map key := by
  simp [lookup, List.find?_isSome]

theorem lookup_of_mem {l : List α} (hn : (l.map key).Nodup) {x : α} (hx : x ∈ l) :
    lookup key l (key x) = some x := by
  induction l with
  | nil => cases hx
  | cons y ys ih =>
    rw [List.map_cons, List.nodup_cons] at hn
    rw [lookup_cons]
    rcases List.mem_cons.mp hx with rfl | hx
    · simp
    · have hne : key y ≠ key x := fun h => hn.1 (h ▸ List.mem_map_of_mem hx)
      rw [if_neg hne, ih hn.2 hx]

theorem lookup_eq_some {l : List α} (hn : (l.map key).Nodup) {k : κ} {x : α} :
    lookup key l k = some x ↔ x ∈ l ∧ key x = k := by
  constructor
  · exact fun h => ⟨mem_of_lookup key h, lookup_key key h⟩
  · rintro ⟨hx, rfl⟩
    exact lookup_of_mem key hn hx

theorem lookup_append (l m : List α) (k : κ) :
    lookup key (l ++ m) k = (lookup key l k).or (lookup key m k) := by
  simp [lookup, List.find?_append]

theorem lookup_retain (l : List α) (k j : κ) :
    lookup key (retain key l k) j = if j = k then none else lookup key l j := by
  induction l with
  | nil => simp [retain]
  | cons x xs ih =>
    by_cases hx : key x = k
    · rw [show retain key (x :: xs) k = retain key xs k by simp [retain, hx], ih, lookup_cons]
      by_cases hj : j = k
      · simp [hj]
      · rw [if_neg hj, if_neg hj, if_neg (fun h => hj (h.symm.trans hx))]
    · rw [show retain key (x :: xs) k = x :: retain key xs k by simp [retain, hx], lookup_cons,
        ih, lookup_cons]
      by_cases hj : key x = j
      · rw [if_pos hj, if_pos hj, if_neg (fun h => hx (hj.trans h))]
      · rw [if_neg hj, if_neg hj]

theorem lookup_replaceFirst (k : κ) (v : α) (hv : key v = k) (l : List α) (j : κ) :
    lookup key (replaceFirst key k v l) j =
      if j = k then (lookup key l k).map (fun _ => v) else lookup key l j := by
  induction l with
  | nil => simp [replaceFirst]
  | cons x xs ih =>
    by_cases hx : key x = k
    · rw [replaceFirst, if_pos hx, lookup_cons, lookup_cons, lookup_cons, if_pos hx, hv, hx]
      by_cases hj : k = j
      · simp [hj]
      · rw [if_neg hj, if_neg (Ne.symm hj), if_neg hj]
    · rw [replaceFirst, if_neg hx, lookup_cons, ih, lookup_cons, lookup_cons, if_neg hx]
      by_cases hj : key x = j
      · rw [if_pos hj, if_pos hj, if_neg (fun h => hx (hj.trans h))]
      · rw [if_neg hj, if_neg hj]

theorem lookup_perm {l m : List α} (hp : l.Perm m) (hn : (l.map key).Nodup) (k : κ) :
    lookup key l k = lookup key m k := by
  have hm : (m.map key).Nodup := (hp.map key).nodup_iff.mp hn
  apply Option.ext
  intro x
  rw [lookup_eq_some key hn, lookup_eq_some key hm, hp.mem_iff]

theorem nodup_retain {l : List α} (hn : (l.map key).Nodup) (k : κ) :
    ((retain key l k).map key).Nodup :=
  hn.sublist (List.filter_sublist.map key)

theorem map_key_replaceFirst (k : κ) (v : α) (hv : key v = k) (l : List α) :
    (replaceFirst key k v l).map key = l.map key := by
  induction l with
  | nil => rfl
  | cons x xs ih =>
    by_cases hx : key x = k
    · simp [replaceFirst, hx, hv]
    · simp [replaceFirst, hx, ih]

theorem nodup_push {l : List α} (hn : (l.map key).Nodup) {v : α}
    (hv : lookup key l (key v) = none) : ((l ++ [v]).map key).Nodup := by
  rw [List.map_append, List.nodup_append]
  refine ⟨hn, by simp, ?_⟩
  rw [lookup_eq_none] at hv
  simpa using hv

theorem lookup_map {β : Type*} (keyβ : β → κ) (f : α → β) (hf : ∀ x, keyβ (f x) = key x)
    (l : List α) (k : κ) : lookup keyβ (l.map f) k = (lookup key l k).map f := by
  induction l with
  | nil => rfl
  | cons x xs ih =>
    rw [List.map_cons, lookup_cons, lookup_cons, hf, ih]
    split <;> rfl

theorem lookup_map_key (f : α → α) (hf : ∀ x, key (f x) = key x) (l : List α) (k : κ) :
    lookup key (l.map f) k = (lookup key l k).map f := lookup_map key key f hf l k

omit [DecidableEq κ] in
theorem nodup_map_key (f : α → α) (hf : ∀ x, key (f x) = key x) {l : List α}
    (hn : (l.map key).Nodup) : ((l.map f).map key).Nodup := by
  rw [List.map_map]
  simpa only [Function.comp_def, hf] using hn

/-- When `p` picks the entry under `k`, rewriting the first match rewrites that entry. -/
theorem modifyFirst_eq_map {p : α → Bool} (f : α → α) {k : κ} {l : List α}
    (hn : (l.map key).Nodup) (hp : ∀ x ∈ l, p x ↔ key x = k) :
    modifyFirst p f l = l.map fun x => if key x = k then f x else x := by
  induction l with
  | nil => rfl
  | cons x xs ih =>
    rw [List.map_cons, List.nodup_cons] at hn
    have hx := hp x List.mem_cons_self
    have htail := ih hn.2 fun y hy => hp y (List.mem_cons_of_mem x hy)
    by_cases hk : key x = k
    · have hrest : (xs.map fun x => if key x = k then f x else x) = xs := by
        conv_rhs => rw [← List.map_id xs]
        apply List.map_congr_left
        intro y hy
        have hy' : key y ≠ k := fun h => hn.1 (hk ▸ h ▸ List.mem_map_of_mem hy)
        rw [if_neg hy', id_eq]
      rw [modifyFirst, if_pos (hx.mpr hk), List.map_cons, if_pos hk, hrest]
    · rw [modifyFirst, if_neg fun h => hk (hx.mp h), List.map_cons, if_neg hk, htail]

theorem lookup_sort {r : α → α → Prop} [DecidableRel r] {l : List α}
    (hn : (l.map key).Nodup) (k : κ) :
    lookup key (l.insertionSort r) k = lookup key l k :=
  (lookup_perm key (List.perm_insertionSort r l).symm hn k).symm

end Lookup

section SlotwiseFold
variable {σ α κ ρ μ : Type*}

/-- A loop whose step at `x` rewrites only the slot `key x`, from what that slot holds, and logs
from it: when no key comes twice, every slot ends as its own step leaves it. -/
theorem foldl_slotwise [DecidableEq κ] (key : α → κ) (slot : σ → κ → ρ) (log : σ → List μ)
    (step : σ → α → σ) (next : α → ρ → ρ) (emit : α → ρ → List μ)
    (hslot : ∀ s x, slot (step s x) (key x) = next x (slot s (key x)))
    (hframe : ∀ s x k, k ≠ key x → slot (step s x) k = slot s k)
    (hlog : ∀ s x, log (step s x) = log s ++ emit x (slot s (key x)))
    (xs : List α) (hn : (xs.map key).Nodup) (s : σ) :
    (∀ k, slot (xs.foldl step s) k =
      (lookup key xs k).elim (slot s k) fun x => next x (slot s k)) ∧
    log (xs.foldl step s) = log s ++ xs.flatMap fun x => emit x (slot s (key x)) := by
  induction xs generalizing s with
  | nil => simp
  | cons x xs ih =>
    rw [List.map_cons, List.nodup_cons] at hn
    obtain ⟨ihs, ihl⟩ := ih hn.2 (step s x)
    constructor
    · intro k
      rw [List.foldl_cons, ihs k, lookup_cons]
      by_cases hk : key x = k
      · subst hk
        have hx : lookup key xs (key x) = none := by
          rw [lookup_eq_none]
          exact fun y hy hyx => hn.1 (hyx ▸ List.mem_map_of_mem hy)
        rw [hx, if_pos rfl]
        exact hslot s x
      · rw [if_neg hk, hframe s x k (Ne.symm hk)]
    · rw [List.foldl_cons, ihl, hlog, List.flatMap_cons, List.append_assoc]
      congr 2
      apply List.flatMap_congr
      intro y hy
      rw [hframe s x (key y) fun h => hn.1 (h ▸ List.mem_map_of_mem hy)]

end SlotwiseFold

end Rustango.Keyed
