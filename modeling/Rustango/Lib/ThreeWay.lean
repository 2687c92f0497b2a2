import Mathlib.Data.List.Dedup
import Mathlib.Data.String.Basic
import Rustango.Lib.Keyed

/-!
# Three-way merge

One object against its common base, then a list of keyed objects: what the merge of two
branches should hold, and the keyed merge loop that computes it.
-/

namespace Rustango.ThreeWay

open Rustango.Keyed

section Object
variable {α : Type*} [BEq α]

/-- Both sides moved away from the base, to different values. -/
def Conflict (b o t : α) : Prop := (t == b) = false ∧ (o == b) = false ∧ (o == t) = false

instance (b o t : α) : Decidable (Conflict b o t) := inferInstanceAs (Decidable (_ ∧ _ ∧ _))

/-- Theirs where it moved away from the base, ours elsewhere. -/
def merged (b o t : α) : α := if t == b then o else t

theorem merged_of_beq {b o t : α} (h : (t == b) = true) : merged b o t = o := by
  simp [merged, h]

theorem merged_of_not_beq {b o t : α} (h : (t == b) = false) : merged b o t = t := by
  simp [merged, h]

theorem not_conflict_of_beq {b o t : α} (h : (t == b) = true) : ¬ Conflict b o t := by
  simp [Conflict, h]

end Object

section KeyedMerge
variable {α : Type*} [BEq α] (key : α → String)

/-- One key of `mergeKeyed`: the entry lands in `ours`, or its key is a conflict. -/
def mergeStep (base theirs : List α) (acc : List α × List String) (k : String) :
    List α × List String :=
  let b := lookup key base k
  let t := lookup key theirs k
  let o := lookup key acc.1 k
  if t == b then acc
  else if !(o == b) && !(o == t) then (acc.1, acc.2 ++ [k])
  else match t, o with
    | some t, some _ => (replaceFirst key k t acc.1, acc.2)
    | some t, none => (acc.1 ++ [t], acc.2)
    | none, _ => (retain key acc.1 k, acc.2)

/-- Three-way merge by `key`: each entry `theirs` added, changed or dropped since `base` lands
in `ours`. Also the keys `ours` changed differently, which stay as `ours` has them. -/
def mergeKeyed (base ours theirs : List α) : List α × List String :=
  let keys := (((base ++ theirs).map key).insertionSort (· ≤ ·)).dedup
  keys.foldl (mergeStep key base theirs) (ours, [])

/-- What the step leaves under its own key. -/
def mergeSlot (b o t : Option α) : Option α := if Conflict b o t then o else merged b o t

variable {key} {base theirs : List α}

private theorem mergeStep_slot (acc : List α × List String) (k : String) :
    lookup key (mergeStep key base theirs acc k).1 k =
      mergeSlot (lookup key base k) (lookup key acc.1 k) (lookup key theirs k) := by
  unfold mergeStep mergeSlot
  by_cases htb : (lookup key theirs k == lookup key base k) = true
  · rw [if_neg (not_conflict_of_beq htb), merged_of_beq htb]
    simp [htb]
  · rw [Bool.not_eq_true] at htb
    by_cases hc : Conflict (lookup key base k) (lookup key acc.1 k) (lookup key theirs k)
    · simp [htb, hc, hc.2.1, hc.2.2]
    · have hno : (!(lookup key acc.1 k == lookup key base k) &&
          !(lookup key acc.1 k == lookup key theirs k)) = false := by
        simp only [Conflict, htb, true_and, not_and, Bool.not_eq_false] at hc
        cases h : lookup key acc.1 k == lookup key base k with
        | true => rfl
        | false => simp [hc h]
      rw [if_neg hc, merged_of_not_beq htb]
      simp only [htb, hno]
      cases ht : lookup key theirs k with
      | none => simp [lookup_retain]
      | some t =>
        have hk := lookup_key key ht
        cases ho : lookup key acc.1 k with
        | none => simp [lookup_append, ho, lookup_cons, hk]
        | some o => simp [lookup_replaceFirst key k t hk, ho]

private theorem mergeStep_frame (acc : List α × List String) (k j : String) (hj : j ≠ k) :
    lookup key (mergeStep key base theirs acc k).1 j = lookup key acc.1 j := by
  unfold mergeStep
  dsimp only
  split
  · rfl
  · split
    · rfl
    · split
      · rename_i t _ ht _
        rw [lookup_replaceFirst key k t (lookup_key key ht), if_neg hj]
      · rename_i t ht _
        have hk := lookup_key key ht
        rw [lookup_append, lookup_cons, hk, if_neg (Ne.symm hj)]
        simp
      · rw [lookup_retain, if_neg hj]

private theorem mergeStep_log (acc : List α × List String) (k : String) :
    (mergeStep key base theirs acc k).2 = acc.2 ++
      if Conflict (lookup key base k) (lookup key acc.1 k) (lookup key theirs k)
      then [k] else [] := by
  unfold mergeStep
  dsimp only
  split
  · rename_i h
    simp [not_conflict_of_beq h]
  · rename_i h
    rw [Bool.not_eq_true] at h
    split
    · rename_i h'
      simp only [Bool.and_eq_true, Bool.not_eq_true'] at h'
      rw [if_pos ⟨h, h'⟩]
    · rename_i h'
      simp only [Bool.and_eq_true, Bool.not_eq_true'] at h'
      rw [if_neg fun hc => h' hc.2]
      split <;> simp

private theorem mergeStep_nodup (acc : List α × List String) (k : String)
    (hn : (acc.1.map key).Nodup) :
    ((mergeStep key base theirs acc k).1.map key).Nodup := by
  unfold mergeStep
  dsimp only
  split
  · exact hn
  · split
    · exact hn
    · split
      · rename_i t _ ht _
        rwa [map_key_replaceFirst key k t (lookup_key key ht)]
      · rename_i t ht ho
        exact nodup_push key hn (by rwa [lookup_key key ht])
      · exact nodup_retain key hn k

private theorem mergeKeyed_run (ours : List α) :
    (∀ k, lookup key (mergeKeyed key base ours theirs).1 k =
      mergeSlot (lookup key base k) (lookup key ours k) (lookup key theirs k)) ∧
    ∀ k, k ∈ (mergeKeyed key base ours theirs).2 ↔
      Conflict (lookup key base k) (lookup key ours k) (lookup key theirs k) := by
  have hmem : ∀ k, k ∉ (((base ++ theirs).map key).insertionSort (· ≤ ·)).dedup →
      lookup key base k = none ∧ lookup key theirs k = none := by
    intro k hk
    rw [List.mem_dedup, List.mem_insertionSort, List.map_append, List.mem_append, not_or] at hk
    rw [← lookup_isSome, ← lookup_isSome] at hk
    simpa using hk
  obtain ⟨hslot, hlog⟩ := foldl_slotwise (fun k : String => k)
    (fun (s : List α × List String) k => lookup key s.1 k) (fun s => s.2)
    (mergeStep key base theirs)
    (fun k o => mergeSlot (lookup key base k) o (lookup key theirs k))
    (fun k o => if Conflict (lookup key base k) o (lookup key theirs k) then [k] else [])
    mergeStep_slot (fun s x k hk => mergeStep_frame s x k hk) mergeStep_log
    (((base ++ theirs).map key).insertionSort (· ≤ ·)).dedup
    (by simpa using List.nodup_dedup _) (ours, [])
  constructor
  · intro k
    refine (hslot k).trans ?_
    cases h : lookup (fun k : String => k)
        (((base ++ theirs).map key).insertionSort (· ≤ ·)).dedup k with
    | some j =>
      have hj : j = k := lookup_key (fun k : String => k) h
      subst hj
      rfl
    | none =>
      have hk := hmem k fun hk => (lookup_eq_none _).mp h k hk rfl
      simp [mergeSlot, merged, Conflict, hk]
  · intro k
    change k ∈ (List.foldl _ (ours, []) _).2 ↔ _
    rw [hlog]
    simp only [List.nil_append, List.mem_flatMap]
    constructor
    · rintro ⟨j, -, hj⟩
      split at hj
      · rename_i hc
        rw [List.mem_singleton.mp hj]
        exact hc
      · cases hj
    · intro hc
      by_cases hk : k ∈ (((base ++ theirs).map key).insertionSort (· ≤ ·)).dedup
      · exact ⟨k, hk, by simp [hc]⟩
      · have h := hmem k hk
        simp [Conflict, h] at hc

theorem lookup_mergeKeyed (ours : List α) (k : String) :
    lookup key (mergeKeyed key base ours theirs).1 k =
      mergeSlot (lookup key base k) (lookup key ours k) (lookup key theirs k) :=
  (mergeKeyed_run ours).1 k

theorem mem_conflicts_mergeKeyed (ours : List α) (k : String) :
    k ∈ (mergeKeyed key base ours theirs).2 ↔
      Conflict (lookup key base k) (lookup key ours k) (lookup key theirs k) :=
  (mergeKeyed_run ours).2 k

theorem conflicts_mergeKeyed_eq_nil (ours : List α) :
    (mergeKeyed key base ours theirs).2 = [] ↔
      ∀ k, ¬ Conflict (lookup key base k) (lookup key ours k) (lookup key theirs k) := by
  rw [List.eq_nil_iff_forall_not_mem]
  exact forall_congr' fun k => not_congr (mem_conflicts_mergeKeyed ours k)

theorem nodup_mergeKeyed {ours : List α} (hn : (ours.map key).Nodup) :
    ((mergeKeyed key base ours theirs).1.map key).Nodup := by
  unfold mergeKeyed
  generalize (((base ++ theirs).map key).insertionSort (· ≤ ·)).dedup = keys
  suffices h : ∀ acc : List α × List String, (acc.1.map key).Nodup →
      ((keys.foldl (mergeStep key base theirs) acc).1.map key).Nodup from h (ours, []) hn
  induction keys with
  | nil => exact fun acc h => h
  | cons k ks ih => exact fun acc h => ih _ (mergeStep_nodup acc k h)

theorem mergeSlot_of_not_conflict {b o t : Option α} (h : ¬ Conflict b o t) :
    mergeSlot b o t = merged b o t := by
  simp [mergeSlot, h]

end KeyedMerge

end Rustango.ThreeWay
