import Mathlib.Logic.Function.Basic
import Rustango.Lib.Keyed

/-!
# Runs over slots

A store of named slots, the operations that create, drop and alter one of them, and runs of
partial steps. The phase rule is for a list of operations that works on one slot after another.
-/

namespace Rustango.Slots

open Function Rustango.Keyed

section Slot
variable {κ α : Type*} [DecidableEq κ]

/-- A new slot; fails when the name is taken. -/
def create (f : κ → Option α) (k : κ) (v : α) : Option (κ → Option α) :=
  match f k with
  | none => some (update f k (some v))
  | some _ => none

/-- A slot taken away; fails when it is not there. -/
def drop (f : κ → Option α) (k : κ) : Option (κ → Option α) :=
  (f k).map fun _ => update f k none

/-- A slot rewritten; fails when it is not there or the rewriting fails. -/
def alter (f : κ → Option α) (k : κ) (g : α → Option α) : Option (κ → Option α) :=
  ((f k).bind g).map fun v => update f k (some v)

variable {f : κ → Option α} {k : κ}

theorem create_of_none (h : f k = none) (v : α) : create f k v = some (update f k (some v)) := by
  simp [create, h]

theorem create_eq_some {v : α} {f' : κ → Option α} :
    create f k v = some f' ↔ f k = none ∧ f' = update f k (some v) := by
  cases h : f k with
  | none => simp [create, h, eq_comm]
  | some _ => simp [create, h]

theorem drop_of_some {v : α} (h : f k = some v) : drop f k = some (update f k none) := by
  simp [drop, h]

theorem drop_eq_some {f' : κ → Option α} :
    drop f k = some f' ↔ (f k).isSome ∧ f' = update f k none := by
  cases h : f k with
  | none => simp [drop, h]
  | some _ => simp [drop, h, eq_comm]

theorem alter_of_some {v w : α} {g : α → Option α} (h : f k = some v) (hg : g v = some w) :
    alter f k g = some (update f k (some w)) := by
  simp [alter, h, hg]

theorem alter_eq_some {g : α → Option α} {f' : κ → Option α} :
    alter f k g = some f' ↔ ∃ v w, f k = some v ∧ g v = some w ∧ f' = update f k (some w) := by
  cases h : f k with
  | none => simp [alter, h]
  | some v => cases hg : g v <;> simp [alter, h, hg, eq_comm]

end Slot

section Move
variable {κ α : Type*} [DecidableEq κ]

/-- `new` where the name is `old`. -/
def swap (old new x : κ) : κ := if x = old then new else x

/-- The slots with the one under `old` moved to `new`. -/
def moveSlot (old new : κ) (f : κ → Option α) : κ → Option α := update (update f old none) new (f old)

theorem moveSlot_apply (old new : κ) (f : κ → Option α) (k : κ) :
    moveSlot old new f k = if k = new then f old else if k = old then none else f k := by
  by_cases hn : k = new
  · simp [moveSlot, hn]
  · rw [moveSlot, update_of_ne hn, if_neg hn]
    by_cases ho : k = old
    · rw [ho, update_self, if_pos rfl]
    · rw [update_of_ne ho, if_neg ho]

theorem swap_of_ne {old new x : κ} (h : x ≠ old) : swap old new x = x := if_neg h

/-- Renaming the keys of a list moves the slot, when the new name is free. -/
theorem lookup_map_move (key : α → κ) {old new : κ} (f : α → α)
    (hf : ∀ x, key (f x) = swap old new (key x)) {l : List α} (hnew : lookup key l new = none)
    (k : κ) : lookup key (l.map f) k = moveSlot old new (fun j => (lookup key l j).map f) k := by
  induction l with
  | nil => simp [moveSlot_apply]
  | cons x xs ih =>
    rw [lookup_cons] at hnew
    have hx : key x ≠ new := by
      intro h
      simp [h] at hnew
    rw [if_neg hx] at hnew
    rw [List.map_cons, lookup_cons, ih hnew, hf, moveSlot_apply, moveSlot_apply, lookup_cons,
      lookup_cons]
    by_cases hxo : key x = old
    · rw [show swap old new (key x) = new from if_pos hxo]
      by_cases hk : k = new
      · simp [hk, hxo]
      · by_cases hko : k = old
        · rw [if_neg (Ne.symm hk), if_neg hk, if_pos hko, if_neg hk, if_pos hko]
        · rw [if_neg (Ne.symm hk), if_neg hk, if_neg hko, if_neg hk, if_neg hko,
            if_neg fun h => hko (h.symm.trans hxo)]
    · rw [swap_of_ne hxo]
      by_cases hk : key x = k
      · subst hk
        simp [hx, hxo]
      · rw [if_neg hk, if_neg hk, if_neg hxo]

theorem nodup_map_swap (old : κ) {new : κ} {l : List κ} (hn : l.Nodup) (hnew : new ∉ l) :
    (l.map (swap old new)).Nodup := by
  rw [List.nodup_map_iff_inj_on hn]
  intro x hx y hy h
  have hxn : x ≠ new := fun h => hnew (h ▸ hx)
  have hyn : y ≠ new := fun h => hnew (h ▸ hy)
  unfold swap at h
  split at h <;> rename_i hxo <;> split at h <;> rename_i hyo
  · exact hxo.trans hyo.symm
  · exact absurd h.symm hyn
  · exact absurd h hxn
  · exact h

end Move

section Run
variable {σ op : Type*} (step : σ → op → Option σ)

/-- The operations one after another, stopping at the first that fails. -/
def run (s : σ) : List op → Option σ
  | [] => some s
  | o :: os => (step s o).bind fun s' => run s' os

@[simp] theorem run_nil (s : σ) : run step s [] = some s := rfl

theorem run_cons (s : σ) (o : op) (os : List op) :
    run step s (o :: os) = (step s o).bind fun s' => run step s' os := rfl

theorem run_singleton (s : σ) (o : op) : run step s [o] = step s o := by
  cases h : step s o <;> simp [run_cons, h]

theorem run_append (s : σ) (os os' : List op) :
    run step s (os ++ os') = (run step s os).bind fun s' => run step s' os' := by
  induction os generalizing s with
  | nil => rfl
  | cons o os ih =>
    rw [List.cons_append, run_cons, run_cons, Option.bind_assoc]
    congr 1
    funext s'
    exact ih s'

variable {step}

theorem run_append_of {s s' s'' : σ} {os os' : List op} (h : run step s os = some s')
    (h' : run step s' os' = some s'') : run step s (os ++ os') = some s'' := by
  rw [run_append, h]
  exact h'

theorem run_cons_of {s s' s'' : σ} {o : op} {os : List op} (h : step s o = some s')
    (h' : run step s' os = some s'') : run step s (o :: os) = some s'' := by
  rw [run_cons, h]
  exact h'

variable (step) in
/-- A phase: each item's operations move its own slot, and only that, to its new value. -/
theorem run_phase {β κ ρ : Type*} [DecidableEq κ] (set : (κ → ρ) → σ) (key : β → κ) (new : β → ρ)
    (ops : β → List op) (items : List β) (hn : (items.map key).Nodup) (f : κ → ρ)
    (h : ∀ g x, x ∈ items → g (key x) = f (key x) →
      run step (set g) (ops x) = some (set (update g (key x) (new x)))) :
    run step (set f) (items.flatMap ops) =
      some (set fun k => (lookup key items k).elim (f k) new) := by
  induction items generalizing f with
  | nil => rfl
  | cons x xs ih =>
    rw [List.map_cons, List.nodup_cons] at hn
    have hhead := h f x List.mem_cons_self rfl
    have htail := ih hn.2 (update f (key x) (new x)) fun g y hy hg => by
      have hne : key y ≠ key x := fun hk => hn.1 (hk ▸ List.mem_map_of_mem hy)
      rw [update_of_ne hne] at hg
      exact h g y (List.mem_cons_of_mem x hy) hg
    rw [List.flatMap_cons, run_append_of hhead htail]
    congr 2
    funext k
    rw [lookup_cons]
    by_cases hk : key x = k
    · subst hk
      have hx : lookup key xs (key x) = none := by
        rw [lookup_eq_none]
        exact fun y hy hyx => hn.1 (hyx ▸ List.mem_map_of_mem hy)
      simp [hx]
    · rw [if_neg hk, update_of_ne (Ne.symm hk)]

end Run

section KeyedDiff
variable {σ op α κ : Type*} [DecidableEq κ] [DecidableEq α] {step : σ → op → Option σ}
variable (set : (κ → Option α) → σ) (key : α → κ) (prev cur : List α)

/-- The slots that stay as they were. -/
def kept (was now : κ → Option α) (k : κ) : Option α := if now k = was k then was k else none

variable {prev cur} (hprev : (prev.map key).Nodup) (hcur : (cur.map key).Nodup)

include hprev in
/-- Dropping every entry that goes or changes leaves the slots that stay. -/
theorem run_drops (dropOp : α → op)
    (hdrop : ∀ f x, x ∈ prev → f (key x) = some x →
      step (set f) (dropOp x) = some (set (update f (key x) none))) :
    run step (set (lookup key prev)) (prev.flatMap fun x =>
      if lookup key cur (key x) = some x then [] else [dropOp x]) =
      some (set (kept (lookup key prev) (lookup key cur))) := by
  have h := run_phase step set key
    (fun x => if lookup key cur (key x) = some x then some x else none) (fun x =>
      if lookup key cur (key x) = some x then [] else [dropOp x]) prev hprev (lookup key prev)
    fun f x hx hf => by
      have hfx : f (key x) = some x := hf.trans (lookup_of_mem key hprev hx)
      by_cases hk : lookup key cur (key x) = some x
      · simp only [if_pos hk, run_nil]
        rw [← hfx, update_eq_self]
      · simp only [if_neg hk, run_singleton]
        exact hdrop f x hx hfx
  rw [h]
  congr 2
  funext k
  cases hk : lookup key prev k with
  | none => simp [kept, hk]
  | some x =>
    have hx := lookup_key key hk
    subst hx
    simp [kept, hk]

include hprev in
/-- The create halves of the entries that changed. -/
theorem run_recreates (addOp : α → op) {f : κ → Option α}
    (hf : ∀ x ∈ prev, f (key x) = kept (lookup key prev) (lookup key cur) (key x))
    (hadd : ∀ g x, x ∈ cur → g (key x) = none →
      step (set g) (addOp x) = some (set (update g (key x) (some x)))) :
    run step (set f) (prev.flatMap fun x =>
      if lookup key cur (key x) = some x then [] else ((lookup key cur (key x)).map addOp).toList) =
      some (set fun k => if (lookup key prev k).isSome then lookup key cur k else f k) := by
  have h := run_phase step set key (fun x => lookup key cur (key x)) (fun x =>
      if lookup key cur (key x) = some x then []
      else ((lookup key cur (key x)).map addOp).toList) prev hprev f
    fun g x hx hg => by
      have hgx := hg.trans (hf x hx)
      rw [kept, lookup_of_mem key hprev hx] at hgx
      by_cases hk : lookup key cur (key x) = some x
      · rw [if_pos hk] at hgx
        simp only [if_pos hk, run_nil]
        rw [hk, ← hgx, update_eq_self]
      · rw [if_neg hk] at hgx
        simp only [if_neg hk]
        cases hc : lookup key cur (key x) with
        | none =>
          have hself : update g (key x) none = g := by rw [← hgx, update_eq_self]
          rw [hself]
          rfl
        | some c =>
          have hck := lookup_key key hc
          rw [Option.map_some, Option.toList_some, run_singleton,
            hadd g c (mem_of_lookup key hc) (by rw [hck, hgx]), hck]
  rw [h]
  congr 2
  funext k
  cases hk : lookup key prev k with
  | none => simp
  | some x => simp [lookup_key key hk]

include hcur in
omit [DecidableEq α] in
/-- The entries whose key is new. -/
theorem run_news (addOp : α → op) {f : κ → Option α}
    (hf : ∀ x ∈ cur, lookup key prev (key x) = none → f (key x) = none)
    (hadd : ∀ g x, x ∈ cur → g (key x) = none →
      step (set g) (addOp x) = some (set (update g (key x) (some x)))) :
    run step (set f) (cur.flatMap fun x =>
      if (lookup key prev (key x)).isNone then [addOp x] else []) =
      some (set fun k =>
        if (lookup key prev k).isNone ∧ (lookup key cur k).isSome then lookup key cur k else f k) := by
  have h := run_phase step set key
    (fun x => if (lookup key prev (key x)).isNone then some x else f (key x)) (fun x =>
      if (lookup key prev (key x)).isNone then [addOp x] else []) cur hcur f
    fun g x hx hg => by
      by_cases hk : (lookup key prev (key x)).isNone = true
      · simp only [if_pos hk, run_singleton]
        exact hadd g x hx (hg.trans (hf x hx (Option.isNone_iff_eq_none.mp hk)))
      · simp only [if_neg hk, run_nil]
        rw [← hg, update_eq_self]
  rw [h]
  congr 2
  funext k
  cases hk : lookup key cur k with
  | none => simp
  | some x =>
    have hx := lookup_key key hk
    subst hx
    simp

/-- The slots once the new ones are added to those that stay. -/
def withNew (was now : κ → Option α) (k : κ) : Option α :=
  if (was k).isNone ∧ (now k).isSome then now k else kept was now k

/-- The slots once the changed ones are back. -/
def withChanged (was now : κ → Option α) (k : κ) : Option α :=
  if (was k).isSome then now k else kept was now k

variable {addOp : α → op} (hadd : ∀ g x, x ∈ cur → g (key x) = none →
  step (set g) (addOp x) = some (set (update g (key x) (some x))))
include hadd

include hcur in
theorem run_news_kept : run step (set (kept (lookup key prev) (lookup key cur))) (cur.flatMap fun x =>
    if (lookup key prev (key x)).isNone then [addOp x] else []) =
    some (set (withNew (lookup key prev) (lookup key cur))) :=
  run_news set key hcur addOp (fun x _ hx => by simp [kept, hx]) hadd

include hcur in
theorem run_news_withChanged :
    run step (set (withChanged (lookup key prev) (lookup key cur))) (cur.flatMap fun x =>
      if (lookup key prev (key x)).isNone then [addOp x] else []) =
      some (set (lookup key cur)) := by
  rw [run_news set key hcur addOp (fun x _ hx => by simp [withChanged, kept, hx]) hadd]
  congr 2
  funext k
  cases hp : lookup key prev k <;> cases hc : lookup key cur k <;> simp [withChanged, kept, hp, hc]

include hprev in
theorem run_recreates_kept :
    run step (set (kept (lookup key prev) (lookup key cur))) (prev.flatMap fun x =>
      if lookup key cur (key x) = some x then [] else ((lookup key cur (key x)).map addOp).toList) =
      some (set (withChanged (lookup key prev) (lookup key cur))) :=
  run_recreates set key hprev addOp (fun _ _ => rfl) hadd

include hprev in
theorem run_recreates_withNew :
    run step (set (withNew (lookup key prev) (lookup key cur))) (prev.flatMap fun x =>
      if lookup key cur (key x) = some x then [] else ((lookup key cur (key x)).map addOp).toList) =
      some (set (lookup key cur)) := by
  rw [run_recreates set key hprev addOp (fun x hx => by
    simp [withNew, lookup_of_mem key hprev hx]) hadd]
  congr 2
  funext k
  cases hp : lookup key prev k <;> cases hc : lookup key cur k <;> simp [withNew, kept, hp, hc]

end KeyedDiff

end Rustango.Slots
