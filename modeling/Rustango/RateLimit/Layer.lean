import Mathlib.Algebra.Order.Field.Rat
import Mathlib.Algebra.Order.Floor.Defs
import Mathlib.Data.Rat.Floor
import Mathlib.Tactic.Linarith
import Mathlib.Tactic.Positivity
import Rustango.Lib.Keyed

/-!
# The rate limiter

One token bucket for each key, in a map of bounded size. A full bucket and a missing one answer the same,
so the map may lose the full ones; beyond that it loses the fullest. Tokens and time are exact.
-/

namespace Rustango.RateLimit

open Rustango

structure RateLimitLayer where
  capacity : Nat
  refillPeriod : ℚ
  maxBuckets : Nat
  /-- `max_buckets` makes 0 a 1. -/
  maxBuckets_pos : 0 < maxBuckets

structure Bucket where
  tokens : ℚ
  lastRefill : ℚ
deriving DecidableEq, Repr

/-- The buckets by key. -/
structure Store where
  entries : List (String × Bucket)
  nodup : (entries.map Prod.fst).Nodup

namespace Store
variable (store : Store)

def empty : Store := ⟨[], List.nodup_nil⟩

def len : Nat := store.entries.length

def get (key : String) : Option Bucket := (Keyed.lookup Prod.fst store.entries key).map Prod.snd

def remove (key : String) : Store :=
  ⟨Keyed.retain Prod.fst store.entries key, Keyed.nodup_retain Prod.fst store.nodup key⟩

def retain (keep : Bucket → Bool) : Store :=
  ⟨store.entries.filter fun e => keep e.2, store.nodup.sublist (List.filter_sublist.map _)⟩

def insert (key : String) (b : Bucket) : Store :=
  if h : Keyed.lookup Prod.fst store.entries key = none then
    ⟨store.entries ++ [(key, b)], Keyed.nodup_push Prod.fst store.nodup h⟩
  else
    ⟨Keyed.replaceFirst Prod.fst key (key, b) store.entries, by
      rw [Keyed.map_key_replaceFirst Prod.fst key (key, b) rfl]
      exact store.nodup⟩

variable {store} {key j : String} {b : Bucket}

@[simp] theorem get_empty : empty.get key = none := rfl

theorem get_eq_some : store.get key = some b ↔ (key, b) ∈ store.entries := by
  rw [get, Option.map_eq_some_iff]
  constructor
  · intro h
    obtain ⟨e, he, hb⟩ := h
    have hkey := Keyed.lookup_key Prod.fst he
    rw [← hkey, ← hb]
    exact Keyed.mem_of_lookup Prod.fst he
  · intro h
    exact ⟨_, Keyed.lookup_of_mem Prod.fst store.nodup h, rfl⟩

theorem get_remove : (store.remove key).get j = if j = key then none else store.get j := by
  rw [get, remove, Keyed.lookup_retain]
  split <;> rfl

theorem get_retain {keep : Bucket → Bool} :
    (store.retain keep).get j = (store.get j).filter keep := by
  apply Option.ext
  intro b
  rw [Option.filter_eq_some_iff, get_eq_some, get_eq_some]
  simp [retain]

theorem get_insert : (store.insert key b).get j = if j = key then some b else store.get j := by
  unfold insert
  split
  · rename_i hnone
    rw [get, Keyed.lookup_append, Keyed.lookup_cons]
    by_cases hj : j = key
    · subst hj
      simp [hnone]
    · simp [hj, Ne.symm hj, get]
  · rename_i hsome
    rw [get, Keyed.lookup_replaceFirst Prod.fst key (key, b) rfl]
    by_cases hj : j = key
    · obtain ⟨e, he⟩ := Option.ne_none_iff_exists'.mp hsome
      simp [hj, he]
    · simp [hj, get]

theorem len_remove : (store.remove key).len = store.len - if (store.get key).isSome then 1 else 0 := by
  have hkeys : (store.remove key).entries.map Prod.fst = (store.entries.map Prod.fst).erase key := by
    rw [store.nodup.erase_eq_filter, List.filter_map]
    simp [remove, Keyed.retain, Function.comp_def, bne, beq_eq_decide]
  have hlen := congrArg List.length hkeys
  rw [List.length_map, List.length_erase, List.length_map] at hlen
  rw [len, hlen]
  by_cases hmem : key ∈ store.entries.map Prod.fst
  · have hsome := (Keyed.lookup_isSome Prod.fst).mpr hmem
    simp [hmem, get, hsome, len]
  · have hnone : (Keyed.lookup Prod.fst store.entries key).isSome = false := by
      rw [Bool.eq_false_iff]
      exact fun h => hmem ((Keyed.lookup_isSome Prod.fst).mp h)
    simp [hmem, get, hnone, len]

theorem len_insert : (store.insert key b).len =
    store.len + if (store.get key).isSome then 0 else 1 := by
  unfold insert
  split
  · rename_i hnone
    simp [len, get, hnone]
  · rename_i hsome
    have hlen := congrArg List.length (Keyed.map_key_replaceFirst Prod.fst key (key, b) rfl store.entries)
    simp only [List.length_map] at hlen
    simp [len, get, hlen, Option.isSome_iff_ne_none, hsome]

theorem get_removeAll {keys : List String} :
    (keys.foldl remove store).get j = if j ∈ keys then none else store.get j := by
  induction keys generalizing store with
  | nil => simp
  | cons k ks ih =>
    rw [List.foldl_cons, ih, get_remove]
    by_cases hk : j = k <;> simp [hk]

theorem len_removeAll {keys : List String} (hnodup : keys.Nodup)
    (hkeys : ∀ k ∈ keys, (store.get k).isSome) :
    (keys.foldl remove store).len = store.len - keys.length := by
  induction keys generalizing store with
  | nil => simp
  | cons k ks ih =>
    rw [List.nodup_cons] at hnodup
    have hrest : ∀ x ∈ ks, ((store.remove k).get x).isSome := by
      intro x hx
      have hne : x ≠ k := fun h => hnodup.1 (h ▸ hx)
      rw [get_remove, if_neg hne]
      exact hkeys x (List.mem_cons_of_mem _ hx)
    rw [List.foldl_cons, ih hnodup.2 hrest, len_remove, hkeys k List.mem_cons_self, if_pos rfl,
      List.length_cons]
    omega

end Store

namespace RateLimitLayer
variable (layer : RateLimitLayer)

/-- `f64::MAX`. -/
def maxRate : ℚ := (2 ^ 53 - 1) * 2 ^ 971

def ratePerSec : ℚ :=
  if layer.refillPeriod = 0 then maxRate else layer.capacity / layer.refillPeriod

/-- `duration_since` is zero for a moment in the past. -/
def elapsed (b : Bucket) (now : ℚ) : ℚ := max (now - b.lastRefill) 0

/-- What the bucket would hold if it were touched now. -/
def projected (b : Bucket) (now : ℚ) : ℚ :=
  min (b.tokens + elapsed b now * layer.ratePerSec) layer.capacity

/-- Seconds until a bucket holding `tokens` has one to spend. -/
def retryAfter (tokens : ℚ) : Nat :=
  max 1 (if 0 < layer.ratePerSec then min (2 ^ 64 - 1) ⌈(1 - tokens) / layer.ratePerSec⌉.toNat
    else ⌊layer.refillPeriod⌋.toNat)

end RateLimitLayer

/-- An unstable sort, the fullest first: equals come in any order. -/
structure ByFullness where
  sort : List (ℚ × String) → List (ℚ × String)
  perm : ∀ l, (sort l).Perm l
  sorted : ∀ l, (sort l).Pairwise fun x y => y.1 ≤ x.1

namespace RateLimitLayer
variable (layer : RateLimitLayer)

/-- The sweep: every bucket that is full now goes. -/
def sweep (store : Store) (now : ℚ) : Store :=
  store.retain fun b => layer.projected b now < layer.capacity

/-- What a sweep leaves free for new keys. -/
def lowWater : Nat := layer.maxBuckets - max (layer.maxBuckets / 8) 1

/-- The fullest buckets, as many as are too many. -/
def evicted (order : ByFullness) (store : Store) (now : ℚ) : List String :=
  ((order.sort (store.entries.map fun e => (layer.projected e.2 now, e.1))).take
    (store.len - layer.lowWater)).map Prod.snd

def makeRoom (order : ByFullness) (store : Store) (now : ℚ) : Store :=
  if store.len < layer.maxBuckets then store
  else
    let store := layer.sweep store now
    let excess := store.len - layer.lowWater
    if excess = 0 then store
    else (layer.evicted order store now).foldl Store.remove store

/-- A successful take has the tokens that remain and no time to wait. -/
def take (order : ByFullness) (store : Store) (key : String) (now : ℚ) :
    Except Nat (Nat × Nat) × Store :=
  let store := if (store.get key).isSome then store else layer.makeRoom order store now
  let bucket := (store.get key).getD ⟨layer.capacity, now⟩
  let tokens := layer.projected bucket now
  if 1 ≤ tokens then (.ok (⌊tokens - 1⌋.toNat, 0), store.insert key ⟨tokens - 1, now⟩)
  else (.error (layer.retryAfter tokens), store.insert key ⟨tokens, now⟩)

def peek (store : Store) (key : String) (now : ℚ) : Except Nat Unit :=
  match store.get key with
  | none => .ok ()
  | some b =>
    let tokens := layer.projected b now
    if 1 ≤ tokens then .ok () else .error (layer.retryAfter tokens)

def giveBack (store : Store) (key : String) : Store :=
  match store.get key with
  | none => store
  | some b => store.insert key { b with tokens := min (b.tokens + 1) layer.capacity }

/-- What a key may spend; a missing bucket is a full one. -/
def levelAt (b : Option Bucket) (t : ℚ) : ℚ :=
  match b with
  | none => layer.capacity
  | some b => layer.projected b t

/-- What `take` answers for what the key may spend. -/
def answer (tokens : ℚ) : Except Nat (Nat × Nat) :=
  if 1 ≤ tokens then .ok (⌊tokens - 1⌋.toNat, 0) else .error (layer.retryAfter tokens)

/-- The bucket that `take` leaves. -/
def spent (tokens now : ℚ) : Bucket := if 1 ≤ tokens then ⟨tokens - 1, now⟩ else ⟨tokens, now⟩

variable {layer} {store : Store} {order : ByFullness} {b : Bucket} {key j : String} {now t u : ℚ}

theorem elapsed_nonneg (b : Bucket) (now : ℚ) : 0 ≤ elapsed b now := le_max_right _ _

theorem elapsed_mono (b : Bucket) (htu : t ≤ u) : elapsed b t ≤ elapsed b u :=
  max_le_max_right 0 (sub_le_sub_right htu _)

theorem elapsed_of_le (h : b.lastRefill ≤ now) : elapsed b now = now - b.lastRefill :=
  max_eq_left (sub_nonneg.mpr h)

theorem ratePerSec_nonneg (hperiod : 0 ≤ layer.refillPeriod) : 0 ≤ layer.ratePerSec := by
  unfold ratePerSec maxRate
  split
  · norm_num
  · positivity

theorem ratePerSec_of_pos (hperiod : 0 < layer.refillPeriod) :
    layer.ratePerSec = layer.capacity / layer.refillPeriod := if_neg hperiod.ne'

theorem projected_le_capacity (b : Bucket) (t : ℚ) : layer.projected b t ≤ layer.capacity :=
  min_le_right _ _

theorem levelAt_le_capacity (layer : RateLimitLayer) (b : Option Bucket) (t : ℚ) : layer.levelAt b t ≤ layer.capacity := by
  cases b with
  | none => exact le_refl _
  | some b => exact projected_le_capacity b t

theorem projected_mono (hrate : 0 ≤ layer.ratePerSec) (b : Bucket) (htu : t ≤ u) :
    layer.projected b t ≤ layer.projected b u :=
  min_le_min_right _ (add_le_add_right (mul_le_mul_of_nonneg_right (elapsed_mono b htu) hrate) _)

theorem projected_of_full (hrate : 0 ≤ layer.ratePerSec) (hfull : layer.capacity ≤ layer.projected b t)
    (htu : t ≤ u) : layer.projected b u = layer.capacity :=
  le_antisymm (projected_le_capacity b u) (hfull.trans (projected_mono hrate b htu))

theorem projected_later (hrate : 0 ≤ layer.ratePerSec) (hb : b.lastRefill ≤ t) (htu : t ≤ u) :
    layer.projected b u = min (layer.projected b t + (u - t) * layer.ratePerSec) layer.capacity := by
  have hflow : 0 ≤ (u - t) * layer.ratePerSec := mul_nonneg (sub_nonneg.mpr htu) hrate
  have hsum : (u - b.lastRefill) * layer.ratePerSec =
      (t - b.lastRefill) * layer.ratePerSec + (u - t) * layer.ratePerSec := by ring
  unfold projected
  rw [elapsed_of_le hb, elapsed_of_le (hb.trans htu), hsum]
  grind

theorem levelAt_giveBack (hrate : 0 ≤ layer.ratePerSec) (store : Store) (key : String) (t : ℚ) :
    layer.levelAt ((layer.giveBack store key).get key) t =
      min (layer.levelAt (store.get key) t + 1) layer.capacity := by
  unfold giveBack
  cases hget : store.get key with
  | none => simp [hget, levelAt]
  | some b =>
    have hflow : 0 ≤ elapsed b t * layer.ratePerSec := mul_nonneg (elapsed_nonneg b t) hrate
    have helapsed : elapsed { b with tokens := min (b.tokens + 1) layer.capacity } t = elapsed b t := rfl
    simp only [Store.get_insert, if_true, levelAt, projected, helapsed]
    grind

theorem get_giveBack_ne (h : j ≠ key) : (layer.giveBack store key).get j = store.get j := by
  unfold giveBack
  split
  · rfl
  · rw [Store.get_insert, if_neg h]

theorem levelAt_spent (layer : RateLimitLayer) (tokens now : ℚ) (ht : now ≤ t) :
    layer.levelAt (some (spent tokens now)) t =
      min ((if 1 ≤ tokens then tokens - 1 else tokens) + (t - now) * layer.ratePerSec)
        layer.capacity := by
  unfold spent
  split <;> simp [levelAt, projected, elapsed, sub_nonneg.mpr ht]

theorem get_sweep : (layer.sweep store now).get j =
    (store.get j).filter fun b => layer.projected b now < layer.capacity := Store.get_retain

theorem lowWater_lt (layer : RateLimitLayer) : layer.lowWater < layer.maxBuckets := by
  have hpos := layer.maxBuckets_pos
  have hone : 1 ≤ max (layer.maxBuckets / 8) 1 := le_max_right _ _
  unfold lowWater
  omega

theorem ranked_perm (order : ByFullness) (store : Store) (now : ℚ) :
    (order.sort (store.entries.map fun e => (layer.projected e.2 now, e.1))).map Prod.snd |>.Perm
      (store.entries.map Prod.fst) := by
  have hperm := (order.perm (store.entries.map fun e => (layer.projected e.2 now, e.1))).map Prod.snd
  simpa only [List.map_map, Function.comp_def] using hperm

theorem evicted_sublist : (layer.evicted order store now).Sublist
    ((order.sort (store.entries.map fun e => (layer.projected e.2 now, e.1))).map Prod.snd) :=
  (List.take_sublist _ _).map _

theorem evicted_nodup : (layer.evicted order store now).Nodup :=
  ((ranked_perm order store now).nodup_iff.mpr store.nodup).sublist evicted_sublist

theorem get_of_evicted (h : j ∈ layer.evicted order store now) : (store.get j).isSome := by
  have hmem := (ranked_perm order store now).mem_iff.mp (evicted_sublist.subset h)
  rw [Store.get, Option.isSome_map]
  exact (Keyed.lookup_isSome Prod.fst).mpr hmem

theorem length_evicted : (layer.evicted order store now).length = store.len - layer.lowWater := by
  have hlen := (order.perm (store.entries.map fun e => (layer.projected e.2 now, e.1))).length_eq
  rw [List.length_map] at hlen
  simp only [evicted, List.length_map, List.length_take, hlen, Store.len]
  omega

theorem len_makeRoom (layer : RateLimitLayer) (order : ByFullness) (store : Store) (now : ℚ) :
    (layer.makeRoom order store now).len < layer.maxBuckets := by
  have hlow := layer.lowWater_lt
  unfold makeRoom
  dsimp only
  split
  · assumption
  · split
    · omega
    · rw [Store.len_removeAll evicted_nodup fun k hk => get_of_evicted hk, length_evicted]
      omega

theorem len_take (hlen : store.len ≤ layer.maxBuckets) :
    (layer.take order store key now).2.len ≤ layer.maxBuckets := by
  have hroom := len_makeRoom layer order store now
  unfold take
  dsimp only
  cases hget : (store.get key).isSome with
  | true =>
    simp only [if_true]
    split <;> simp [Store.len_insert, hget, hlen]
  | false =>
    simp only [Bool.false_eq_true, if_false]
    split <;> (rw [Store.len_insert]; split <;> omega)

theorem len_giveBack : (layer.giveBack store key).len = store.len := by
  unfold giveBack
  cases hget : store.get key with
  | none => rfl
  | some b => simp [Store.len_insert, hget]

/-- A bucket that goes was full, or among the fullest of those that were not. -/
theorem get_makeRoom (layer : RateLimitLayer) (order : ByFullness) (store : Store) (now : ℚ) (j : String) :
    (layer.makeRoom order store now).get j = store.get j ∨
      (layer.makeRoom order store now).get j = none ∧ ∃ b, store.get j = some b ∧
        (layer.capacity ≤ layer.projected b now ∨
          j ∈ layer.evicted order (layer.sweep store now) now) := by
  have hsweep : (layer.sweep store now).get j = store.get j ∨
      (layer.sweep store now).get j = none ∧
        ∃ b, store.get j = some b ∧ layer.capacity ≤ layer.projected b now := by
    rw [get_sweep]
    cases hget : store.get j with
    | none => simp
    | some b =>
      by_cases hfull : layer.projected b now < layer.capacity
      · simp [hfull]
      · exact .inr ⟨by simpa using hfull, b, rfl, not_lt.mp hfull⟩
  unfold makeRoom
  dsimp only
  split
  · exact .inl rfl
  · split
    · rcases hsweep with hsame | ⟨hnone, b, hb, hfull⟩
      · exact .inl hsame
      · exact .inr ⟨hnone, b, hb, .inl hfull⟩
    · rw [Store.get_removeAll]
      by_cases hmem : j ∈ layer.evicted order (layer.sweep store now) now
      · rw [if_pos hmem]
        have hsome := get_of_evicted hmem
        rw [get_sweep] at hsome
        obtain ⟨b, hb⟩ := Option.isSome_iff_exists.mp hsome
        exact .inr ⟨rfl, b, (Option.filter_eq_some_iff.mp hb).1, .inr hmem⟩
      · rw [if_neg hmem]
        rcases hsweep with hsame | ⟨hnone, b, hb, hfull⟩
        · exact .inl hsame
        · exact .inr ⟨hnone, b, hb, .inl hfull⟩

/-- The buckets that stay are no fuller than those that are evicted. -/
theorem projected_le_of_evicted {c : Bucket} (hj : j ∈ layer.evicted order store now)
    (hb : store.get j = some b) (hkey : key ∉ layer.evicted order store now)
    (hc : store.get key = some c) : layer.projected c now ≤ layer.projected b now := by
  let rank := order.sort (store.entries.map fun e => (layer.projected e.2 now, e.1))
  have hperm : rank.Perm (store.entries.map fun e => (layer.projected e.2 now, e.1)) := order.perm _
  have hrank : ∀ x ∈ rank, ∃ d, store.get x.2 = some d ∧ x.1 = layer.projected d now := by
    intro x hx
    obtain ⟨e, he, hex⟩ := List.mem_map.mp (hperm.mem_iff.mp hx)
    exact ⟨e.2, Store.get_eq_some.mpr (hex ▸ he), by rw [← hex]⟩
  obtain ⟨x, hx, hxj⟩ := List.mem_map.mp hj
  have hkept : (layer.projected c now, key) ∈ rank.drop (store.len - layer.lowWater) := by
    have hmem : (layer.projected c now, key) ∈ rank :=
      hperm.mem_iff.mpr (List.mem_map.mpr ⟨_, Store.get_eq_some.mp hc, rfl⟩)
    rw [← List.take_append_drop (store.len - layer.lowWater) rank] at hmem
    rcases List.mem_append.mp hmem with htake | hdrop
    · exact absurd (List.mem_map.mpr ⟨_, htake, rfl⟩) hkey
    · exact hdrop
  have hsorted := order.sorted (store.entries.map fun e => (layer.projected e.2 now, e.1))
  rw [← List.take_append_drop (store.len - layer.lowWater) (order.sort _),
    List.pairwise_append] at hsorted
  have hle := hsorted.2.2 x hx _ hkept
  obtain ⟨d, hd, hxd⟩ := hrank x (List.mem_of_mem_take hx)
  rw [hxj, hb] at hd
  rw [Option.some.inj hd, ← hxd]
  exact hle

/-- What `make_room` evicts holds no less than what it keeps. -/
theorem makeRoom_evicts_fullest {c : Bucket} (hb : store.get j = some b)
    (hgone : (layer.makeRoom order store now).get j = none)
    (hc : (layer.makeRoom order store now).get key = some c) :
    layer.projected c now ≤ layer.projected b now := by
  by_cases hfull : layer.capacity ≤ layer.projected b now
  · exact (projected_le_capacity c now).trans hfull
  · have hstay : (layer.sweep store now).get j = some b := by
      rw [get_sweep, hb]
      simp [not_le.mp hfull]
    unfold makeRoom at hgone hc
    dsimp only at hgone hc
    split at hgone
    · rw [hb] at hgone
      cases hgone
    · rename_i hlen
      rw [if_neg hlen] at hc
      split at hgone
      · rw [hstay] at hgone
        cases hgone
      · rename_i hexcess
        rw [if_neg hexcess, Store.get_removeAll] at hc
        rw [Store.get_removeAll] at hgone
        split at hgone
        · rename_i hmem
          split at hc
          · cases hc
          · rename_i hkept
            exact projected_le_of_evicted hmem hstay hkept hc
        · rw [hstay] at hgone
          cases hgone

/-- The map that a take works on. -/
def roomFor (layer : RateLimitLayer) (order : ByFullness) (store : Store) (key : String) (now : ℚ) :
    Store :=
  if (store.get key).isSome then store else layer.makeRoom order store now

theorem get_roomFor_self : (layer.roomFor order store key now).get key = store.get key := by
  unfold roomFor
  split
  · rfl
  · rename_i hnone
    have hget : store.get key = none := by simpa using hnone
    rcases get_makeRoom layer order store now key with hsame | ⟨hgone, _, hb, _⟩
    · exact hsame
    · rw [hgone, hget]

theorem take_eq (layer : RateLimitLayer) (order : ByFullness) (store : Store) (key : String) (now : ℚ) :
    layer.take order store key now =
      (layer.answer (layer.levelAt (store.get key) now),
        (layer.roomFor order store key now).insert key
          (spent (layer.levelAt (store.get key) now) now)) := by
  have hlevel : layer.projected (((layer.roomFor order store key now).get key).getD
      ⟨layer.capacity, now⟩) now = layer.levelAt (store.get key) now := by
    rw [get_roomFor_self]
    cases store.get key with
    | none => simp [levelAt, projected, elapsed]
    | some b => rfl
  unfold take
  dsimp only
  rw [show (if (store.get key).isSome then store else layer.makeRoom order store now) =
    layer.roomFor order store key now from rfl, hlevel]
  unfold answer spent
  split <;> rfl

theorem peek_eq_answer (hcap : 0 < layer.capacity) (store : Store) (key : String) (now : ℚ) :
    layer.peek store key now =
      (layer.answer (layer.levelAt (store.get key) now)).map fun _ => () := by
  have hone : (1 : ℚ) ≤ layer.capacity := Nat.one_le_cast.mpr hcap
  unfold peek answer
  cases store.get key with
  | none => simp [levelAt, hone, Except.map]
  | some b =>
    by_cases htokens : 1 ≤ layer.projected b now <;> simp [levelAt, htokens, Except.map]

theorem peek_eq_take (hcap : 0 < layer.capacity) (order : ByFullness) (store : Store) (key : String)
    (now : ℚ) : layer.peek store key now = (layer.take order store key now).1.map fun _ => () := by
  rw [take_eq, peek_eq_answer hcap]

end RateLimitLayer

end Rustango.RateLimit
