import Mathlib.Logic.Function.Basic
import Rustango.Lib.Runs
import Rustango.Lib.TokenBucket
import Rustango.RateLimit.Layer

/-!
# Calls on the rate limiter

A `take` reads the clock, waits for the lock, then updates its bucket; the lock goes to the waiting calls
in any order. Beside the map stand, for each key, the moment of its last update, the tokens taken and
given back, and the answers.
-/

namespace Rustango.RateLimit

open Function Rustango.Runs Rustango.TokenBucket

inductive Answer where
  | took (answer : Except Nat (Nat × Nat))
  | peeked (answer : Except Nat Unit)

structure State where
  clock : ℚ
  /-- The calls of `take` that wait for the lock: the key of each and what it read of the clock. -/
  waiting : List (String × ℚ)
  store : Store
  /-- The last take's reading, the moment of the last `give_back`, or the reading of the take that
  dropped the bucket. -/
  updated : String → ℚ
  marks : String → List (Mark ℚ)
  answers : String → List Answer

def State.initial (clock : ℚ) : State where
  clock := clock
  waiting := []
  store := .empty
  updated _ := clock
  marks _ := []
  answers _ := []

inductive Event where
  | tick (d : ℚ)
  | call (key : String)
  | grant (i : Nat) (order : ByFullness)
  | peek (key : String)
  | giveBack (key : String)

/-- A take leaves the queue, and a key whose bucket it dropped counts as updated. -/
def State.grant (layer : RateLimitLayer) (s : State) (i : Nat) (order : ByFullness) (key : String)
    (now : ℚ) : State :=
  let taken := layer.take order s.store key now
  { s with
    waiting := s.waiting.eraseIdx i
    store := taken.2
    updated := fun j =>
      if j = key then now
      else if (s.store.get j).isSome ∧ (taken.2.get j).isNone then max (s.updated j) now
      else s.updated j
    marks := if taken.1.isOk then update s.marks key (.taken now :: s.marks key) else s.marks
    answers := update s.answers key (.took taken.1 :: s.answers key) }

def State.giveBack (layer : RateLimitLayer) (s : State) (key : String) : State :=
  { s with
    store := layer.giveBack s.store key
    updated := if (s.store.get key).isSome then update s.updated key s.clock else s.updated
    marks := update s.marks key (.given s.clock :: s.marks key) }

def RateLimitLayer.step (layer : RateLimitLayer) : Event → State → Option State
  | .tick d, s => if 0 ≤ d then some { s with clock := s.clock + d } else none
  | .call key, s => some { s with waiting := s.waiting ++ [(key, s.clock)] }
  | .grant i order, s => (s.waiting[i]?).map fun call => s.grant layer i order call.1 call.2
  | .peek key, s =>
    some { s with
      answers := update s.answers key (.peeked (layer.peek s.store key s.clock) :: s.answers key) }
  | .giveBack key, s => some (s.giveBack layer key)

/-- A take gets the lock with a reading that is no older than the last update of its key. -/
def Orderly : Event → State → Prop
  | .grant i _, s => ∀ call ∈ s.waiting[i]?, s.updated call.1 ≤ call.2
  | _, _ => True

/-- The bucket of the key is not evicted while it is partly spent. -/
def RateLimitLayer.Keeps (layer : RateLimitLayer) (key : String) : Event → State → Prop
  | .grant i order, s => ∀ call ∈ s.waiting[i]?,
    layer.levelAt (s.store.get key) call.2 < layer.capacity →
      (layer.roomFor order s.store call.1 call.2).get key = s.store.get key
  | _, _ => True

/-- The steps of a run in which a key is not evicted while partly spent. -/
def RateLimitLayer.Allowed (layer : RateLimitLayer) (key : String) (e : Event) (s : State) : Prop :=
  Orderly e s ∧ layer.Keeps key e s

/-- A take that read `now` swept the bucket of the key. -/
def State.drop (s : State) (key : String) (now : ℚ) : State :=
  { s with
    store := s.store.remove key
    updated := update s.updated key (max (s.updated key) now) }

/-- What the limiter owes a key. -/
structure Sound (layer : RateLimitLayer) (key : String) (s : State) : Prop where
  /-- No interval holds more takes than the capacity, the refill and what was given back in it. -/
  bound : ∀ t u, t ≤ u → (taken (s.marks key) t u : ℚ) ≤
    layer.capacity + (u - t) * (layer.capacity / layer.refillPeriod) + given (s.marks key) t u
  peek : ∀ order, (layer.peek s.store key s.clock).isOk = (layer.take order s.store key s.clock).1.isOk
  /-- Nothing that comes after a sweep tells whether a full bucket was dropped by it. -/
  sweep : ∀ j b now, s.store.get j = some b → now ≤ s.clock →
    layer.capacity ≤ layer.projected b now →
      ∀ events u u', Along layer.step (layer.Allowed key) events s u →
        Along layer.step (layer.Allowed key) events (s.drop j now) u' → u.answers key = u'.answers key
  len : s.store.len ≤ layer.maxBuckets
  evicts : ∀ order now i j b c, s.store.get j = some b →
    (layer.makeRoom order s.store now).get j = none →
    (layer.makeRoom order s.store now).get i = some c → layer.projected c now ≤ layer.projected b now

section Step
variable {layer : RateLimitLayer} {s u : State} {e : Event} {i : Nat} {order : ByFullness}
  {key j : String} {now t : ℚ}

@[simp] theorem grant_get_self : ((s.grant layer i order key now).store.get key) =
    some (RateLimitLayer.spent (layer.levelAt (s.store.get key) now) now) := by
  simp [State.grant, RateLimitLayer.take_eq, Store.get_insert]

private theorem grant_get_ne (hj : j ≠ key) : (s.grant layer i order key now).store.get j =
    (layer.roomFor order s.store key now).get j := by
  simp [State.grant, RateLimitLayer.take_eq, Store.get_insert, hj]

private theorem grant_other (hj : j ≠ key)
    (hkeeps : layer.levelAt (s.store.get j) now < layer.capacity →
      (layer.roomFor order s.store key now).get j = s.store.get j) :
    ((s.grant layer i order key now).store.get j = s.store.get j ∧
      (s.grant layer i order key now).updated j = s.updated j) ∨
    ((s.grant layer i order key now).store.get j = none ∧
      (s.grant layer i order key now).updated j = max (s.updated j) now ∧
      layer.levelAt (s.store.get j) now = layer.capacity) := by
  have hget : (s.grant layer i order key now).store.get j =
      (layer.roomFor order s.store key now).get j := grant_get_ne hj
  have hupdated : (s.grant layer i order key now).updated j =
      if (s.store.get j).isSome ∧ ((s.grant layer i order key now).store.get j).isNone then
        max (s.updated j) now
      else s.updated j := by
    simp [State.grant, hj]
  by_cases hsame : (layer.roomFor order s.store key now).get j = s.store.get j
  · left
    rw [hupdated, hget, hsame]
    cases s.store.get j <;> simp
  · right
    have hfull : layer.levelAt (s.store.get j) now = layer.capacity :=
      le_antisymm (RateLimitLayer.levelAt_le_capacity _ _ _) (not_lt.mp fun h => hsame (hkeeps h))
    have hroom : (layer.roomFor order s.store key now).get j = none ∧ (s.store.get j).isSome := by
      unfold RateLimitLayer.roomFor at hsame ⊢
      split at hsame
      · exact absurd rfl hsame
      · rename_i hnone
        rw [if_neg hnone]
        rcases RateLimitLayer.get_makeRoom layer order s.store now j with
          heq | ⟨hgone, b, hb, _⟩
        · exact absurd heq hsame
        · exact ⟨hgone, by simp [hb]⟩
    refine ⟨hget.trans hroom.1, ?_, hfull⟩
    rw [hupdated, hget, hroom.1]
    simp [hroom.2]

private theorem grant_updated_self : (s.grant layer i order key now).updated key = now := by
  simp [State.grant]

private theorem grant_marks_ne (hj : j ≠ key) : (s.grant layer i order key now).marks j = s.marks j := by
  unfold State.grant
  dsimp only
  split
  · exact update_of_ne hj _ _
  · rfl

private theorem grant_marks_self : (s.grant layer i order key now).marks key =
    if 1 ≤ layer.levelAt (s.store.get key) now then .taken now :: s.marks key else s.marks key := by
  by_cases hone : 1 ≤ layer.levelAt (s.store.get key) now <;>
    simp [State.grant, RateLimitLayer.take_eq, RateLimitLayer.answer, hone, Except.isOk, Except.toBool]

private theorem levelAt_later (hrate : 0 ≤ layer.ratePerSec) {o : Option Bucket} {v : ℚ}
    (hlast : ∀ b ∈ o, b.lastRefill ≤ t) (htv : t ≤ v) :
    layer.levelAt o v = min (layer.levelAt o t + (v - t) * layer.ratePerSec) layer.capacity := by
  cases o with
  | none =>
    have hflow : 0 ≤ (v - t) * layer.ratePerSec := mul_nonneg (sub_nonneg.mpr htv) hrate
    simp only [RateLimitLayer.levelAt]
    exact (min_eq_right (le_add_of_nonneg_right hflow)).symm
  | some b => exact RateLimitLayer.projected_later hrate (hlast b rfl) htv

private theorem levelAt_of_full (hrate : 0 ≤ layer.ratePerSec) {o : Option Bucket} {v : ℚ}
    (hfull : layer.levelAt o t = layer.capacity) (htv : t ≤ v) :
    layer.levelAt o v = layer.capacity := by
  cases o with
  | none => rfl
  | some b => exact RateLimitLayer.projected_of_full hrate hfull.ge htv

end Step

/-- The bucket of a key as it was at its last update, for the bound. -/
def RateLimitLayer.limit (layer : RateLimitLayer) (hrate : 0 ≤ layer.ratePerSec) : Limit ℚ where
  capacity := layer.capacity
  rate := layer.ratePerSec
  rate_nonneg := hrate

def State.bucket (layer : RateLimitLayer) (s : State) (key : String) : TokenBucket.Bucket ℚ :=
  ⟨s.updated key, layer.levelAt (s.store.get key) (s.updated key)⟩

/-- What holds of a key along an orderly run. -/
structure Inv (layer : RateLimitLayer) (hrate : 0 ≤ layer.ratePerSec) (key : String) (s : State) :
    Prop where
  waiting : ∀ call ∈ s.waiting, call.2 ≤ s.clock
  past : s.updated key ≤ s.clock
  last : ∀ b ∈ s.store.get key, b.lastRefill ≤ s.updated key
  accounts : Accounts (layer.limit hrate) (s.bucket layer key) (s.marks key)
  len : s.store.len ≤ layer.maxBuckets

section Invariant
variable {layer : RateLimitLayer} {hrate : 0 ≤ layer.ratePerSec} {s u : State} {e : Event} {i : Nat}
  {order : ByFullness} {key j : String} {now : ℚ}

theorem Inv.initial (clock : ℚ) : Inv layer hrate key (.initial clock) where
  waiting := by simp [State.initial]
  past := le_refl _
  last := by simp [State.initial]
  accounts := Accounts.start (layer.limit hrate) (Nat.cast_nonneg layer.capacity) clock
  len := Nat.zero_le _

theorem Inv.accounts_at (h : Inv layer hrate key s) {t : ℚ} (ht : s.updated key ≤ t) :
    Accounts (layer.limit hrate) ⟨t, layer.levelAt (s.store.get key) t⟩ (s.marks key) := by
  have hadvance := h.accounts.advance (t := t) ht
  rw [levelAt_later hrate h.last ht]
  exact hadvance

theorem Inv.grant_self (h : Inv layer hrate key s) (hnow : s.updated key ≤ now) :
    Accounts (layer.limit hrate) ((s.grant layer i order key now).bucket layer key)
      ((s.grant layer i order key now).marks key) := by
  have hat := h.accounts_at hnow
  have hlevel := RateLimitLayer.levelAt_spent layer (layer.levelAt (s.store.get key) now) now
    (t := now) le_rfl
  have hcap := RateLimitLayer.levelAt_le_capacity layer (s.store.get key) now
  rw [sub_self, zero_mul, add_zero] at hlevel
  rw [State.bucket, grant_updated_self, grant_get_self, grant_marks_self, hlevel]
  by_cases hone : 1 ≤ layer.levelAt (s.store.get key) now
  · rw [if_pos hone, if_pos hone, min_eq_left (by linarith)]
    exact hat.spend hone
  · rw [if_neg hone, if_neg hone, min_eq_left hcap]
    exact hat

theorem Inv.grant_other (h : Inv layer hrate j s) (hj : j ≠ key)
    (hkeeps : layer.levelAt (s.store.get j) now < layer.capacity →
      (layer.roomFor order s.store key now).get j = s.store.get j) :
    (∀ b ∈ (s.grant layer i order key now).store.get j,
        b.lastRefill ≤ (s.grant layer i order key now).updated j) ∧
      Accounts (layer.limit hrate) ((s.grant layer i order key now).bucket layer j)
        ((s.grant layer i order key now).marks j) := by
  rw [State.bucket, grant_marks_ne hj]
  rcases RateLimit.grant_other (i := i) hj hkeeps with ⟨hget, hupdated⟩ | ⟨hget, hupdated, hfull⟩
  · rw [hget, hupdated]
    exact ⟨h.last, h.accounts⟩
  · rw [hget, hupdated]
    have hat := h.accounts_at (t := max (s.updated j) now) (le_max_left _ _)
    rw [levelAt_of_full hrate hfull (le_max_right _ _)] at hat
    exact ⟨by simp, hat⟩

theorem Inv.grant (h : Inv layer hrate key s) (hcall : s.waiting[i]? = some (j, now))
    (horderly : s.updated j ≤ now)
    (hkeeps : layer.levelAt (s.store.get key) now < layer.capacity →
      (layer.roomFor order s.store j now).get key = s.store.get key) :
    Inv layer hrate key (s.grant layer i order j now) := by
  have hnow : now ≤ s.clock := h.waiting _ (List.mem_of_getElem? hcall)
  have hwaiting : ∀ call ∈ (s.grant layer i order j now).waiting, call.2 ≤ s.clock :=
    fun call hmem => h.waiting call (List.mem_of_mem_eraseIdx hmem)
  have hlen : (s.grant layer i order j now).store.len ≤ layer.maxBuckets :=
    RateLimitLayer.len_take h.len
  by_cases hj : key = j
  · subst hj
    refine ⟨hwaiting, ?_, ?_, h.grant_self horderly, hlen⟩
    · rw [grant_updated_self]
      exact hnow
    · rw [grant_updated_self, grant_get_self]
      intro b hb
      rw [← Option.some.inj hb]
      unfold RateLimitLayer.spent
      split <;> exact le_rfl
  · obtain ⟨hlast, haccounts⟩ := h.grant_other (i := i) hj hkeeps
    refine ⟨hwaiting, ?_, hlast, haccounts, hlen⟩
    rcases RateLimit.grant_other (i := i) hj hkeeps with ⟨_, hupdated⟩ | ⟨_, hupdated, _⟩
    · rw [hupdated]
      exact h.past
    · rw [hupdated]
      exact max_le h.past hnow

theorem Inv.giveBack (h : Inv layer hrate key s) : Inv layer hrate key (s.giveBack layer j) := by
  have hlen : (s.giveBack layer j).store.len ≤ layer.maxBuckets :=
    RateLimitLayer.len_giveBack.trans_le h.len
  by_cases hj : key = j
  · subst hj
    cases hget : s.store.get key with
    | none =>
      have hsame : (s.giveBack layer key).store = s.store := by
        simp [State.giveBack, RateLimitLayer.giveBack, hget]
      have hupdated : (s.giveBack layer key).updated = s.updated := by simp [State.giveBack, hget]
      refine ⟨h.waiting, hupdated ▸ h.past, ?_, ?_, hlen⟩
      · rw [hsame, hupdated]
        exact h.last
      · have hmarks : (s.giveBack layer key).marks key = .given s.clock :: s.marks key := by
          simp [State.giveBack]
        rw [State.bucket, hsame, hupdated, hmarks]
        exact h.accounts.waste s.clock
    | some b =>
      have hupdated : (s.giveBack layer key).updated key = s.clock := by simp [State.giveBack, hget]
      have hmarks : (s.giveBack layer key).marks key = .given s.clock :: s.marks key := by
        simp [State.giveBack]
      have hlevel := RateLimitLayer.levelAt_giveBack hrate s.store key s.clock
      refine ⟨h.waiting, hupdated.le, ?_, ?_, hlen⟩
      · have hgiven : (s.giveBack layer key).store.get key =
            some { b with tokens := min (b.tokens + 1) layer.capacity } := by
          simp [State.giveBack, RateLimitLayer.giveBack, hget, Store.get_insert]
        rw [hupdated, hgiven]
        intro c hc
        rw [← Option.some.inj hc]
        exact (h.last b hget).trans h.past
      · rw [State.bucket, hupdated, hmarks]
        change Accounts (layer.limit hrate)
          ⟨s.clock, layer.levelAt ((layer.giveBack s.store key).get key) s.clock⟩ _
        rw [hlevel]
        exact (h.accounts_at h.past).refund
  · have hget : (s.giveBack layer j).store.get key = s.store.get key :=
      RateLimitLayer.get_giveBack_ne hj
    have hupdated : (s.giveBack layer j).updated key = s.updated key := by
      unfold State.giveBack
      dsimp only
      split
      · exact update_of_ne hj _ _
      · rfl
    have hmarks : (s.giveBack layer j).marks key = s.marks key := update_of_ne hj _ _
    refine ⟨h.waiting, hupdated ▸ h.past, ?_, ?_, hlen⟩
    · rw [hget, hupdated]
      exact h.last
    · rw [State.bucket, hget, hupdated, hmarks]
      exact h.accounts

theorem Inv.step (h : Inv layer hrate key s) (hok : layer.Allowed key e s)
    (hstep : layer.step e s = some u) : Inv layer hrate key u := by
  cases e with
  | tick d =>
    simp only [RateLimitLayer.step, Option.ite_none_right_eq_some, Option.some.injEq] at hstep
    obtain ⟨hd, rfl⟩ := hstep
    have hclock : s.clock ≤ s.clock + d := le_add_of_nonneg_right hd
    exact ⟨fun call hmem => (h.waiting call hmem).trans hclock, h.past.trans hclock, h.last,
      h.accounts, h.len⟩
  | call k =>
    obtain rfl := Option.some.inj hstep
    refine ⟨?_, h.past, h.last, h.accounts, h.len⟩
    intro call hmem
    rcases List.mem_append.mp hmem with hold | hnew
    · exact h.waiting call hold
    · rw [List.mem_singleton.mp hnew]
  | grant i order =>
    obtain ⟨call, hcall, rfl⟩ := Option.map_eq_some_iff.mp hstep
    exact h.grant hcall (hok.1 call hcall) (hok.2 call hcall)
  | peek k =>
    obtain rfl := Option.some.inj hstep
    exact ⟨h.waiting, h.past, h.last, h.accounts, h.len⟩
  | giveBack k =>
    obtain rfl := Option.some.inj hstep
    exact h.giveBack

/-- Two states that no later event tells apart by what it answers to a key. -/
structure Alike (layer : RateLimitLayer) (key : String) (s u : State) : Prop where
  clock : s.clock = u.clock
  waiting : s.waiting = u.waiting
  early : ∀ call ∈ s.waiting, call.2 ≤ s.clock
  past : s.updated key ≤ s.clock
  past' : u.updated key ≤ u.clock
  answers : s.answers key = u.answers key
  level : ∀ t, s.updated key ≤ t → u.updated key ≤ t →
    layer.levelAt (s.store.get key) t = layer.levelAt (u.store.get key) t

private theorem grant_level (hrate : 0 ≤ layer.ratePerSec) (hj : key ≠ j)
    (hkeeps : layer.levelAt (s.store.get key) now < layer.capacity →
      (layer.roomFor order s.store j now).get key = s.store.get key)
    {t : ℚ} (ht : (s.grant layer i order j now).updated key ≤ t) :
    s.updated key ≤ t ∧ layer.levelAt ((s.grant layer i order j now).store.get key) t =
      layer.levelAt (s.store.get key) t := by
  rcases RateLimit.grant_other (i := i) hj hkeeps with ⟨hget, hupdated⟩ | ⟨hget, hupdated, hfull⟩
  · rw [hupdated] at ht
    exact ⟨ht, by rw [hget]⟩
  · rw [hupdated] at ht
    have hnow : now ≤ t := (le_max_right _ _).trans ht
    refine ⟨(le_max_left _ _).trans ht, ?_⟩
    rw [hget, levelAt_of_full hrate hfull hnow]
    rfl

private theorem grant_past (hj : key ≠ j)
    (hkeeps : layer.levelAt (s.store.get key) now < layer.capacity →
      (layer.roomFor order s.store j now).get key = s.store.get key)
    (hpast : s.updated key ≤ s.clock) (hnow : now ≤ s.clock) :
    (s.grant layer i order j now).updated key ≤ s.clock := by
  rcases RateLimit.grant_other (i := i) hj hkeeps with ⟨_, hupdated⟩ | ⟨_, hupdated, _⟩
  · rw [hupdated]
    exact hpast
  · rw [hupdated]
    exact max_le hpast hnow

private theorem grant_answers_self : (s.grant layer i order key now).answers key =
    .took (layer.answer (layer.levelAt (s.store.get key) now)) :: s.answers key := by
  simp [State.grant, RateLimitLayer.take_eq]

theorem Alike.grant (h : Alike layer key s u) (hrate : 0 ≤ layer.ratePerSec)
    (hcall : s.waiting[i]? = some (j, now)) (hs : s.updated j ≤ now) (hu : u.updated j ≤ now)
    (hkeeps : layer.levelAt (s.store.get key) now < layer.capacity →
      (layer.roomFor order s.store j now).get key = s.store.get key)
    (hkeeps' : layer.levelAt (u.store.get key) now < layer.capacity →
      (layer.roomFor order u.store j now).get key = u.store.get key) :
    Alike layer key (s.grant layer i order j now) (u.grant layer i order j now) := by
  have hnow : now ≤ s.clock := h.early _ (List.mem_of_getElem? hcall)
  have hnow' : now ≤ u.clock := h.clock ▸ hnow
  have hwaiting : s.waiting.eraseIdx i = u.waiting.eraseIdx i := by rw [h.waiting]
  have hearly : ∀ call ∈ s.waiting.eraseIdx i, call.2 ≤ s.clock :=
    fun call hmem => h.early call (List.mem_of_mem_eraseIdx hmem)
  by_cases hj : key = j
  · subst hj
    have hlevel := h.level now hs hu
    refine ⟨h.clock, hwaiting, hearly, ?_, ?_, ?_, ?_⟩
    · rw [grant_updated_self]
      exact hnow
    · rw [grant_updated_self]
      exact hnow'
    · rw [grant_answers_self, grant_answers_self, hlevel, h.answers]
    · intro t _ _
      rw [grant_get_self, grant_get_self, hlevel]
  · refine ⟨h.clock, hwaiting, hearly, grant_past hj hkeeps h.past hnow,
      grant_past hj hkeeps' h.past' hnow', ?_, ?_⟩
    · change update _ _ _ key = update _ _ _ key
      rw [update_of_ne hj, update_of_ne hj]
      exact h.answers
    · intro t ht ht'
      have hleft := grant_level hrate hj hkeeps ht
      have hright := grant_level hrate hj hkeeps' ht'
      rw [hleft.2, hright.2]
      exact h.level t hleft.1 hright.1

private theorem giveBack_updated (layer : RateLimitLayer) (j : String) (hpast : s.updated key ≤ s.clock) :
    s.updated key ≤ (s.giveBack layer j).updated key ∧ (s.giveBack layer j).updated key ≤ s.clock := by
  unfold State.giveBack
  dsimp only
  split
  · by_cases hj : key = j
    · subst hj
      simp [hpast]
    · simp [hj, hpast]
  · exact ⟨le_rfl, hpast⟩

theorem Alike.giveBack (h : Alike layer key s u) (hrate : 0 ≤ layer.ratePerSec) :
    Alike layer key (s.giveBack layer j) (u.giveBack layer j) := by
  have hs := giveBack_updated layer j h.past
  have hu := giveBack_updated layer j h.past'
  refine ⟨h.clock, h.waiting, h.early, hs.2, hu.2, h.answers, ?_⟩
  intro t ht ht'
  have hlevel := h.level t (hs.1.trans ht) (hu.1.trans ht')
  change layer.levelAt ((layer.giveBack s.store j).get key) t =
    layer.levelAt ((layer.giveBack u.store j).get key) t
  by_cases hj : key = j
  · subst hj
    rw [RateLimitLayer.levelAt_giveBack hrate, RateLimitLayer.levelAt_giveBack hrate, hlevel]
  · rw [RateLimitLayer.get_giveBack_ne hj, RateLimitLayer.get_giveBack_ne hj, hlevel]

theorem Alike.peek (h : Alike layer key s u) (hcap : 0 < layer.capacity) :
    layer.peek s.store key s.clock = layer.peek u.store key u.clock := by
  have hlevel := h.level s.clock h.past (h.past'.trans h.clock.ge)
  rw [RateLimitLayer.peek_eq_answer hcap, RateLimitLayer.peek_eq_answer hcap, hlevel, h.clock]

theorem Alike.step (hrate : 0 ≤ layer.ratePerSec) (hcap : 0 < layer.capacity) {s' u' : State}
    (h : Alike layer key s u) (hok : layer.Allowed key e s) (hok' : layer.Allowed key e u)
    (hs : layer.step e s = some s') (hu : layer.step e u = some u') : Alike layer key s' u' := by
  cases e with
  | tick d =>
    simp only [RateLimitLayer.step, Option.ite_none_right_eq_some, Option.some.injEq] at hs hu
    obtain ⟨hd, rfl⟩ := hs
    obtain ⟨_, rfl⟩ := hu
    have hclock : s.clock ≤ s.clock + d := le_add_of_nonneg_right hd
    have hclock' : u.clock ≤ u.clock + d := le_add_of_nonneg_right hd
    exact ⟨by rw [h.clock], h.waiting, fun call hmem => (h.early call hmem).trans hclock,
      h.past.trans hclock, h.past'.trans hclock', h.answers, h.level⟩
  | call k =>
    obtain rfl := Option.some.inj hs
    obtain rfl := Option.some.inj hu
    refine ⟨h.clock, by rw [h.waiting, h.clock], ?_, h.past, h.past', h.answers, h.level⟩
    intro call hmem
    rcases List.mem_append.mp hmem with hold | hnew
    · exact h.early call hold
    · rw [List.mem_singleton.mp hnew]
  | grant i order =>
    obtain ⟨call, hcall, rfl⟩ := Option.map_eq_some_iff.mp hs
    obtain ⟨call', hcall', rfl⟩ := Option.map_eq_some_iff.mp hu
    obtain rfl : call = call' := Option.some.inj (hcall.symm.trans (h.waiting ▸ hcall'))
    exact h.grant hrate hcall (hok.1 call hcall) (hok'.1 call hcall') (hok.2 call hcall)
      (hok'.2 call hcall')
  | peek k =>
    obtain rfl := Option.some.inj hs
    obtain rfl := Option.some.inj hu
    refine ⟨h.clock, h.waiting, h.early, h.past, h.past', ?_, h.level⟩
    by_cases hk : key = k
    · subst hk
      simp [h.peek hcap, h.answers]
    · simp [hk, h.answers]
  | giveBack k =>
    obtain rfl := Option.some.inj hs
    obtain rfl := Option.some.inj hu
    exact h.giveBack hrate

theorem Inv.alike_drop (h : Inv layer hrate key s) {b : Bucket} (hb : s.store.get j = some b)
    (hnow : now ≤ s.clock) (hfull : layer.capacity ≤ layer.projected b now) :
    Alike layer key s (s.drop j now) := by
  by_cases hj : key = j
  · subst hj
    have hupdated : (s.drop key now).updated key = max (s.updated key) now := by simp [State.drop]
    have hget : (s.drop key now).store.get key = none := by simp [State.drop, Store.get_remove]
    refine ⟨rfl, rfl, h.waiting, h.past, hupdated.trans_le (max_le h.past hnow), rfl, ?_⟩
    intro t _ ht
    rw [hupdated] at ht
    rw [hget, hb]
    exact RateLimitLayer.projected_of_full hrate hfull ((le_max_right _ _).trans ht)
  · have hupdated : (s.drop j now).updated key = s.updated key := update_of_ne hj _ _
    have hget : (s.drop j now).store.get key = s.store.get key := by
      simp [State.drop, Store.get_remove, hj]
    refine ⟨rfl, rfl, h.waiting, h.past, hupdated.trans_le h.past, rfl, ?_⟩
    intro t _ _
    rw [hget]

/-- Along every orderly run the limiter is sound for each key that is not evicted while partly spent. -/
theorem orderly_run_sound (layer : RateLimitLayer) (hcap : 0 < layer.capacity)
    (hperiod : 0 < layer.refillPeriod) (key : String) (clock : ℚ) (s : State)
    (h : Reach layer.step (layer.Allowed key) (.initial clock) s) : Sound layer key s := by
  have hrate : 0 ≤ layer.ratePerSec := RateLimitLayer.ratePerSec_nonneg hperiod.le
  have hinv : Inv layer hrate key s :=
    h.invariant (.initial clock) fun _ _ _ hok hstep hinv => hinv.step hok hstep
  refine ⟨?_, ?_, ?_, hinv.len, ?_⟩
  · rw [← RateLimitLayer.ratePerSec_of_pos hperiod]
    exact hinv.accounts.bound
  · intro order
    rw [RateLimitLayer.peek_eq_take hcap order]
    cases (layer.take order s.store key s.clock).1 <;> rfl
  · intro j b now hb hnow hfull events u u' hu hu'
    have halike : Alike layer key u u' :=
      hu.related (fun _ _ _ _ _ halike hok hok' hs hs' => halike.step hrate hcap hok hok' hs hs') hu'
        (hinv.alike_drop hb hnow hfull)
    exact halike.answers
  · intro order now i j b c hb hgone hc
    exact RateLimitLayer.makeRoom_evicts_fullest hb hgone hc

end Invariant

private instance (e : Event) (s : State) : Decidable (Orderly e s) :=
  match e with
  | .grant i _ => inferInstanceAs (Decidable (∀ call ∈ s.waiting[i]?, s.updated call.1 ≤ call.2))
  | .tick _ | .call _ | .peek _ | .giveBack _ => .isTrue trivial

private instance (layer : RateLimitLayer) (key : String) (e : Event) (s : State) :
    Decidable (layer.Keeps key e s) :=
  match e with
  | .grant i order => inferInstanceAs (Decidable (∀ call ∈ s.waiting[i]?,
      layer.levelAt (s.store.get key) call.2 < layer.capacity →
        (layer.roomFor order s.store call.1 call.2).get key = s.store.get key))
  | .tick _ | .call _ | .peek _ | .giveBack _ => .isTrue trivial

private instance (layer : RateLimitLayer) (key : String) (e : Event) (s : State) :
    Decidable (layer.Allowed key e s) := inferInstanceAs (Decidable (_ ∧ _))

private def fullestFirst : ByFullness where
  sort l := l.mergeSort fun x y => decide (y.1 ≤ x.1)
  perm l := List.mergeSort_perm l _
  sorted l := by
    have h : (l.mergeSort fun x y => decide (y.1 ≤ x.1)).Pairwise
        fun x y => decide (y.1 ≤ x.1) = true := by
      apply List.pairwise_mergeSort
      · intro a b c hab hbc
        simp only [decide_eq_true_eq] at hab hbc ⊢
        exact le_trans hbc hab
      · intro a b
        simpa using le_total b.1 a.1
    simpa using h

private def onePerTen : RateLimitLayer := ⟨1, 10, 100000, by decide⟩

/-- A token is spent, given back, and spent again after a failed take. -/
private def refunded : List Event :=
  [.call "k", .call "k", .grant 0 fullestFirst, .grant 0 fullestFirst, .tick 3, .giveBack "k",
    .call "k", .grant 0 fullestFirst, .peek "k"]

theorem orderly_run_refunded : ∃ s, Reach onePerTen.step (onePerTen.Allowed "k") (.initial 0) s ∧
    taken (s.marks "k") 0 3 = 2 ∧ given (s.marks "k") 0 3 = 1 ∧ Sound onePerTen "k" s := by
  have hrun : (steps (guarded onePerTen.step (onePerTen.Allowed "k")) refunded (.initial 0)).map
      (fun s => (taken (s.marks "k") 0 3, given (s.marks "k") 0 3)) = some (2, 1) := by
    decide +kernel
  obtain ⟨s, hs, hobs⟩ := Option.map_eq_some_iff.mp hrun
  have hreach : Reach onePerTen.step (onePerTen.Allowed "k") (.initial 0) s := .of_guarded hs
  have hsound := orderly_run_sound onePerTen (by decide) (by decide) "k" 0 s hreach
  exact ⟨s, hreach, congrArg Prod.fst hobs, congrArg Prod.snd hobs, hsound⟩

/-- The second call gets the lock first; the first one, with its reading of 0, turns the bucket's
clock back, and the ten seconds count twice. -/
private def overtaken : List Event :=
  [.call "k", .tick 10, .call "k", .grant 1 fullestFirst, .grant 0 fullestFirst, .call "k",
    .grant 0 fullestFirst]

theorem overtaken_unsound : ∃ s, Reach onePerTen.step (onePerTen.Keeps "k") (.initial 0) s ∧
    taken (s.marks "k") 10 10 = 2 ∧ ¬ Sound onePerTen "k" s := by
  have hrun : (steps (guarded onePerTen.step (onePerTen.Keeps "k")) overtaken (.initial 0)).map
      (fun s => (taken (s.marks "k") 10 10, given (s.marks "k") 10 10)) = some (2, 0) := by
    decide +kernel
  obtain ⟨s, hs, hobs⟩ := Option.map_eq_some_iff.mp hrun
  have htaken : taken (s.marks "k") 10 10 = 2 := congrArg Prod.fst hobs
  have hgiven : given (s.marks "k") 10 10 = 0 := congrArg Prod.snd hobs
  refine ⟨s, .of_guarded hs, htaken, ?_⟩
  intro hsound
  have hbound := hsound.bound 10 10 le_rfl
  rw [htaken, hgiven] at hbound
  norm_num [onePerTen] at hbound

end Rustango.RateLimit
