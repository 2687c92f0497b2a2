import Mathlib.Algebra.Order.Field.Basic
import Mathlib.Tactic.Linarith
import Mathlib.Tactic.Positivity

/-!
# Token buckets

A bucket fills at a rate up to its capacity. Whoever takes a token empties it by one, and a token may be
given back. However the takes fall, an interval holds no more of them than the capacity, what flows in
during the interval and what is given back in it.
-/

namespace Rustango.TokenBucket

variable {α : Type*} [Field α] [LinearOrder α] [IsStrictOrderedRing α]

structure Limit (α : Type*) [Zero α] [LE α] where
  capacity : α
  rate : α
  rate_nonneg : 0 ≤ rate

/-- What the bucket held at a moment. -/
structure Bucket (α : Type*) where
  moment : α
  level : α

/-- A token taken or given back. -/
inductive Mark (α : Type*) where
  | taken (moment : α)
  | given (moment : α)

namespace Limit
variable (l : Limit α)

/-- What the bucket holds later. -/
def levelAt (b : Bucket α) (t : α) : α := min (b.level + (t - b.moment) * l.rate) l.capacity

def advance (b : Bucket α) (t : α) : Bucket α := ⟨t, l.levelAt b t⟩

/-- A token is taken. -/
def spend (b : Bucket α) : Bucket α := { b with level := b.level - 1 }

/-- A token is given back. -/
def refund (b : Bucket α) : Bucket α := { b with level := min (b.level + 1) l.capacity }

end Limit

def Mark.isTaken (s t : α) : Mark α → Bool
  | .taken x => s ≤ x ∧ x ≤ t
  | .given _ => false

def Mark.isGiven (s t : α) : Mark α → Bool
  | .given x => s ≤ x ∧ x ≤ t
  | .taken _ => false

/-- The tokens taken from `s` to `t`. -/
def taken (log : List (Mark α)) (s t : α) : Nat := log.countP (Mark.isTaken s t)

/-- The tokens given back from `s` to `t`. -/
def given (log : List (Mark α)) (s t : α) : Nat := log.countP (Mark.isGiven s t)

section Counts
omit [IsStrictOrderedRing α] [Field α]
variable {log : List (Mark α)} {x s t u : α}

@[simp] theorem taken_nil : taken ([] : List (Mark α)) s t = 0 := rfl

theorem taken_taken : taken (.taken x :: log) s t =
    taken log s t + if s ≤ x ∧ x ≤ t then 1 else 0 := by
  simp [taken, List.countP_cons, Mark.isTaken]

@[simp] theorem taken_given : taken (.given x :: log) s t = taken log s t := by
  simp [taken, Mark.isTaken]

@[simp] theorem given_taken : given (.taken x :: log) s t = given log s t := by
  simp [given, Mark.isGiven]

theorem given_given : given (.given x :: log) s t =
    given log s t + if s ≤ x ∧ x ≤ t then 1 else 0 := by
  simp [given, List.countP_cons, Mark.isGiven]

theorem given_mono (htu : t ≤ u) : given log s t ≤ given log s u := by
  apply List.countP_mono_left
  intro m _ hm
  cases m with
  | taken x => simp [Mark.isGiven] at hm
  | given x =>
    simp only [Mark.isGiven, decide_eq_true_eq] at hm ⊢
    exact ⟨hm.1, hm.2.trans htu⟩

theorem taken_past (hlog : ∀ y, .taken y ∈ log → y ≤ t) (htu : t ≤ u) :
    taken log s u = taken log s t := by
  apply List.countP_congr
  intro m hm
  cases m with
  | given x => simp [Mark.isTaken]
  | taken x =>
    have hx := hlog x hm
    simp [Mark.isTaken, hx, hx.trans htu]

theorem taken_future (hlog : ∀ y, .taken y ∈ log → y ≤ t) (hts : t < s) : taken log s u = 0 := by
  rw [taken, List.countP_eq_zero]
  intro m hm
  cases m with
  | given x => simp [Mark.isTaken]
  | taken x =>
    have hx : x < s := (hlog x hm).trans_lt hts
    simp [Mark.isTaken, hx]

end Counts

/-- What was taken so far, in any interval and in those that last until now. -/
structure Accounts (l : Limit α) (b : Bucket α) (log : List (Mark α)) : Prop where
  past : ∀ x, .taken x ∈ log → x ≤ b.moment
  full : b.level ≤ l.capacity
  bound : ∀ s t, s ≤ t →
    (taken log s t : α) ≤ l.capacity + (t - s) * l.rate + given log s t
  left : ∀ s ≤ b.moment,
    (taken log s b.moment : α) + b.level ≤
      l.capacity + (b.moment - s) * l.rate + given log s b.moment

namespace Accounts
variable {l : Limit α} {b : Bucket α} {log : List (Mark α)} {s t : α}

theorem inflow_nonneg (l : Limit α) (hst : s ≤ t) : 0 ≤ (t - s) * l.rate :=
  mul_nonneg (sub_nonneg.mpr hst) l.rate_nonneg

theorem start (l : Limit α) (hcap : 0 ≤ l.capacity) (t : α) : Accounts l ⟨t, l.capacity⟩ [] where
  past := by simp
  full := le_refl _
  bound s u hsu := by
    have hflow := inflow_nonneg l hsu
    have hgiven : (0 : α) ≤ (given [] s u : α) := Nat.cast_nonneg _
    simp only [taken_nil, Nat.cast_zero]
    linarith
  left s hs := by
    have hflow := inflow_nonneg l hs
    have hgiven : (0 : α) ≤ (given [] s t : α) := Nat.cast_nonneg _
    simp only [taken_nil, Nat.cast_zero]
    linarith

/-- Time passes. -/
theorem advance (h : Accounts l b log) (ht : b.moment ≤ t) : Accounts l (l.advance b t) log where
  past x hx := (h.past x hx).trans ht
  full := min_le_right _ _
  bound := h.bound
  left s hs := by
    change (taken log s t : α) + l.levelAt b t ≤ l.capacity + (t - s) * l.rate + given log s t
    have hlevel : l.levelAt b t ≤ b.level + (t - b.moment) * l.rate := min_le_left _ _
    have hcap : l.levelAt b t ≤ l.capacity := min_le_right _ _
    rcases le_or_gt s b.moment with hsb | hsb
    · have hleft := h.left s hsb
      have hmono : (given log s b.moment : α) ≤ given log s t := Nat.cast_le.mpr (given_mono ht)
      rw [taken_past h.past ht]
      linarith
    · have hst : s ≤ t := hs
      have hflow := inflow_nonneg l hst
      have hgiven : (0 : α) ≤ (given log s t : α) := Nat.cast_nonneg _
      rw [taken_future h.past hsb, Nat.cast_zero]
      linarith

/-- A token is taken where there is one. -/
theorem spend (h : Accounts l b log) (hone : 1 ≤ b.level) :
    Accounts l (Limit.spend b) (.taken b.moment :: log) where
  past x hx := by
    rcases List.mem_cons.mp hx with heq | hmem
    · cases heq
      exact le_refl _
    · exact h.past x hmem
  full := by
    have hfull := h.full
    simp only [Limit.spend]
    linarith
  bound s t hst := by
    rw [taken_taken, given_taken, Nat.cast_add]
    have hbound := h.bound s t hst
    split_ifs with hin
    · have hleft := h.left s hin.1
      have hmono : (given log s b.moment : α) ≤ given log s t := Nat.cast_le.mpr (given_mono hin.2)
      have hflow := inflow_nonneg l hin.2
      rw [taken_past h.past hin.2, Nat.cast_one]
      linarith
    · rw [Nat.cast_zero]
      linarith
  left s hs := by
    have hs' : s ≤ b.moment := hs
    have hleft := h.left s hs'
    change ((taken (.taken b.moment :: log) s b.moment : Nat) : α) + (b.level - 1) ≤
      l.capacity + (b.moment - s) * l.rate + given (.taken b.moment :: log) s b.moment
    rw [taken_taken, given_taken, if_pos ⟨hs', le_refl _⟩, Nat.cast_add, Nat.cast_one]
    linarith

/-- A token that the bucket does not see again. -/
theorem waste (h : Accounts l b log) (t : α) : Accounts l b (.given t :: log) where
  past x hx := by
    apply h.past x
    simpa using hx
  full := h.full
  bound s u hsu := by
    have hbound := h.bound s u hsu
    have hmore : (0 : α) ≤ ((if s ≤ t ∧ t ≤ u then 1 else 0 : Nat) : α) := Nat.cast_nonneg _
    rw [taken_given, given_given, Nat.cast_add]
    linarith
  left s hs := by
    have hleft := h.left s hs
    have hmore : (0 : α) ≤ ((if s ≤ t ∧ t ≤ b.moment then 1 else 0 : Nat) : α) := Nat.cast_nonneg _
    rw [taken_given, given_given, Nat.cast_add]
    linarith

theorem refund (h : Accounts l b log) : Accounts l (l.refund b) (.given b.moment :: log) where
  past := (h.waste b.moment).past
  full := min_le_right _ _
  bound := (h.waste b.moment).bound
  left s hs := by
    have hs' : s ≤ b.moment := hs
    have hleft := h.left s hs'
    have hlevel : (l.refund b).level ≤ b.level + 1 := min_le_left _ _
    change ((taken (.given b.moment :: log) s b.moment : Nat) : α) + (l.refund b).level ≤
      l.capacity + (b.moment - s) * l.rate + given (.given b.moment :: log) s b.moment
    rw [taken_given, given_given, if_pos ⟨hs', le_refl _⟩, Nat.cast_add, Nat.cast_one]
    linarith

end Accounts

end Rustango.TokenBucket
