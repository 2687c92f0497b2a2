import Mathlib

/-!
# Prefix codes

Encodings none of which continues another, so what is written before any tail can be read back. They
are closed under optional values and counted repetition; encodings of one length and those that end with
a stop are such codes.
-/

namespace Rustango.PrefixCode

variable {α β : Type}

/-- What stands before a tail, and the tail, are determined by the two together. -/
def PrefixFree (enc : α → List β) : Prop :=
  ∀ a b s t, enc a ++ s = enc b ++ t → a = b ∧ s = t

theorem PrefixFree.injective {enc : α → List β} (h : PrefixFree enc) : Function.Injective enc := by
  intro a b hab
  exact (h a b [] [] (by rw [hab])).1

theorem PrefixFree.of_length {enc : α → List β} (n : Nat) (hinj : Function.Injective enc)
    (hlen : ∀ a, (enc a).length = n) : PrefixFree enc := by
  intro a b s t hab
  have hparts := List.append_inj hab (by rw [hlen, hlen])
  exact ⟨hinj hparts.1, hparts.2⟩

/-- A mark for a missing value, another before a present one. -/
def optional (missing present : β) (enc : α → List β) : Option α → List β
  | none => [missing]
  | some a => present :: enc a

theorem PrefixFree.optional {enc : α → List β} {missing present : β} (h : PrefixFree enc)
    (hne : missing ≠ present) : PrefixFree (optional missing present enc) := by
  intro a b s t hab
  cases a with
  | none =>
    cases b with
    | none => exact ⟨rfl, (List.cons.inj hab).2⟩
    | some b => exact absurd (List.cons.inj hab).1 hne
  | some a =>
    cases b with
    | none => exact absurd (List.cons.inj hab).1.symm hne
    | some b =>
      have hvalue := h a b s t (List.cons.inj hab).2
      exact ⟨congrArg some hvalue.1, hvalue.2⟩

/-- As many values as the other list has. -/
theorem PrefixFree.flatMap {enc : α → List β} (h : PrefixFree enc) {as bs : List α} {s t : List β}
    (hlen : as.length = bs.length) (hab : as.flatMap enc ++ s = bs.flatMap enc ++ t) :
    as = bs ∧ s = t := by
  induction as generalizing bs with
  | nil =>
    have hbs : bs = [] := List.length_eq_zero_iff.mp hlen.symm
    subst hbs
    exact ⟨rfl, hab⟩
  | cons a as ih =>
    cases bs with
    | nil => simp at hlen
    | cons b bs =>
      simp only [List.flatMap_cons, List.append_assoc] at hab
      have hhead := h a b _ _ hab
      have htail := ih (by simpa using hlen) hhead.2
      rw [hhead.1, htail.1]
      exact ⟨rfl, htail.2⟩

/-- Codes that are not empty, any number of them. -/
theorem PrefixFree.flatMap_injective {enc : α → List β} (h : PrefixFree enc) (hne : ∀ a, enc a ≠ []) :
    Function.Injective fun as : List α => as.flatMap enc := by
  intro as bs hab
  induction as generalizing bs with
  | nil =>
    cases bs with
    | nil => rfl
    | cons b bs =>
      have hempty : enc b = [] ∧ bs.flatMap enc = [] := by simpa using hab.symm
      exact absurd hempty.1 (hne b)
  | cons a as ih =>
    cases bs with
    | nil =>
      have hempty : enc a = [] ∧ as.flatMap enc = [] := by simpa using hab
      exact absurd hempty.1 (hne a)
    | cons b bs =>
      simp only [List.flatMap_cons] at hab
      have hhead := h a b _ _ hab
      rw [hhead.1, ih hhead.2]

theorem append_stop_inj {stop : β} {d e s t : List β} (hd : stop ∉ d) (he : stop ∉ e)
    (h : d ++ stop :: s = e ++ stop :: t) : d = e ∧ s = t := by
  induction d generalizing e with
  | nil =>
    cases e with
    | nil => exact ⟨rfl, (List.cons.inj h).2⟩
    | cons y e =>
      have hstop : stop = y := (List.cons.inj h).1
      exact absurd (hstop ▸ List.mem_cons_self) he
  | cons x d ih =>
    cases e with
    | nil =>
      have hstop : x = stop := (List.cons.inj h).1
      exact absurd (hstop ▸ List.mem_cons_self) hd
    | cons y e =>
      simp only [List.mem_cons, not_or] at hd he
      have htail := ih hd.2 he.2 (List.cons.inj h).2
      rw [(List.cons.inj h).1, htail.1]
      exact ⟨rfl, htail.2⟩

theorem PrefixFree.of_stop {enc : α → List β} {stop : β} (hinj : Function.Injective enc)
    (hstop : ∀ a, stop ∉ enc a) : PrefixFree fun a => enc a ++ [stop] := by
  intro a b s t hab
  simp only [List.append_assoc, List.singleton_append] at hab
  have hparts := append_stop_inj (hstop a) (hstop b) hab
  exact ⟨hinj hparts.1, hparts.2⟩

/-- The low `width` bytes of a number, the lowest first. -/
def leBytes : Nat → Nat → List UInt8
  | 0, _ => []
  | width + 1, n => n.toUInt8 :: leBytes width (n / 256)

@[simp] theorem length_leBytes (width n : Nat) : (leBytes width n).length = width := by
  induction width generalizing n with
  | zero => rfl
  | succ width ih => simp [leBytes, ih]

theorem leBytes_inj {width m n : Nat} (hm : m < 256 ^ width) (hn : n < 256 ^ width)
    (h : leBytes width m = leBytes width n) : m = n := by
  induction width generalizing m n with
  | zero =>
    simp only [Nat.pow_zero] at hm hn
    omega
  | succ width ih =>
    simp only [leBytes, List.cons.injEq] at h
    have hlow : m % 256 = n % 256 := by
      have hbyte := congrArg UInt8.toNat h.1
      simpa using hbyte
    have hhigh : m / 256 = n / 256 := by
      apply ih _ _ h.2
      · rw [Nat.pow_succ] at hm
        omega
      · rw [Nat.pow_succ] at hn
        omega
    omega

end Rustango.PrefixCode
