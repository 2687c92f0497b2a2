import Mathlib.Data.List.Lex
import Mathlib.Data.String.Basic
import Mathlib.Tactic.SplitIfs

/-!
# Decimal numerals in string order

Numerals of one width are ordered as the numbers they write. A text that starts with another
width's numeral is compared on the shorter of the two.
-/

namespace Rustango.Numeral

/-- The number a list of decimal digits writes. -/
def value (d : List Char) : Nat := Nat.ofDigitChars 10 d 0

def Digits (d : List Char) : Prop := ∀ c ∈ d, c.isDigit

instance (d : List Char) : Decidable (Digits d) := inferInstanceAs (Decidable (∀ c ∈ d, c.isDigit))

/-- `k` in decimal, padded with zeros to `w` digits. -/
def numeral (w k : Nat) : List Char := (Nat.toDigits 10 k).leftpad w '0'

@[simp] theorem value_nil : value [] = 0 := Nat.ofDigitChars_nil

theorem value_append (d e : List Char) : value (d ++ e) = 10 ^ e.length * value d + value e := by
  unfold value
  rw [Nat.ofDigitChars_append, Nat.ofDigitChars_eq_ofDigitChars_zero]

theorem value_cons (c : Char) (d : List Char) :
    value (c :: d) = 10 ^ d.length * (c.toNat - 48) + value d := by
  rw [← List.singleton_append, value_append]
  simp [value, Nat.ofDigitChars_cons]

theorem isDigit_iff (c : Char) : c.isDigit ↔ 48 ≤ c.toNat ∧ c.toNat ≤ 57 := by
  simp [Char.isDigit, UInt32.le_iff_toNat_le]

theorem Digits.take {d : List Char} (hd : Digits d) (n : Nat) : Digits (d.take n) :=
  fun c hc => hd c (List.mem_of_mem_take hc)

theorem Digits.drop {d : List Char} (hd : Digits d) (n : Nat) : Digits (d.drop n) :=
  fun c hc => hd c (List.mem_of_mem_drop hc)

theorem value_lt {d : List Char} (hd : Digits d) : value d < 10 ^ d.length := by
  induction d with
  | nil => simp
  | cons c d ih =>
    have hc := (isDigit_iff c).mp (hd c List.mem_cons_self)
    have hrest : value d < 10 ^ d.length := ih fun x hx => hd x (List.mem_cons_of_mem c hx)
    have hdigit : 10 ^ d.length * (c.toNat - 48) ≤ 10 ^ d.length * 9 :=
      Nat.mul_le_mul_left _ (by omega)
    rw [value_cons, List.length_cons, Nat.pow_succ]
    omega

theorem value_take {d : List Char} (hd : Digits d) (n : Nat) :
    value (d.take n) = value d / 10 ^ (d.length - n) := by
  have hsplit : value d = 10 ^ (d.length - n) * value (d.take n) + value (d.drop n) := by
    rw [← List.length_drop, ← value_append, List.take_append_drop]
  have hlow : value (d.drop n) < 10 ^ (d.length - n) := by
    rw [← List.length_drop]
    exact value_lt (hd.drop n)
  rw [hsplit, Nat.mul_add_div (Nat.pow_pos (by decide)), Nat.div_eq_of_lt hlow, Nat.add_zero]

@[simp] theorem length_numeral (w k : Nat) :
    (numeral w k).length = max w (Nat.toDigits 10 k).length := List.length_leftpad

theorem digits_numeral (w k : Nat) : Digits (numeral w k) := by
  intro c hc
  rcases List.mem_append.mp hc with h | h
  · rw [List.eq_of_mem_replicate h]
    decide
  · exact Nat.isDigit_of_mem_toDigits (by decide) (by decide) h

@[simp] theorem value_numeral (w k : Nat) : value (numeral w k) = k := by
  have hzeros (n : Nat) : value (List.replicate n '0') = 0 := by simp [value]
  have hdigits : value (Nat.toDigits 10 k) = k := Nat.ofDigitChars_ten_toDigits
  rw [numeral, List.leftpad, value_append, hzeros, hdigits, Nat.mul_zero, Nat.zero_add]

theorem char_lt_iff (c e : Char) : c < e ↔ c.toNat < e.toNat := Iff.rfl

theorem append_lt_append_iff {d e : List Char} (hlen : d.length = e.length) (r s : List Char) :
    d ++ r < e ++ s ↔ d < e ∨ d = e ∧ r < s := by
  induction d generalizing e with
  | nil =>
    have he : e = [] := List.eq_nil_of_length_eq_zero hlen.symm
    simp [he]
  | cons c d ih =>
    cases e with
    | nil => simp at hlen
    | cons b e =>
      have hrest := ih (Nat.succ.inj hlen)
      simp only [List.cons_append, List.cons_lt_cons_iff, List.cons.injEq, hrest]
      grind

theorem lt_iff_value_lt {d e : List Char} (hd : Digits d) (he : Digits e)
    (hlen : d.length = e.length) : d < e ↔ value d < value e := by
  induction d generalizing e with
  | nil =>
    have hnil : e = [] := List.eq_nil_of_length_eq_zero hlen.symm
    simp [hnil]
  | cons c d ih =>
    cases e with
    | nil => simp at hlen
    | cons b e =>
      have hl : d.length = e.length := Nat.succ.inj hlen
      have hc := (isDigit_iff c).mp (hd c List.mem_cons_self)
      have hb := (isDigit_iff b).mp (he b List.mem_cons_self)
      have hd' : Digits d := fun x hx => hd x (List.mem_cons_of_mem c hx)
      have he' : Digits e := fun x hx => he x (List.mem_cons_of_mem b hx)
      have hvd := value_lt hd'
      have hve := value_lt he'
      rw [List.cons_lt_cons_iff, ih hd' he' hl, value_cons, value_cons, hl]
      rw [hl] at hvd
      generalize 10 ^ e.length = p at hvd hve
      rw [char_lt_iff]
      rcases Nat.lt_trichotomy c.toNat b.toNat with h | h | h
      · have hstep : p * (c.toNat - 48) + p ≤ p * (b.toNat - 48) := by
          rw [← Nat.mul_succ]
          exact Nat.mul_le_mul_left p (by omega)
        constructor
        · intro _
          omega
        · intro _
          exact .inl h
      · rw [Char.toNat_inj.mp h]
        simp
      · have hstep : p * (b.toNat - 48) + p ≤ p * (c.toNat - 48) := by
          rw [← Nat.mul_succ]
          exact Nat.mul_le_mul_left p (by omega)
        constructor
        · rintro (hlt | ⟨heq, _⟩)
          · omega
          · rw [heq] at h
            omega
        · intro hlt
          omega

theorem value_injective {d e : List Char} (hd : Digits d) (he : Digits e)
    (hlen : d.length = e.length) : value d = value e ↔ d = e := by
  constructor
  · intro heq
    have hde : ¬ d < e := fun h => absurd ((lt_iff_value_lt hd he hlen).mp h) (by omega)
    have hed : ¬ e < d := fun h => absurd ((lt_iff_value_lt he hd hlen.symm).mp h) (by omega)
    exact le_antisymm (not_lt.mp hed) (not_lt.mp hde)
  · intro h
    rw [h]

/-- What follows the digits of a text sorts before every digit. -/
def LowRest (r : List Char) : Prop := ∀ c ∈ r.head?, c < '0'

instance (r : List Char) : Decidable (LowRest r) :=
  inferInstanceAs (Decidable (∀ c ∈ r.head?, c < '0'))

theorem lt_digit_iff {r : List Char} (hr : ∀ c ∈ r.head?, ¬ c.isDigit) {c : Char} (hc : c.isDigit)
    (s : List Char) : r < c :: s ↔ LowRest r := by
  have hdigit := (isDigit_iff c).mp hc
  cases r with
  | nil => simp [LowRest]
  | cons a r =>
    have ha : ¬ (48 ≤ a.toNat ∧ a.toNat ≤ 57) := fun h => hr a rfl ((isDigit_iff a).mpr h)
    have hne : a ≠ c := by
      rintro rfl
      exact ha hdigit
    have hzero : ('0' : Char).toNat = 48 := rfl
    rw [List.cons_lt_cons_iff, LowRest, char_lt_iff]
    simp only [List.head?_cons, Option.mem_some_iff, forall_eq', hne, false_and, or_false,
      char_lt_iff, hzero]
    omega

theorem digit_lt_underscore {c : Char} (hc : c.isDigit) (r s : List Char) :
    c :: r < '_' :: s := by
  have hdigit := (isDigit_iff c).mp hc
  have hscore : ('_' : Char).toNat = 95 := rfl
  apply List.cons_lt_cons_iff.mpr
  left
  rw [char_lt_iff, hscore]
  omega

/-- Where the digits `d`, followed by `r`, stand to the numeral `e`, followed by `_s`. -/
theorem append_lt_numeral {d r e s : List Char} (hd : Digits d) (hr : ∀ c ∈ r.head?, ¬ c.isDigit)
    (he : Digits e) :
    d ++ r < e ++ '_' :: s ↔
      if d.length < e.length then
        value d < value e / 10 ^ (e.length - d.length) ∨
          value d = value e / 10 ^ (e.length - d.length) ∧ LowRest r
      else
        value d / 10 ^ (d.length - e.length) < value e ∨
          value d / 10 ^ (d.length - e.length) = value e ∧
            (e.length < d.length ∨ r < '_' :: s) := by
  split_ifs with hshort
  · have hlen : d.length = (e.take d.length).length := by
      rw [List.length_take]
      omega
    obtain ⟨c, tail, htail⟩ : ∃ c tail, e.drop d.length = c :: tail :=
      List.exists_cons_of_ne_nil fun h => absurd (List.drop_eq_nil_iff.mp h) (by omega)
    have hc : c.isDigit := he.drop d.length c (htail ▸ List.mem_cons_self)
    have hcut : e ++ '_' :: s = e.take d.length ++ (c :: (tail ++ '_' :: s)) := by
      rw [← List.cons_append, ← htail, ← List.append_assoc, List.take_append_drop]
    rw [hcut, append_lt_append_iff hlen, lt_iff_value_lt hd (he.take _) hlen,
      ← value_injective hd (he.take _) hlen, value_take he, lt_digit_iff hr hc]
  · have hlen : (d.take e.length).length = e.length := by
      rw [List.length_take]
      omega
    have hcut : d ++ r = d.take e.length ++ (d.drop e.length ++ r) := by
      rw [← List.append_assoc, List.take_append_drop]
    have htail : d.drop e.length ++ r < '_' :: s ↔ e.length < d.length ∨ r < '_' :: s := by
      cases hdrop : d.drop e.length with
      | nil =>
        have hle : d.length ≤ e.length := List.drop_eq_nil_iff.mp hdrop
        simp [Nat.not_lt.mpr hle]
      | cons c tail =>
        have hlt : e.length < d.length := by
          by_contra hle
          rw [List.drop_eq_nil_iff.mpr (by omega)] at hdrop
          cases hdrop
        have hc : c.isDigit := hd.drop e.length c (hdrop ▸ List.mem_cons_self)
        exact iff_of_true (digit_lt_underscore hc _ s) (.inl hlt)
    rw [hcut, append_lt_append_iff hlen, lt_iff_value_lt (hd.take _) he hlen,
      ← value_injective (hd.take _) he hlen, value_take hd, htail]

end Rustango.Numeral
