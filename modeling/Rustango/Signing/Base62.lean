import Rustango.Lib.WebUrl

/-!
# Base62 integers

`int_to_base62` and `base62_to_int` of `base62.rs`.
-/

namespace Rustango.Signing

open Rustango.WebUrl (Text)

def u64Max : Nat := 2 ^ 64 - 1

inductive Base62Error
  | empty
  | invalidChar (c : Char)
  | overflow
deriving DecidableEq

/-- The character of a digit below 62. -/
def base62Char (d : Nat) : Char :=
  Char.ofNat (if d < 10 then 0x30 + d else if d < 36 then 0x41 + (d - 10) else 0x61 + (d - 36))

def base62Digit (c : Char) : Option Nat :=
  if 0x30 ≤ c.toNat ∧ c.toNat ≤ 0x39 then some (c.toNat - 0x30)
  else if 0x41 ≤ c.toNat ∧ c.toNat ≤ 0x5A then some (c.toNat - 0x41 + 10)
  else if 0x61 ≤ c.toNat ∧ c.toNat ≤ 0x7A then some (c.toNat - 0x61 + 36)
  else none

/-- `while n > 0`, the last digit first. -/
def pushDigits (n : Nat) (buf : Text) : Text :=
  if _h : n = 0 then buf else pushDigits (n / 62) (buf ++ [base62Char (n % 62)])
termination_by n
decreasing_by omega

def intToBase62 (n : Nat) : Text := if n = 0 then ['0'] else (pushDigits n []).reverse

def base62Step (out : Nat) (c : Char) : Except Base62Error Nat :=
  match base62Digit c with
  | none => .error (.invalidChar c)
  | some digit => if out * 62 + digit ≤ u64Max then .ok (out * 62 + digit) else .error .overflow

def base62ToInt (s : Text) : Except Base62Error Nat := if s = [] then .error .empty else s.foldlM base62Step 0

private theorem base62Digit_char (d : Nat) (h : d < 62) : base62Digit (base62Char d) = some d := by
  have hall : ∀ d < 62, base62Digit (base62Char d) = some d := by decide
  exact hall d h

private theorem pushDigits_zero (buf : Text) : pushDigits 0 buf = buf := by
  rw [pushDigits, dif_pos rfl]

private theorem pushDigits_pos (n : Nat) (buf : Text) (h : n ≠ 0) :
    pushDigits n buf = pushDigits (n / 62) (buf ++ [base62Char (n % 62)]) := by
  rw [pushDigits, dif_neg h]

private theorem pushDigits_append (n : Nat) (buf : Text) : pushDigits n buf = buf ++ pushDigits n [] := by
  induction n using Nat.strongRecOn generalizing buf with
  | ind n ih =>
    by_cases hzero : n = 0
    · rw [hzero, pushDigits_zero, pushDigits_zero, List.append_nil]
    · rw [pushDigits_pos n buf hzero, pushDigits_pos n [] hzero, ih (n / 62) (by omega),
        ih (n / 62) (by omega) ([] ++ _), List.nil_append, List.append_assoc]

private theorem reverse_pushDigits (n : Nat) (h : n ≠ 0) :
    (pushDigits n []).reverse = (pushDigits (n / 62) []).reverse ++ [base62Char (n % 62)] := by
  rw [pushDigits_pos n [] h, pushDigits_append, List.reverse_append, List.nil_append, List.reverse_singleton]

private theorem foldlM_pushDigits (n : Nat) (h : n ≤ u64Max) :
    (pushDigits n []).reverse.foldlM base62Step 0 = .ok n := by
  induction n using Nat.strongRecOn with
  | ind n ih =>
    by_cases hzero : n = 0
    · rw [hzero, pushDigits_zero]
      rfl
    · have hquotient := ih (n / 62) (by omega) (by omega)
      have hwhole : n / 62 * 62 + n % 62 = n := Nat.div_add_mod' n 62
      have hstep : base62Step (n / 62) (base62Char (n % 62)) = .ok n := by
        rw [base62Step, base62Digit_char _ (Nat.mod_lt _ (by omega))]
        simp only [hwhole, if_pos h]
      rw [reverse_pushDigits n hzero, List.foldlM_append, hquotient]
      change (base62Step (n / 62) (base62Char (n % 62)) >>= fun out => pure out) = _
      rw [hstep]
      rfl

theorem base62ToInt_intToBase62 (n : Nat) (h : n ≤ u64Max) : base62ToInt (intToBase62 n) = .ok n := by
  unfold intToBase62 base62ToInt
  by_cases hzero : n = 0
  · rw [if_pos hzero, hzero]
    rfl
  · have hne : (pushDigits n []).reverse ≠ [] := by
      rw [reverse_pushDigits n hzero]
      exact List.append_ne_nil_of_right_ne_nil _ (List.cons_ne_nil _ _)
    rw [if_neg hzero, if_neg hne, foldlM_pushDigits n h]

/-- A digit is no separator. -/
theorem isDigit_of_mem_intToBase62 (n : Nat) (c : Char) (hc : c ∈ intToBase62 n) : (base62Digit c).isSome = true := by
  unfold intToBase62 at hc
  by_cases hzero : n = 0
  · rw [if_pos hzero, List.mem_singleton] at hc
    rw [hc]
    rfl
  · rw [if_neg hzero] at hc
    induction n using Nat.strongRecOn with
    | ind n ih =>
      rw [reverse_pushDigits n hzero, List.mem_append, List.mem_singleton] at hc
      rcases hc with hc | hc
      · by_cases hquotient : n / 62 = 0
        · rw [hquotient, pushDigits_zero] at hc
          cases hc
        · exact ih (n / 62) (by omega) hc hquotient
      · rw [hc, base62Digit_char _ (Nat.mod_lt _ (by omega))]
        rfl

end Rustango.Signing
