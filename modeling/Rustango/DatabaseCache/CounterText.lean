import Mathlib
import Rustango.Cache.Flat
import Rustango.Lib.Numeral
import Rustango.Query.Distinct
import Rustango.Url.Codec

/-!
# Counter texts in SQL

`incr` counts in SQL. Postgres and MySQL match a pattern before the cast, SQLite casts there and back; a text counts
when it is what `i64::to_string` writes.
-/

namespace Rustango.DatabaseCache

open Rustango.Cache (counterValue)
open Rustango.Numeral
open Rustango.Query (Dialect)
open Rustango.Url (Text)

def i64Min : Int := -2 ^ 63

def i64Max : Int := 2 ^ 63 - 1

def inI64 (n : Int) : Bool := decide (i64Min ≤ n) && decide (n ≤ i64Max)

/-- `[1-9][0-9]{0,18}` -/
def isLongDigits : Text → Bool
  | [] => false
  | c :: s => c.isDigit && c ≠ '0' && s.all Char.isDigit && decide (s.length ≤ 18)

/-- `^(0|-?[1-9][0-9]{0,18})$`, where `$` is the end of the text. -/
def isCounterText : Text → Bool
  | '-' :: s => isLongDigits s
  | s => s = ['0'] || isLongDigits s

/-- The line breaks that MySQL's `$` also stands before. -/
def lineBreaks : List Text :=
  [['\n'], ['\x0b'], ['\x0c'], ['\r'], ['\u0085'], ['\u2028'], ['\u2029'], ['\r', '\n']]

/-- The match of a dialect's regular expression. -/
def isMatch (d : Dialect) (s : Text) : Bool :=
  isCounterText s || (decide (d = .mysql) && lineBreaks.any fun e =>
    e.isSuffixOf s && isCounterText (s.take (s.length - e.length)))

/-- `RIGHT(value, 1) REGEXP '[0-9]'`, which MySQL alone asks for. -/
def lastIsDigit (d : Dialect) (s : Text) : Bool := decide (d ≠ .mysql) || s.getLast?.any Char.isDigit

/-- The cast of a text of digits, to a decimal that holds any. -/
def decimalCast : Text → Int
  | '-' :: s => -(value s : Int)
  | s => (value s : Int)

def isSqlSpace (c : Char) : Bool := c ∈ [' ', '\t', '\n', '\x0b', '\x0c', '\r']

/-- SQLite's `CAST(… AS INTEGER)`: the digits at the start, and the nearest `i64`. -/
def integerCast (s : Text) : Int :=
  match s.dropWhile isSqlSpace with
  | '-' :: s => max i64Min (-(value (s.takeWhile Char.isDigit) : Int))
  | '+' :: s => min i64Max (value (s.takeWhile Char.isDigit) : Int)
  | s => min i64Max (value (s.takeWhile Char.isDigit) : Int)

/-- `not_int` of the upsert. -/
def notInt (d : Dialect) (stored : String) : Bool :=
  match d with
  | .sqlite => toString (integerCast stored.toList) ≠ stored
  | d => !(if isMatch d stored.toList && lastIsDigit d stored.toList then inI64 (decimalCast stored.toList) else false)

/-- The stored text as an integer. -/
def sqlInt (d : Dialect) (stored : String) : Int :=
  match d with
  | .sqlite => integerCast stored.toList
  | _ => decimalCast stored.toList

section Equations
-- Its equations are derived here, once for all the proofs that unfold it.
attribute [local simp] integerCast
end Equations

theorem inI64_iff {n : Int} : inI64 n = true ↔ -2 ^ 63 ≤ n ∧ n < 2 ^ 63 := by
  rw [inI64, Bool.and_eq_true, decide_eq_true_eq, decide_eq_true_eq, i64Min, i64Max]
  omega

private theorem toDigits_head {n : Nat} (hn : 0 < n) : ∃ c s, Nat.toDigits 10 n = c :: s ∧ c ≠ '0' := by
  induction n using Nat.strong_induction_on with
  | _ n ih =>
    by_cases hsmall : n < 10
    · rw [Nat.toDigits_of_lt_base hsmall]
      refine ⟨_, [], rfl, ?_⟩
      interval_cases n <;> decide
    · obtain ⟨c, s, hdigits, hc⟩ := ih (n / 10) (by omega) (by omega)
      rw [Nat.toDigits_of_base_le (by decide) (by omega), hdigits]
      exact ⟨c, s ++ [(n % 10).digitChar], rfl, hc⟩

private theorem isLongDigits_toDigits {n : Nat} (hn : 0 < n) (hlt : n < 10 ^ 19) :
    isLongDigits (Nat.toDigits 10 n) = true := by
  obtain ⟨c, s, hdigits, hc⟩ := toDigits_head hn
  have hlen : (Nat.toDigits 10 n).length ≤ 19 := (Nat.length_toDigits_le_iff (by decide) (by decide)).2 hlt
  have hall : ∀ x ∈ Nat.toDigits 10 n, x.isDigit = true := fun x hx =>
    Nat.isDigit_of_mem_toDigits (by decide) (by decide) hx
  rw [hdigits] at hlen hall ⊢
  simp only [List.length_cons] at hlen
  simp only [isLongDigits, Bool.and_eq_true, List.all_eq_true, decide_eq_true_eq]
  exact ⟨⟨⟨hall c List.mem_cons_self, hc⟩, fun x hx => hall x (List.mem_cons_of_mem c hx)⟩, by omega⟩

private theorem toDigits_value {s : Text} (h : isLongDigits s = true) : Nat.toDigits 10 (value s) = s := by
  cases s with
  | nil => cases h
  | cons c s =>
    simp only [isLongDigits, Bool.and_eq_true, List.all_eq_true, decide_eq_true_eq] at h
    obtain ⟨⟨⟨hc, hzero⟩, hs⟩, -⟩ := h
    have hdigits : Digits (c :: s) := by
      intro x hx
      rcases List.mem_cons.1 hx with rfl | hx
      · exact hc
      · exact hs x hx
    have hlow : 1 ≤ c.toNat - 48 := by
      have hbounds := (isDigit_iff c).1 hc
      have hne : c.toNat ≠ 48 := fun h => hzero (Char.toNat_inj.1 h)
      omega
    have hge : 10 ^ s.length ≤ value (c :: s) := by
      rw [value_cons]
      exact (Nat.le_mul_of_pos_right _ hlow).trans (Nat.le_add_right _ _)
    have hlt := value_lt hdigits
    have hnumeral : Digits (Nat.toDigits 10 (value (c :: s))) := fun x hx =>
      Nat.isDigit_of_mem_toDigits (by decide) (by decide) hx
    have hlen : (Nat.toDigits 10 (value (c :: s))).length = (c :: s).length := by
      apply le_antisymm
      · exact (Nat.length_toDigits_le_iff (by decide) (by simp)).2 hlt
      · by_contra hshort
        rw [not_le, List.length_cons, Nat.lt_succ_iff] at hshort
        by_cases hone : s.length = 0
        · have hpos : 0 < (Nat.toDigits 10 (value (c :: s))).length := Nat.length_toDigits_pos
          omega
        · exact absurd ((Nat.length_toDigits_le_iff (by decide) (Nat.pos_of_ne_zero hone)).1 hshort) (not_lt.2 hge)
    apply (value_injective hnumeral hdigits hlen).1
    exact Nat.ofDigitChars_ten_toDigits

theorem toList_toString (n : Int) : (toString n).toList =
    if n < 0 then '-' :: Nat.toDigits 10 n.natAbs else Nat.toDigits 10 n.natAbs := by
  cases n with
  | ofNat m =>
    have hneg : ¬ (Int.ofNat m < 0) := by simp
    rw [if_neg hneg]
    exact Nat.toList_repr
  | negSucc m =>
    have htext : toString (Int.negSucc m) = "-" ++ (m + 1).repr := rfl
    rw [if_pos (Int.negSucc_lt_zero m), htext, String.toList_append, Nat.toList_repr]
    rfl

theorem value_toDigits (n : Nat) : value (Nat.toDigits 10 n) = n := Nat.ofDigitChars_ten_toDigits

theorem digits_cases (n : Nat) : ∃ c s, Nat.toDigits 10 n = c :: s ∧ c.isDigit = true := by
  cases hdigits : Nat.toDigits 10 n with
  | nil => exact absurd hdigits Nat.toDigits_ne_nil
  | cons c s =>
    refine ⟨c, s, rfl, ?_⟩
    apply Nat.isDigit_of_mem_toDigits (b := 10) (n := n) (by decide) (by decide)
    rw [hdigits]
    exact List.mem_cons_self

private theorem decimalCast_of_digits {c : Char} {s : Text} (hc : c.isDigit = true) :
    decimalCast (c :: s) = value (c :: s) := by
  unfold decimalCast
  split
  · rename_i heq
    rw [(List.cons.inj heq).1] at hc
    cases hc
  · rfl

private theorem decimalCast_toString (n : Int) : decimalCast (toString n).toList = n := by
  rw [toList_toString]
  split
  · rename_i hneg
    rw [decimalCast, value_toDigits]
    omega
  · rename_i hpos
    obtain ⟨c, s, hdigits, hc⟩ := digits_cases n.natAbs
    rw [hdigits, decimalCast_of_digits hc, ← hdigits, value_toDigits]
    omega

private theorem isCounterText_toString {n : Int} (h : inI64 n = true) :
    isCounterText (toString n).toList = true := by
  rw [inI64_iff] at h
  rw [toList_toString]
  split
  · rename_i hneg
    rw [isCounterText]
    exact isLongDigits_toDigits (by omega) (by omega)
  · rename_i hpos
    by_cases hzero : n.natAbs = 0
    · rw [hzero]
      decide
    · have hlong := isLongDigits_toDigits (n := n.natAbs) (by omega) (by omega)
      unfold isCounterText
      split
      · rename_i s heq
        rw [heq] at hlong
        simp [isLongDigits] at hlong
      · simp [hlong]

private theorem toString_decimalCast {s : Text} (h : isCounterText s = true) :
    (toString (decimalCast s)).toList = s := by
  unfold isCounterText at h
  split at h
  · rename_i s
    have hdigits := toDigits_value h
    have hpos : 0 < value s := by
      by_contra hzero
      rw [Nat.eq_zero_of_not_pos hzero] at hdigits
      rw [← hdigits] at h
      cases h
    rw [decimalCast, toList_toString, if_pos (by omega), Int.natAbs_neg, Int.natAbs_natCast, hdigits]
  · rename_i hsign
    have hcast : decimalCast s = value s := by
      unfold decimalCast
      split
      · exact absurd rfl (hsign _)
      · rfl
    rw [hcast, toList_toString, if_neg (by omega), Int.natAbs_natCast]
    simp only [Bool.or_eq_true, decide_eq_true_eq] at h
    rcases h with rfl | h
    · rfl
    · exact toDigits_value h

theorem counterValue_eq_some {stored : String} {n : Int} :
    counterValue stored = some n ↔ stored = toString n ∧ inI64 n = true := by
  simp only [counterValue, Option.filter_eq_some_iff, decide_eq_true_eq, inI64_iff]
  constructor
  · intro h
    exact ⟨h.2.1.symm, h.2.2⟩
  · intro h
    rw [h.1]
    exact ⟨Int.toInt?_repr n, rfl, h.2⟩

private theorem takeWhile_toDigits (n : Nat) : (Nat.toDigits 10 n).takeWhile Char.isDigit = Nat.toDigits 10 n :=
  List.takeWhile_eq_self_iff.2 fun _ hc => Nat.isDigit_of_mem_toDigits (by decide) (by decide) hc

private theorem not_space_of_digit {c : Char} (h : c.isDigit = true) : isSqlSpace c = false := by
  by_contra hspace
  simp only [isSqlSpace, Bool.not_eq_false, decide_eq_true_eq] at hspace
  simp only [List.mem_cons, List.not_mem_nil, or_false] at hspace
  rcases hspace with rfl | rfl | rfl | rfl | rfl | rfl <;> cases h

private theorem integerCast_toString {n : Int} (h : inI64 n = true) : integerCast (toString n).toList = n := by
  rw [inI64_iff] at h
  rw [toList_toString]
  split
  · rename_i hneg
    have hsign : isSqlSpace '-' = false := by decide
    rw [integerCast, List.dropWhile_cons_of_neg (by simp [hsign])]
    simp only [takeWhile_toDigits, value_toDigits, i64Min]
    omega
  · rename_i hpos
    obtain ⟨c, s, hdigits, hc⟩ := digits_cases n.natAbs
    have htake := takeWhile_toDigits n.natAbs
    have hvalue := value_toDigits n.natAbs
    rw [hdigits] at htake hvalue ⊢
    unfold integerCast
    rw [List.dropWhile_cons_of_neg (by simp [not_space_of_digit hc])]
    split
    · rename_i heq
      rw [(List.cons.inj heq).1] at hc
      cases hc
    · rename_i heq
      rw [(List.cons.inj heq).1] at hc
      cases hc
    · rw [htake, hvalue, i64Max]
      omega

private theorem inI64_integerCast (s : Text) : inI64 (integerCast s) = true := by
  rw [inI64_iff]
  unfold integerCast
  split <;> simp only [i64Min, i64Max] <;> omega

private theorem lastIsDigit_toString (d : Dialect) (n : Int) : lastIsDigit d (toString n).toList = true := by
  have hlast : ∃ s c, (toString n).toList = s ++ [c] ∧ c.isDigit = true := by
    obtain ⟨s, c, hdigits⟩ := List.eq_nil_or_concat (Nat.toDigits 10 n.natAbs) |>.resolve_left Nat.toDigits_ne_nil
    have hc : c.isDigit = true := Nat.isDigit_of_mem_toDigits (b := 10) (n := n.natAbs) (by decide) (by decide) (by
      rw [hdigits]
      simp)
    rw [toList_toString, hdigits]
    split
    · exact ⟨'-' :: s, c, by simp, hc⟩
    · exact ⟨s, c, by simp, hc⟩
  obtain ⟨s, c, htext, hc⟩ := hlast
  rw [lastIsDigit, htext, List.getLast?_append]
  simp [hc]

private theorem isCounterText_of_isMatch {d : Dialect} {s : Text} (hmatch : isMatch d s = true)
    (hlast : lastIsDigit d s = true) :
    isCounterText s = true := by
  simp only [isMatch, Bool.or_eq_true, Bool.and_eq_true, decide_eq_true_eq, List.any_eq_true] at hmatch
  rcases hmatch with h | ⟨hdialect, e, he, hsuffix, -⟩
  · exact h
  · exfalso
    obtain ⟨t, ht⟩ := List.isSuffixOf_iff_suffix.1 hsuffix
    rw [lastIsDigit, hdialect, ← ht, List.getLast?_append] at hlast
    simp only [lineBreaks, List.mem_cons, List.not_mem_nil, or_false] at he
    rcases he with rfl | rfl | rfl | rfl | rfl | rfl | rfl | rfl <;> simp at hlast

/-- Every dialect counts the texts that `counter_value` counts, and as the same number. -/
theorem notInt_iff (d : Dialect) (stored : String) :
    (notInt d stored = true ↔ counterValue stored = none) ∧ ∀ n, counterValue stored = some n → sqlInt d stored = n := by
  have hcast : ∀ n, counterValue stored = some n → sqlInt d stored = n := by
    intro n hn
    obtain ⟨htext, hrange⟩ := counterValue_eq_some.1 hn
    subst htext
    cases d with
    | sqlite => exact integerCast_toString hrange
    | postgres => exact decimalCast_toString n
    | mysql => exact decimalCast_toString n
  have hmatched (hdialect : d ≠ .sqlite) : notInt d stored =
      !(if isMatch d stored.toList && lastIsDigit d stored.toList then inI64 (decimalCast stored.toList) else false) := by
    cases d with
    | sqlite => exact absurd rfl hdialect
    | postgres => rfl
    | mysql => rfl
  refine ⟨?_, hcast⟩
  cases hcount : counterValue stored with
  | some n =>
    obtain ⟨htext, hrange⟩ := counterValue_eq_some.1 hcount
    have hfalse : notInt d stored = false := by
      by_cases hdialect : d = .sqlite
      · subst hdialect htext
        rw [notInt, integerCast_toString hrange]
        simp
      · rw [hmatched hdialect, htext, decimalCast_toString, isMatch, isCounterText_toString hrange,
          lastIsDigit_toString, hrange]
        rfl
    rw [hfalse]
    simp
  | none =>
    refine iff_of_true ?_ rfl
    by_contra hint
    rw [Bool.not_eq_true] at hint
    have hcounted : ∃ n, counterValue stored = some n := by
      by_cases hdialect : d = .sqlite
      · subst hdialect
        rw [notInt, decide_eq_false_iff_not, not_not] at hint
        exact ⟨_, counterValue_eq_some.2 ⟨hint.symm, inI64_integerCast _⟩⟩
      · rw [hmatched hdialect, Bool.not_eq_false'] at hint
        split at hint
        · rename_i hboth
          rw [Bool.and_eq_true] at hboth
          have htext := toString_decimalCast (isCounterText_of_isMatch hboth.1 hboth.2)
          exact ⟨_, counterValue_eq_some.2 ⟨(String.toList_injective htext).symm, hint⟩⟩
        · cases hint
    obtain ⟨n, hn⟩ := hcounted
    rw [hcount] at hn
    cases hn

end Rustango.DatabaseCache
