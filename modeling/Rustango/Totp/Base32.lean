import Rustango.Lib.Regroup
import Rustango.RealIp.Addr

/-!
# Base32 secrets

`base32_encode` and `base32_decode` of `totp.rs`. A character is compared by its low byte, so that some
characters outside the alphabet are taken for one of its own.
-/

namespace Rustango.Totp

open Rustango.Regroup
open Rustango.Url (Text)
open Rustango.RealIp (isWhitespace)

def base32Alphabet : List UInt8 :=
  ['A', 'B', 'C', 'D', 'E', 'F', 'G', 'H', 'I', 'J', 'K', 'L', 'M', 'N', 'O', 'P', 'Q', 'R', 'S', 'T', 'U', 'V',
    'W', 'X', 'Y', 'Z', '2', '3', '4', '5', '6', '7'].map fun c => UInt8.ofNat c.toNat

/-- The character of an index, below 32. -/
def symbol (idx : Nat) : Char := Char.ofNat (base32Alphabet.getD idx 0).toNat

/-- `while bits_left >= 5`. -/
def writeSymbols (buffer : UInt64) : Nat → Text → Text × Nat
  | bitsLeft + 5, out => writeSymbols buffer bitsLeft (out ++ [symbol ((buffer >>> UInt64.ofNat bitsLeft) &&& 0x1F).toNat])
  | bitsLeft, out => (out, bitsLeft)

structure Encoder where
  buffer : UInt64
  bitsLeft : Nat
  out : Text

def Encoder.step (e : Encoder) (b : UInt8) : Encoder :=
  let buffer := (e.buffer <<< 8) ||| b.toUInt64
  let written := writeSymbols buffer (e.bitsLeft + 8) e.out
  ⟨buffer, written.2, written.1⟩

def base32Encode (input : List UInt8) : Text :=
  let e := input.foldl Encoder.step ⟨0, 0, []⟩
  if 0 < e.bitsLeft then e.out ++ [symbol ((e.buffer <<< UInt64.ofNat (5 - e.bitsLeft)) &&& 0x1F).toNat] else e.out

def toAsciiUppercase (c : Char) : Char :=
  if 0x61 ≤ c.toNat ∧ c.toNat ≤ 0x7A then Char.ofNat (c.toNat - 0x20) else c

/-- Padding and whitespace are passed over. -/
def skipped (c : Char) : Bool := c = '=' || isWhitespace c

structure Decoder where
  buffer : UInt64
  bits : Nat
  out : List UInt8

/-- The character's index in the alphabet; `upper as u8` keeps the low byte. -/
def position (c : Char) : Option Nat := base32Alphabet.idxOf? (UInt8.ofNat (toAsciiUppercase c).toNat)

def Decoder.push (d : Decoder) (val : Nat) : Decoder :=
  let buffer := (d.buffer <<< 5) ||| UInt64.ofNat val
  if 8 ≤ d.bits + 5 then
    ⟨buffer, d.bits + 5 - 8, d.out ++ [((buffer >>> UInt64.ofNat (d.bits + 5 - 8)) &&& 0xFF).toUInt8]⟩
  else ⟨buffer, d.bits + 5, d.out⟩

def Decoder.step (d : Decoder) (c : Char) : Option Decoder :=
  if skipped c then some d else (position c).map d.push

def base32Decode (input : Text) : Option (List UInt8) := (input.foldlM Decoder.step ⟨0, 0, []⟩).map (·.out)

structure TotpSecret where
  bytes : List UInt8

def minSecretBytes : Nat := 10

def TotpSecret.toBase32 (secret : TotpSecret) : Text := base32Encode secret.bytes

def TotpSecret.fromBase32 (s : Text) : Option TotpSecret :=
  ((base32Decode s).filter fun b => decide (minSecretBytes ≤ b.length)).map TotpSecret.mk

private theorem toNat_push (buffer d : UInt64) (wide : Nat) (hwide : wide < 64) (hd : d.toNat < 2 ^ wide) :
    ((buffer <<< UInt64.ofNat wide) ||| d).toNat = (buffer.toNat * 2 ^ wide + d.toNat) % 2 ^ 64 := by
  have hword : 2 ^ 64 = 2 ^ (64 - wide) * 2 ^ wide := by
    rw [← Nat.pow_add, Nat.sub_add_cancel (Nat.le_of_lt hwide)]
  have hhigh : buffer.toNat * 2 ^ wide % 2 ^ 64 = buffer.toNat % 2 ^ (64 - wide) * 2 ^ wide := by
    rw [hword, Nat.mul_mod_mul_right]
  have hshift : (buffer <<< UInt64.ofNat wide).toNat = buffer.toNat * 2 ^ wide % 2 ^ 64 := by
    rw [UInt64.toNat_shiftLeft, UInt64.toNat_ofNat_of_lt' (by unfold UInt64.size; omega), Nat.mod_eq_of_lt hwide,
      Nat.shiftLeft_eq]
  have hlow : buffer.toNat % 2 ^ (64 - wide) * 2 ^ wide + d.toNat < 2 ^ 64 := by
    have hlt : buffer.toNat % 2 ^ (64 - wide) < 2 ^ (64 - wide) := Nat.mod_lt _ (Nat.two_pow_pos _)
    have hle := Nat.mul_le_mul_right (2 ^ wide) (Nat.succ_le_of_lt hlt)
    rw [← hword, Nat.succ_mul] at hle
    omega
  rw [UInt64.toNat_or, hshift, hhigh, ← Nat.shiftLeft_eq, ← Nat.shiftLeft_add_eq_or_of_lt hd, Nat.shiftLeft_eq,
    Nat.add_mod, hhigh]
  rw [Nat.add_mod_mod, Nat.mod_eq_of_lt hlow]

private theorem toNat_digit (buffer mask : UInt64) (wide shift : Nat) (hshift : shift < 64)
    (hmask : mask.toNat = 2 ^ wide - 1) :
    ((buffer >>> UInt64.ofNat shift) &&& mask).toNat = buffer.toNat / 2 ^ shift % 2 ^ wide := by
  rw [UInt64.toNat_and, UInt64.toNat_shiftRight, UInt64.toNat_ofNat_of_lt' (by unfold UInt64.size; omega),
    Nat.mod_eq_of_lt hshift, Nat.shiftRight_eq_div_pow, hmask, Nat.and_two_pow_sub_one_eq_mod]

private theorem writeSymbols_holds {value total : Nat} (buffer : UInt64) (bits : Nat) (digits : List Nat)
    (hbits : bits ≤ 64)
    (h : Holds 5 64 value total buffer.toNat bits digits) :
    ∃ written left, writeSymbols buffer bits (digits.map symbol) = (written.map symbol, left) ∧ left < 5 ∧
      Holds 5 64 value total buffer.toNat left written := by
  induction bits using Nat.strongRecOn generalizing digits with
  | ind bits ih =>
    by_cases hlow : bits < 5
    · refine ⟨digits, bits, ?_, hlow, h⟩
      unfold writeSymbols
      split
      · omega
      · rfl
    · obtain ⟨rest, hrest⟩ : ∃ rest, bits = rest + 5 := ⟨bits - 5, by omega⟩
      subst hrest
      have hwrite := h.write (by omega) hbits
      rw [Nat.add_sub_cancel] at hwrite
      have hdigit := toNat_digit buffer 0x1F 5 rest (by omega) rfl
      have hnext := ih rest (by omega) (digits ++ [buffer.toNat / 2 ^ rest % 2 ^ 5]) (by omega) hwrite
      rw [writeSymbols, hdigit]
      rwa [List.map_append, List.map_singleton] at hnext

private theorem encoder_holds (input : List UInt8) : ∃ e digits, input.foldl Encoder.step ⟨0, 0, []⟩ = e ∧
    e.out = digits.map symbol ∧ e.bitsLeft < 5 ∧
      Holds 5 64 (valueOf 8 (input.map UInt8.toNat)) (input.length * 8) e.buffer.toNat e.bitsLeft digits := by
  induction input using List.reverseRecOn with
  | nil => exact ⟨_, [], rfl, rfl, by simp, Holds.empty 5 64⟩
  | append_singleton input b ih =>
    obtain ⟨e, digits, hfold, hout, hleft, hholds⟩ := ih
    have hb : b.toUInt64.toNat < 2 ^ 8 := by
      rw [UInt8.toNat_toUInt64]
      exact b.toNat_lt
    have hpush := hholds.push 8 b.toUInt64.toNat hb
    have hbuffer : ((e.buffer <<< 8) ||| b.toUInt64).toNat = (e.buffer.toNat * 2 ^ 8 + b.toUInt64.toNat) % 2 ^ 64 :=
      toNat_push e.buffer b.toUInt64 8 (by omega) hb
    rw [← hbuffer] at hpush
    obtain ⟨written, left, hwrite, hlt, hnext⟩ := writeSymbols_holds _ _ _ (by omega) hpush
    rw [List.foldl_append, hfold, List.foldl_cons, List.foldl_nil, Encoder.step, hout, hwrite]
    refine ⟨_, written, rfl, rfl, hlt, ?_⟩
    rw [List.map_append, List.map_singleton, valueOf_concat, List.length_append, List.length_singleton, Nat.add_mul]
    rwa [UInt8.toNat_toUInt64] at hnext

private theorem base32Encode_eq (input : List UInt8) :
    ∃ digits pad, base32Encode input = digits.map symbol ∧ pad < 5 ∧
    (∀ d ∈ digits, d < 2 ^ 5) ∧ digits.length * 5 = input.length * 8 + pad ∧
      valueOf 5 digits = valueOf 8 (input.map UInt8.toNat) * 2 ^ pad := by
  obtain ⟨e, digits, hfold, hout, hleft, hholds⟩ := encoder_holds input
  unfold base32Encode
  simp only [hfold]
  by_cases hzero : 0 < e.bitsLeft
  · have hflush := hholds.flush (by omega) (by omega)
    have hshift : (e.buffer <<< UInt64.ofNat (5 - e.bitsLeft)).toNat = e.buffer.toNat * 2 ^ (5 - e.bitsLeft) % 2 ^ 64 := by
      have hpush := toNat_push e.buffer 0 (5 - e.bitsLeft) (by omega) (Nat.two_pow_pos _)
      simpa using hpush
    have hdigit : ((e.buffer <<< UInt64.ofNat (5 - e.bitsLeft)) &&& 0x1F).toNat =
        e.buffer.toNat * 2 ^ (5 - e.bitsLeft) % 2 ^ 64 % 2 ^ 5 := by
      rw [UInt64.toNat_and, hshift]
      exact Nat.and_two_pow_sub_one_eq_mod _ 5
    rw [if_pos hzero, hdigit, hout]
    refine ⟨_, 5 - e.bitsLeft, by rw [List.map_append, List.map_singleton], by omega, hflush.digits, ?_, ?_⟩
    · exact hflush.count
    · rw [hflush.written, Nat.pow_zero, Nat.div_one]
  · have hnone : e.bitsLeft = 0 := by omega
    rw [hnone] at hholds
    rw [if_neg hzero]
    refine ⟨digits, 0, hout, by omega, hholds.digits, hholds.count, ?_⟩
    rw [hholds.written, Nat.pow_zero, Nat.div_one, Nat.mul_one]

private theorem position_of_upper {c : Char} {d : Nat} (hd : d < 2 ^ 5) (h : toAsciiUppercase c = symbol d) :
    position c = some d := by
  have hall : ∀ d < 32, base32Alphabet.idxOf? (UInt8.ofNat (symbol d).toNat) = some d := by decide
  rw [position, h]
  exact hall d hd

private theorem decode_eq (t : Text) (d : Decoder) : t.foldlM Decoder.step d =
    ((t.filter fun c => !skipped c).mapM position).map fun vals => vals.foldl Decoder.push d := by
  induction t generalizing d with
  | nil => rfl
  | cons c t ih =>
    rw [List.foldlM_cons, Decoder.step]
    by_cases hskip : skipped c = true
    · rw [if_pos hskip, List.filter_cons_of_neg (by simp [hskip])]
      exact ih d
    · rw [if_neg hskip, List.filter_cons_of_pos (by simp [hskip]), List.mapM_cons]
      cases hval : position c with
      | none => rfl
      | some val =>
        have hrest := ih (d.push val)
        simp only [Option.map_some, Option.bind_eq_bind, Option.bind_some, hrest]
        cases (t.filter fun c => !skipped c).mapM position <;> rfl

private theorem push_holds (vals : List Nat) (hvals : ∀ v ∈ vals, v < 2 ^ 5) :
    ∃ d, vals.foldl Decoder.push ⟨0, 0, []⟩ = d ∧
    d.bits < 8 ∧ Holds 8 64 (valueOf 5 vals) (vals.length * 5) d.buffer.toNat d.bits (d.out.map UInt8.toNat) := by
  induction vals using List.reverseRecOn with
  | nil => exact ⟨_, rfl, by simp, Holds.empty 8 64⟩
  | append_singleton vals val ih =>
    obtain ⟨d, hfold, hbits, hholds⟩ := ih fun v hv => hvals v (List.mem_append_left _ hv)
    have hval : val < 2 ^ 5 := hvals val (List.mem_append_right _ List.mem_cons_self)
    have hword : (UInt64.ofNat val).toNat = val := UInt64.toNat_ofNat_of_lt' (by unfold UInt64.size; omega)
    have hpush := hholds.push 5 val hval
    have hbuffer : ((d.buffer <<< 5) ||| UInt64.ofNat val).toNat = (d.buffer.toNat * 2 ^ 5 + val) % 2 ^ 64 := by
      have hnext := toNat_push d.buffer (UInt64.ofNat val) 5 (by omega) (by rwa [hword])
      rwa [hword] at hnext
    rw [← hbuffer] at hpush
    rw [List.foldl_append, hfold, List.foldl_cons, List.foldl_nil, valueOf_concat, List.length_append,
      List.length_singleton, Nat.add_mul, Decoder.push]
    by_cases hfull : 8 ≤ d.bits + 5
    · have hwrite := hpush.write hfull (by omega)
      have hdigit := toNat_digit ((d.buffer <<< 5) ||| UInt64.ofNat val) 0xFF 8 (d.bits + 5 - 8) (by omega) rfl
      rw [if_pos hfull]
      refine ⟨_, rfl, by simp only; omega, ?_⟩
      have hbyte : ((((d.buffer <<< 5) ||| UInt64.ofNat val) >>> UInt64.ofNat (d.bits + 5 - 8)) &&& 0xFF).toUInt8.toNat =
          ((d.buffer <<< 5) ||| UInt64.ofNat val).toNat / 2 ^ (d.bits + 5 - 8) % 2 ^ 8 := by
        rw [UInt64.toNat_toUInt8, hdigit, Nat.mod_mod]
      rw [List.map_append, List.map_singleton, hbyte]
      exact hwrite
    · rw [if_neg hfull]
      exact ⟨_, rfl, by simp only; omega, hpush⟩

private theorem mapM_position {t : Text} {digits : List Nat} (h : t.map toAsciiUppercase = digits.map symbol)
    (hdigits : ∀ d ∈ digits, d < 2 ^ 5) : t.mapM position = some digits := by
  induction digits generalizing t with
  | nil =>
    rw [List.map_nil, List.map_eq_nil_iff] at h
    rw [h]
    rfl
  | cons d digits ih =>
    obtain ⟨c, rest, ht, hc, hrest⟩ := List.map_eq_cons_iff.1 h
    have hd := hdigits d List.mem_cons_self
    rw [ht, List.mapM_cons, position_of_upper hd hc, ih hrest fun v hv => hdigits v (List.mem_cons_of_mem _ hv)]
    rfl

private theorem base32Decode_variant (b : List UInt8) (t : Text)
    (h : (t.filter fun c => !skipped c).map toAsciiUppercase = base32Encode b) : base32Decode t = some b := by
  obtain ⟨digits, pad, hencode, hpad, hdigits, hlength, hvalue⟩ := base32Encode_eq b
  obtain ⟨d, hfold, hbits, hholds⟩ := push_holds digits hdigits
  rw [hencode] at h
  have hcount := hholds.count
  rw [List.length_map] at hcount
  have hsame : d.bits = pad ∧ d.out.length = b.length := by omega
  have hbytes : d.out.map UInt8.toNat = b.map UInt8.toNat := by
    apply hholds.eq_of_valueOf (by omega)
    · rw [List.length_map, List.length_map, hsame.2]
    · intro n hn
      obtain ⟨byte, -, hbyte⟩ := List.mem_map.1 hn
      rw [← hbyte]
      exact byte.toNat_lt
    · rw [hvalue, hsame.1, Nat.mul_div_cancel _ (Nat.two_pow_pos pad)]
  have hout : d.out = b := (List.map_injective_iff.2 fun x y hxy => UInt8.toNat_inj.1 hxy) hbytes
  rw [base32Decode, decode_eq, mapM_position h hdigits]
  simp only [Option.map_some, hfold, hout]

/-- A letter or digit of the alphabet, in either case. -/
def isSymbol (c : Char) : Prop :=
  0x41 ≤ c.toNat ∧ c.toNat ≤ 0x5A ∨ 0x61 ≤ c.toNat ∧ c.toNat ≤ 0x7A ∨ 0x32 ≤ c.toNat ∧ c.toNat ≤ 0x37

/-- A foreign character whose low byte is in the alphabet. -/
def Lookalike (c : Char) : Prop :=
  0x80 ≤ c.toNat ∧
    (0x41 ≤ c.toNat % 0x100 ∧ c.toNat % 0x100 ≤ 0x5A ∨ 0x32 ≤ c.toNat % 0x100 ∧ c.toNat % 0x100 ≤ 0x37)

private theorem mem_base32Alphabet (b : UInt8) : b ∈ base32Alphabet ↔
    0x41 ≤ b.toNat ∧ b.toNat ≤ 0x5A ∨ 0x32 ≤ b.toNat ∧ b.toNat ≤ 0x37 := by
  simp only [base32Alphabet, List.map_cons, List.map_nil, List.mem_cons, List.not_mem_nil, or_false,
    ← UInt8.toNat_inj, UInt8.toNat_ofNat', Char.reduceToNat]
  omega

private theorem toNat_toAsciiUppercase (c : Char) : (toAsciiUppercase c).toNat =
    if 0x61 ≤ c.toNat ∧ c.toNat ≤ 0x7A then c.toNat - 0x20 else c.toNat := by
  unfold toAsciiUppercase
  split
  · rw [Char.toNat_ofNat, if_pos]
    exact Or.inl (by omega)
  · rfl

private theorem position_eq_none_iff (c : Char) : position c = none ↔ ¬ (isSymbol c ∨ Lookalike c) := by
  rw [position, List.idxOf?_eq_none_iff, mem_base32Alphabet, UInt8.toNat_ofNat', toNat_toAsciiUppercase, isSymbol,
    Lookalike]
  split <;> omega

private theorem base32Decode_isSome (s : Text) : (base32Decode s).isSome = true ↔
    ∀ c ∈ s, skipped c = false → isSymbol c ∨ Lookalike c := by
  rw [base32Decode, decode_eq, Option.isSome_map, Option.isSome_map]
  have hmapM : ∀ t : Text, (t.mapM position).isSome = true ↔ ∀ c ∈ t, position c ≠ none := by
    intro t
    induction t with
    | nil => simp
    | cons c t ih =>
      rw [List.mapM_cons, List.forall_mem_cons, ← ih]
      cases position c <;> cases t.mapM position <;> simp
  rw [hmapM]
  simp only [List.mem_filter, Bool.not_eq_true', ne_eq, position_eq_none_iff, not_not, and_imp]

/-- Secrets decode exactly: what is encoded comes back, and no foreign character is taken. -/
structure DecodesExactly (s : Text) : Prop where
  roundTrips : ∀ b t, (t.filter fun c => !skipped c).map toAsciiUppercase = base32Encode b → base32Decode t = some b
  isSome_iff : (base32Decode s).isSome = true ↔ ∀ c ∈ s, skipped c = false → isSymbol c
  accepts : ∀ secret, TotpSecret.fromBase32 s = some secret →
    (∀ c ∈ s, skipped c = false → isSymbol c) ∧ minSecretBytes ≤ secret.bytes.length

private theorem fromBase32_eq_some {s : Text} {secret : TotpSecret}
    (h : TotpSecret.fromBase32 s = some secret) :
    base32Decode s = some secret.bytes ∧ minSecretBytes ≤ secret.bytes.length := by
  unfold TotpSecret.fromBase32 at h
  obtain ⟨b, hb, hsecret⟩ := Option.map_eq_some_iff.1 h
  obtain ⟨hdecode, hlength⟩ := Option.filter_eq_some_iff.1 hb
  subst hsecret
  exact ⟨hdecode, of_decide_eq_true hlength⟩

/-- They do unless the text has foreign characters that look like the alphabet's, and no others. -/
theorem decodes_exactly_iff (s : Text) : DecodesExactly s ↔
    (∀ c ∈ s, skipped c = false → isSymbol c) ∨ ∃ c ∈ s, skipped c = false ∧ ¬ isSymbol c ∧ ¬ Lookalike c := by
  constructor
  · intro h
    by_contra hneither
    rw [not_or] at hneither
    apply hneither.1
    apply h.isSome_iff.1
    rw [base32Decode_isSome]
    intro c hc hskip
    by_contra hforeign
    rw [not_or] at hforeign
    exact hneither.2 ⟨c, hc, hskip, hforeign.1, hforeign.2⟩
  · intro h
    have hiff : (base32Decode s).isSome = true ↔ ∀ c ∈ s, skipped c = false → isSymbol c := by
      rw [base32Decode_isSome]
      constructor
      · intro htaken
        rcases h with hall | ⟨c, hc, hskip, hsymbol, hlook⟩
        · exact hall
        · exact absurd (htaken c hc hskip) (not_or.2 ⟨hsymbol, hlook⟩)
      · intro hall c hc hskip
        exact Or.inl (hall c hc hskip)
    refine ⟨base32Decode_variant, hiff, ?_⟩
    intro secret hsecret
    obtain ⟨hdecode, hlength⟩ := fromBase32_eq_some hsecret
    exact ⟨hiff.1 (by rw [hdecode]; rfl), hlength⟩

/-- `Ł` has the low byte of `A`. -/
theorem base32Decode_takes_foreign : base32Decode ['\u0141', '\u0141'] = some [0] ∧
    ¬ DecodesExactly ['\u0141', '\u0141'] := by
  have hdecode : base32Decode ['\u0141', '\u0141'] = some [0] := by decide
  refine ⟨hdecode, ?_⟩
  intro h
  have hsymbol := h.isSome_iff.1 (by rw [hdecode]; rfl) '\u0141' List.mem_cons_self (by decide)
  revert hsymbol
  unfold isSymbol
  decide

end Rustango.Totp
