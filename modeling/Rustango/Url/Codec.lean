import Mathlib
import Rustango.Lib.Utf8

/-!
# Percent encoding

`url_encode` and the decoders of `url_codec.rs`: a text is its UTF-8 bytes, an escape is `%` and two
hex digits, and a `%` without them stands for itself.
-/

namespace Rustango.Url

open Utf8

abbrev Text := List Char

instance : LawfulBEq Text := inferInstance

def percent : UInt8 := 0x25

def isHex (b : UInt8) : Bool :=
  0x30 ≤ b.toNat && b.toNat ≤ 0x39 || 0x41 ≤ b.toNat && b.toNat ≤ 0x46 ||
    0x61 ≤ b.toNat && b.toNat ≤ 0x66

def hexValue (b : UInt8) : Nat :=
  if b.toNat ≤ 0x39 then b.toNat - 0x30 else if b.toNat ≤ 0x46 then b.toNat - 0x37 else b.toNat - 0x57

def hexDigit (n : Nat) : UInt8 := UInt8.ofNat (if n < 10 then 0x30 + n else 0x37 + n)

/-- `%{b:02X}`. -/
def percentByte (b : UInt8) : Bytes := [percent, hexDigit (b.toNat / 16), hexDigit (b.toNat % 16)]

/-- Each byte as the character of its number. -/
def asChars (bs : Bytes) : Text := bs.map fun b => Char.ofNat b.toNat

/-- The RFC 3986 unreserved set. -/
def isUnreserved (b : UInt8) : Bool :=
  0x41 ≤ b.toNat && b.toNat ≤ 0x5A || 0x61 ≤ b.toNat && b.toNat ≤ 0x7A || 0x30 ≤ b.toNat && b.toNat ≤ 0x39 ||
    b.toNat == 0x2D || b.toNat == 0x5F || b.toNat == 0x2E || b.toNat == 0x7E

def encodeByte (b : UInt8) : Bytes := if isUnreserved b then [b] else percentByte b

def urlEncode (s : Text) : Text := asChars ((encode s).flatMap encodeByte)

/-- The byte of the escape that bytes begin with. -/
def hexPairAt : Bytes → Option UInt8
  | p :: h :: l :: _ =>
    if p = percent && isHex h && isHex l then some (UInt8.ofNat (16 * hexValue h + hexValue l)) else none
  | _ => none

def plain (plusIsSpace : Bool) (b : UInt8) : UInt8 := if plusIsSpace && b = 0x2B then 0x20 else b

/-- The bytes that `decode_escapes` collects, `skip` bytes of the last escape still to come. -/
def unescape (plusIsSpace : Bool) (skip : Nat) : Bytes → Bytes
  | [] => []
  | b :: rest =>
    match skip with
    | skip + 1 => unescape plusIsSpace skip rest
    | 0 =>
      match hexPairAt (b :: rest) with
      | some v => v :: unescape plusIsSpace 2 rest
      | none => plain plusIsSpace b :: unescape plusIsSpace 0 rest

def decodeEscapes (s : Text) (plusIsSpace : Bool) : Text :=
  fromUtf8Lossy (unescape plusIsSpace 0 (encode s))

def urlDecode (s : Text) : Text := decodeEscapes s true

def percentDecodePath (s : Text) : Text := decodeEscapes s false

section Equations
-- Their equations are derived here, once for all the proofs that unfold them.
attribute [local simp] hexPairAt unescape
end Equations

private theorem isHex_hexDigit (n : Nat) (h : n < 16) : isHex (hexDigit n) = true := by
  interval_cases n <;> decide

private theorem hexValue_hexDigit (n : Nat) (h : n < 16) : hexValue (hexDigit n) = n := by
  interval_cases n <;> decide

/-- An escape is the three bytes of its own. -/
theorem hexPairAt_eq_some (bs : Bytes) (v : UInt8) :
    hexPairAt bs = some v ↔ ∃ h l rest, bs = percent :: h :: l :: rest ∧ isHex h = true ∧
      isHex l = true ∧ v = UInt8.ofNat (16 * hexValue h + hexValue l) := by
  unfold hexPairAt
  constructor
  · intro hpair
    split at hpair
    · rename_i p h l rest
      split at hpair
      · rename_i hhex
        simp only [Bool.and_eq_true, decide_eq_true_eq] at hhex
        cases hpair
        exact ⟨h, l, rest, by rw [hhex.1.1], hhex.1.2, hhex.2, rfl⟩
      · cases hpair
    · cases hpair
  · intro hbytes
    obtain ⟨h, l, rest, rfl, hh, hl, rfl⟩ := hbytes
    simp [hh, hl]

theorem hexPairAt_escape (h l : UInt8) (rest : Bytes) (hh : isHex h = true) (hl : isHex l = true) :
    hexPairAt (percent :: h :: l :: rest) = some (UInt8.ofNat (16 * hexValue h + hexValue l)) := by
  simp [hexPairAt, hh, hl]

theorem hexPairAt_percentByte (b : UInt8) (rest : Bytes) : hexPairAt (percentByte b ++ rest) = some b := by
  have hlt : b.toNat < 256 := UInt8.toNat_lt_size b
  have hhigh : b.toNat / 16 < 16 := by omega
  have hlow : b.toNat % 16 < 16 := by omega
  have hvalue : 16 * (b.toNat / 16) + b.toNat % 16 = b.toNat := by omega
  unfold percentByte
  simp only [List.cons_append, List.nil_append]
  rw [hexPairAt_escape _ _ _ (isHex_hexDigit _ hhigh) (isHex_hexDigit _ hlow), hexValue_hexDigit _ hhigh,
    hexValue_hexDigit _ hlow, hvalue, UInt8.ofNat_toNat]

theorem hexPairAt_of_ne (b : UInt8) (rest : Bytes) (h : b ≠ percent) : hexPairAt (b :: rest) = none := by
  unfold hexPairAt
  split
  · rename_i p a l tail heq
    cases heq
    simp [h]
  · rfl

@[simp] theorem hexPairAt_nil : hexPairAt [] = none := rfl

theorem isHex_ne_percent (b : UInt8) (h : isHex b = true) : b ≠ percent := by
  intro heq
  subst heq
  revert h
  decide

theorem isAscii_of_isHex (b : UInt8) (h : isHex b = true) : isAscii b = true := by
  simp [isHex] at h
  simp [isAscii]
  omega

/-- Bytes are escapes and bytes that begin none. -/
theorem escape_induction {motive : Bytes → Prop} (nil : motive [])
    (escape : ∀ h l rest, isHex h = true → isHex l = true → motive rest →
      motive (percent :: h :: l :: rest))
    (literal : ∀ b rest, hexPairAt (b :: rest) = none → motive rest → motive (b :: rest))
    (bs : Bytes) : motive bs := by
  induction hlength : bs.length using Nat.strong_induction_on generalizing bs with
  | _ n ih =>
  subst hlength
  cases bs with
  | nil => exact nil
  | cons b rest =>
    cases hpair : hexPairAt (b :: rest) with
    | none => exact literal b rest hpair (ih rest.length (by simp) rest rfl)
    | some v =>
      obtain ⟨h, l, tail, heq, hh, hl, hv⟩ := (hexPairAt_eq_some _ _).1 hpair
      rw [heq]
      have hshorter : tail.length < (b :: rest).length := by
        rw [heq]
        simp
        omega
      exact escape h l tail hh hl (ih tail.length hshorter tail rfl)

variable (plusIsSpace : Bool)

private theorem unescape_drop (skip : Nat) (bs : Bytes) :
    unescape plusIsSpace skip bs = unescape plusIsSpace 0 (bs.drop skip) := by
  induction bs generalizing skip with
  | nil => simp [unescape]
  | cons b rest ih =>
    cases skip with
    | zero => rfl
    | succ skip =>
      rw [unescape, List.drop_succ_cons]
      exact ih skip

@[simp] theorem unescape_nil (skip : Nat) : unescape plusIsSpace skip [] = [] := rfl

theorem unescape_escape (h l : UInt8) (rest : Bytes) (hh : isHex h = true) (hl : isHex l = true) :
    unescape plusIsSpace 0 (percent :: h :: l :: rest) =
      UInt8.ofNat (16 * hexValue h + hexValue l) :: unescape plusIsSpace 0 rest := by
  rw [unescape]
  simp only [hexPairAt_escape h l rest hh hl]
  rw [unescape_drop]
  rfl

theorem unescape_literal (b : UInt8) (rest : Bytes) (h : hexPairAt (b :: rest) = none) :
    unescape plusIsSpace 0 (b :: rest) = plain plusIsSpace b :: unescape plusIsSpace 0 rest := by
  rw [unescape]
  simp only [h]

theorem unescape_percentByte (b : UInt8) (rest : Bytes) :
    unescape plusIsSpace 0 (percentByte b ++ rest) = b :: unescape plusIsSpace 0 rest := by
  have hpair := hexPairAt_percentByte b rest
  unfold percentByte at hpair ⊢
  simp only [List.cons_append, List.nil_append] at hpair ⊢
  rw [unescape]
  simp only [hpair]
  rw [unescape_drop]
  rfl

theorem unescape_plain (bs rest : Bytes) (h : ∀ b ∈ bs, b ≠ percent ∧ plain plusIsSpace b = b) :
    unescape plusIsSpace 0 (bs ++ rest) = bs ++ unescape plusIsSpace 0 rest := by
  induction bs with
  | nil => rfl
  | cons b bs ih =>
    have hb := h b List.mem_cons_self
    rw [List.cons_append, unescape_literal plusIsSpace b _ (hexPairAt_of_ne b _ hb.1), hb.2,
      ih fun b hb => h b (List.mem_cons_of_mem _ hb)]
    rfl

private theorem unescape_eq_nil (bs : Bytes) : unescape plusIsSpace 0 bs = [] ↔ bs = [] := by
  constructor
  · intro h
    cases bs with
    | nil => rfl
    | cons b rest =>
      rw [unescape] at h
      cases hpair : hexPairAt (b :: rest) <;> simp [hpair] at h
  · intro h
    rw [h]
    rfl

theorem decodeEscapes_eq_nil (s : Text) : decodeEscapes s plusIsSpace = [] ↔ s = [] := by
  rw [decodeEscapes, fromUtf8Lossy_eq_nil, unescape_eq_nil, encode_eq_nil]

theorem isUnreserved_bounds (b : UInt8) (h : isUnreserved b = true) :
    isAscii b = true ∧ b ≠ percent ∧ b ≠ 0x2B := by
  refine ⟨?_, ?_, ?_⟩
  · simp [isUnreserved] at h
    simp [isAscii]
    omega
  · intro heq
    subst heq
    revert h
    decide
  · intro heq
    subst heq
    revert h
    decide

private theorem unescape_encodeByte (b : UInt8) (rest : Bytes) :
    unescape plusIsSpace 0 (encodeByte b ++ rest) = b :: unescape plusIsSpace 0 rest := by
  unfold encodeByte
  split
  · rename_i h
    have hb := isUnreserved_bounds b h
    apply unescape_plain plusIsSpace [b] rest
    intro c hc
    rw [List.mem_singleton.1 hc]
    refine ⟨hb.2.1, ?_⟩
    simp [plain, hb.2.2]
  · exact unescape_percentByte plusIsSpace b rest

theorem unescape_encodeBytes (bs rest : Bytes) :
    unescape plusIsSpace 0 (bs.flatMap encodeByte ++ rest) = bs ++ unescape plusIsSpace 0 rest := by
  induction bs with
  | nil => rfl
  | cons b bs ih =>
    rw [List.flatMap_cons, List.append_assoc, unescape_encodeByte, ih]
    rfl

theorem encode_asChars (bs : Bytes) (h : ∀ b ∈ bs, isAscii b = true) : encode (asChars bs) = bs := by
  induction bs with
  | nil => rfl
  | cons b bs ih =>
    have hrest := ih fun c hc => h c (List.mem_cons_of_mem _ hc)
    unfold asChars at hrest ⊢
    rw [List.map_cons, encode_cons, encodeChar_ofNat b (h b List.mem_cons_self), hrest]
    rfl

theorem isAscii_percentByte (b c : UInt8) (hc : c ∈ percentByte b) : isAscii c = true := by
  have hlt : b.toNat < 256 := UInt8.toNat_lt_size b
  simp [percentByte] at hc
  rcases hc with rfl | rfl | rfl
  · decide
  · exact isAscii_of_isHex _ (isHex_hexDigit _ (by omega))
  · exact isAscii_of_isHex _ (isHex_hexDigit _ (by omega))

private theorem isAscii_encodeByte (b c : UInt8) (hc : c ∈ encodeByte b) : isAscii c = true := by
  unfold encodeByte at hc
  split at hc
  · rename_i h
    rw [List.mem_singleton.1 hc]
    exact (isUnreserved_bounds b h).1
  · exact isAscii_percentByte b c hc

theorem encode_urlEncode (s : Text) : encode (urlEncode s) = (encode s).flatMap encodeByte := by
  apply encode_asChars
  intro b hb
  obtain ⟨c, hc, hb⟩ := List.mem_flatMap.1 hb
  exact isAscii_encodeByte c b hb

theorem decodeEscapes_urlEncode (s : Text) : decodeEscapes (urlEncode s) plusIsSpace = s := by
  have hbytes := unescape_encodeBytes plusIsSpace (encode s) []
  simp only [List.append_nil, unescape_nil] at hbytes
  rw [decodeEscapes, encode_urlEncode, hbytes, fromUtf8Lossy_encode]

private theorem isUnreserved_of_isHex (b : UInt8) (h : isHex b = true) : isUnreserved b = true := by
  simp [isHex] at h
  simp [isUnreserved]
  omega

private theorem byte_of_urlEncode (s : Text) (c : Char) (hc : c ∈ urlEncode s) :
    ∃ b : UInt8, c = Char.ofNat b.toNat ∧ (isUnreserved b = true ∨ b = percent) := by
  unfold urlEncode asChars at hc
  obtain ⟨b, hb, rfl⟩ := List.mem_map.1 hc
  obtain ⟨a, -, hb⟩ := List.mem_flatMap.1 hb
  have hlt : a.toNat < 256 := UInt8.toNat_lt_size a
  refine ⟨b, rfl, ?_⟩
  unfold encodeByte at hb
  split at hb
  · rename_i h
    rw [List.mem_singleton.1 hb]
    exact Or.inl h
  · simp only [percentByte, List.mem_cons, List.not_mem_nil, or_false] at hb
    rcases hb with rfl | rfl | rfl
    · exact Or.inr rfl
    · exact Or.inl (isUnreserved_of_isHex _ (isHex_hexDigit _ (by omega)))
    · exact Or.inl (isUnreserved_of_isHex _ (isHex_hexDigit _ (by omega)))

/-- A character of ASCII outside them is not written. -/
theorem not_mem_urlEncode (s : Text) (b : UInt8) (hascii : isAscii b = true) (hb : isUnreserved b = false)
    (hpercent : b ≠ percent) : Char.ofNat b.toNat ∉ urlEncode s := by
  intro hmem
  obtain ⟨a, ha, hwritten⟩ := byte_of_urlEncode s _ hmem
  have hsame : a = b := by
    have halow : isAscii a = true := by
      rcases hwritten with h | h
      · exact (isUnreserved_bounds a h).1
      · rw [h]
        decide
    have hbytes := encodeChar_ofNat b hascii
    rw [ha, encodeChar_ofNat a halow] at hbytes
    exact List.singleton_inj.1 hbytes
  rw [hsame, hb] at hwritten
  simp [hpercent] at hwritten

theorem slash_not_mem_urlEncode (s : Text) : '/' ∉ urlEncode s :=
  not_mem_urlEncode s 0x2F (by decide) (by decide) (by decide)

theorem urlEncode_eq_nil (s : Text) : urlEncode s = [] ↔ s = [] := by
  rw [← decodeEscapes_eq_nil false, decodeEscapes_urlEncode]

end Rustango.Url
