import Mathlib
import Rustango.Url.Codec

/-!
# URIs and IRIs

`iri_to_uri` and `uri_to_iri` of `url_codec.rs`. The second reads each run of escapes as one stretch of
UTF-8 and writes its characters, the reserved ones as escapes again.
-/

namespace Rustango.Url

open Utf8

/-- The set that `iri_to_uri` writes as it is: the unreserved bytes, the reserved ones and `%`. -/
def isUriSafe (b : UInt8) : Bool :=
  isUnreserved b || b.toNat ∈ [0x2F, 0x3A, 0x3F, 0x23, 0x5B, 0x5D, 0x40, 0x21, 0x24, 0x26, 0x27, 0x28, 0x29,
    0x2A, 0x2B, 0x2C, 0x3B, 0x3D, 0x25]

def safeByte (b : UInt8) : Bytes := if isUriSafe b then [b] else percentByte b

def iriToUri (iri : Text) : Text := asChars ((encode iri).flatMap safeByte)

def isUriReserved (c : Char) : Bool :=
  c ∈ [':', '/', '?', '#', '[', ']', '@', '!', '$', '&', '\x27', '(', ')', '*', '+', ',', ';', '=', '%']

/-- The bytes of the escapes that bytes begin with, `skip` bytes of the last escape still to come. -/
def escapeRun (skip : Nat) : Bytes → Bytes
  | [] => []
  | b :: rest =>
    match skip with
    | skip + 1 => escapeRun skip rest
    | 0 =>
      match hexPairAt (b :: rest) with
      | some v => v :: escapeRun 2 rest
      | none => []

/-- A decoded character, one that is reserved in its encoded form again. -/
def iriChar (c : Char) : Bytes :=
  if isUriReserved c then (String.utf8EncodeChar c).flatMap percentByte else String.utf8EncodeChar c

/-- What is written for the escapes `raw` of the bytes `run`. -/
def iriRun (run raw : Bytes) : Bytes :=
  match fromUtf8 run with
  | some cs => cs.flatMap iriChar
  | none => raw

/-- The bytes of `uri_to_iri`, `skip` bytes of the last run still to come. -/
def uriToIriBytes (skip : Nat) : Bytes → Bytes
  | [] => []
  | b :: rest =>
    match skip with
    | skip + 1 => uriToIriBytes skip rest
    | 0 =>
      match hexPairAt (b :: rest) with
      | none => b :: uriToIriBytes 0 rest
      | some _ =>
        let width := 3 * (escapeRun 0 (b :: rest)).length
        iriRun (escapeRun 0 (b :: rest)) ((b :: rest).take width) ++ uriToIriBytes (width - 1) rest

/-- `String::from_utf8(out).unwrap_or_default()` of those bytes. -/
def uriToIri (uri : Text) : Text := (fromUtf8 (uriToIriBytes 0 (encode uri))).getD []

section Equations
-- Their equations are derived here, once for all the proofs that unfold them.
attribute [local simp] escapeRun uriToIriBytes
end Equations

private theorem isAscii_safeByte (b c : UInt8) (hc : c ∈ safeByte b) : isAscii c = true := by
  unfold safeByte at hc
  split at hc
  · rename_i h
    rw [List.mem_singleton.1 hc]
    rcases Bool.or_eq_true _ _ ▸ h with h | h
    · exact (isUnreserved_bounds b h).1
    · simp at h
      simp [isAscii]
      omega
  · exact isAscii_percentByte b c hc

private theorem encode_iriToUri (s : Text) : encode (iriToUri s) = (encode s).flatMap safeByte := by
  apply encode_asChars
  intro b hb
  obtain ⟨c, hc, hb⟩ := List.mem_flatMap.1 hb
  exact isAscii_safeByte c b hb

private theorem isUriSafe_of_isHex (b : UInt8) (h : isHex b = true) : isUriSafe b = true := by
  have hunreserved : isUnreserved b = true := by
    simp [isHex] at h
    simp [isUnreserved]
    omega
  rw [isUriSafe, hunreserved, Bool.true_or]

private theorem safeByte_of_isHex (b : UInt8) (h : isHex b = true) : safeByte b = [b] := by
  rw [safeByte, if_pos (isUriSafe_of_isHex b h)]

private theorem safeByte_percent : safeByte percent = [percent] := by decide

private theorem digit_of_safe (rest tail : Bytes) (d : UInt8) (hd : isHex d = true)
    (h : rest.flatMap safeByte = d :: tail) : ∃ after, rest = d :: after ∧ after.flatMap safeByte = tail := by
  cases rest with
  | nil => cases h
  | cons b after =>
    rw [List.flatMap_cons, safeByte] at h
    split at h
    · rw [List.singleton_append, List.cons.injEq] at h
      exact ⟨after, by rw [h.1], h.2⟩
    · unfold percentByte at h
      simp only [List.cons_append, List.nil_append, List.cons.injEq] at h
      exact absurd h.1.symm (isHex_ne_percent d hd)

private theorem unescape_safe (bs : Bytes) : unescape false 0 (bs.flatMap safeByte) = unescape false 0 bs := by
  induction bs using escape_induction with
  | nil => rfl
  | escape h l rest hh hl ih =>
    simp only [List.flatMap_cons, safeByte_percent, safeByte_of_isHex h hh, safeByte_of_isHex l hl,
      List.singleton_append]
    rw [unescape_escape false h l _ hh hl, ih, unescape_escape false h l rest hh hl]
  | literal b rest hnone ih =>
    rw [List.flatMap_cons, unescape_literal false b rest hnone]
    by_cases hsafe : isUriSafe b = true
    · have hwritten : hexPairAt (b :: rest.flatMap safeByte) = none := by
        cases hpair : hexPairAt (b :: rest.flatMap safeByte) with
        | none => rfl
        | some v =>
          obtain ⟨d, l, tail, heq, hd, hl, -⟩ := (hexPairAt_eq_some _ _).1 hpair
          obtain ⟨after, hrest, hafter⟩ := digit_of_safe rest _ d hd (List.cons.inj heq).2
          obtain ⟨last, hlast, -⟩ := digit_of_safe after _ l hl hafter
          rw [(List.cons.inj heq).1, hrest, hlast, hexPairAt_escape d l last hd hl] at hnone
          cases hnone
      rw [safeByte, if_pos hsafe, List.singleton_append, unescape_literal false b _ hwritten, ih]
    · rw [safeByte, if_neg hsafe, unescape_percentByte, ih]
      rfl

theorem percentDecodePath_iriToUri (s : Text) : percentDecodePath (iriToUri s) = percentDecodePath s := by
  rw [percentDecodePath, decodeEscapes, encode_iriToUri, unescape_safe]
  rfl

/-- `raw` is escapes only, of the bytes `run`. -/
inductive Escapes : Bytes → Bytes → Prop
  | nil : Escapes [] []
  | cons (h l : UInt8) (run raw : Bytes) (hh : isHex h = true) (hl : isHex l = true) (tail : Escapes run raw) :
      Escapes (UInt8.ofNat (16 * hexValue h + hexValue l) :: run) (percent :: h :: l :: raw)

private theorem escapeRun_drop (skip : Nat) (bs : Bytes) : escapeRun skip bs = escapeRun 0 (bs.drop skip) := by
  induction bs generalizing skip with
  | nil => simp [escapeRun]
  | cons b rest ih =>
    cases skip with
    | zero => rfl
    | succ skip =>
      rw [escapeRun, List.drop_succ_cons]
      exact ih skip

theorem escapeRun_escape (h l : UInt8) (rest : Bytes) (hh : isHex h = true) (hl : isHex l = true) :
    escapeRun 0 (percent :: h :: l :: rest) =
      UInt8.ofNat (16 * hexValue h + hexValue l) :: escapeRun 0 rest := by
  rw [escapeRun]
  simp only [hexPairAt_escape h l rest hh hl]
  rw [escapeRun_drop]
  rfl

private theorem escapeRun_none (bs : Bytes) (h : hexPairAt bs = none) : escapeRun 0 bs = [] := by
  cases bs with
  | nil => rfl
  | cons b rest =>
    rw [escapeRun]
    simp only [h]

private theorem escapeRun_append {run raw : Bytes} (hescapes : Escapes run raw) (rest : Bytes) :
    escapeRun 0 (raw ++ rest) = run ++ escapeRun 0 rest := by
  induction hescapes with
  | nil => rfl
  | cons h l run raw hh hl _ ih =>
    simp only [List.cons_append]
    rw [escapeRun_escape h l _ hh hl, ih]

private theorem length_escapes {run raw : Bytes} (hescapes : Escapes run raw) :
    raw.length = 3 * run.length := by
  induction hescapes with
  | nil => rfl
  | cons h l run raw hh hl _ ih =>
    simp only [List.length_cons]
    omega

theorem isAscii_escapes {run raw : Bytes} (hescapes : Escapes run raw) (b : UInt8) (hb : b ∈ raw) :
    isAscii b = true := by
  induction hescapes with
  | nil => cases hb
  | cons h l run raw hh hl _ ih =>
    rcases List.mem_cons.1 hb with rfl | hb
    · decide
    rcases List.mem_cons.1 hb with rfl | hb
    · exact isAscii_of_isHex _ hh
    rcases List.mem_cons.1 hb with rfl | hb
    · exact isAscii_of_isHex _ hl
    · exact ih hb

theorem unescape_escapes {run raw : Bytes} (hescapes : Escapes run raw) (plusIsSpace : Bool) (rest : Bytes) :
    unescape plusIsSpace 0 (raw ++ rest) = run ++ unescape plusIsSpace 0 rest := by
  induction hescapes with
  | nil => rfl
  | cons h l run raw hh hl _ ih =>
    simp only [List.cons_append]
    rw [unescape_escape plusIsSpace h l _ hh hl, ih]

theorem exists_escapes (bs : Bytes) : ∃ raw rest, bs = raw ++ rest ∧ Escapes (escapeRun 0 bs) raw ∧
    hexPairAt rest = none := by
  induction bs using escape_induction with
  | nil => exact ⟨[], [], rfl, Escapes.nil, rfl⟩
  | escape h l rest hh hl ih =>
    obtain ⟨raw, tail, hsplit, hescapes, hnone⟩ := ih
    refine ⟨percent :: h :: l :: raw, tail, by rw [hsplit]; rfl, ?_, hnone⟩
    rw [escapeRun_escape h l rest hh hl]
    exact Escapes.cons h l _ raw hh hl hescapes
  | literal b rest hnone _ =>
    refine ⟨[], b :: rest, rfl, ?_, hnone⟩
    rw [escapeRun_none _ hnone]
    exact Escapes.nil

private theorem uriToIriBytes_drop (skip : Nat) (bs : Bytes) :
    uriToIriBytes skip bs = uriToIriBytes 0 (bs.drop skip) := by
  induction bs generalizing skip with
  | nil => simp [uriToIriBytes]
  | cons b rest ih =>
    cases skip with
    | zero => rfl
    | succ skip =>
      rw [uriToIriBytes, List.drop_succ_cons]
      exact ih skip

theorem uriToIriBytes_literal (b : UInt8) (rest : Bytes) (h : hexPairAt (b :: rest) = none) :
    uriToIriBytes 0 (b :: rest) = b :: uriToIriBytes 0 rest := by
  rw [uriToIriBytes]
  simp only [h]

theorem uriToIriBytes_plain (bs rest : Bytes) (h : ∀ b ∈ bs, b ≠ percent) :
    uriToIriBytes 0 (bs ++ rest) = bs ++ uriToIriBytes 0 rest := by
  induction bs with
  | nil => rfl
  | cons b bs ih =>
    rw [List.cons_append, uriToIriBytes_literal b _ (hexPairAt_of_ne b _ (h b List.mem_cons_self)),
      ih fun b hb => h b (List.mem_cons_of_mem _ hb)]
    rfl

/-- A run of escapes is written as one. -/
theorem uriToIriBytes_run {run raw rest : Bytes} (hescapes : Escapes run raw) (hnone : hexPairAt rest = none) :
    uriToIriBytes 0 (raw ++ rest) = iriRun run raw ++ uriToIriBytes 0 rest := by
  have hrun := escapeRun_append hescapes rest
  have hlength := length_escapes hescapes
  rw [escapeRun_none rest hnone, List.append_nil] at hrun
  cases hescapes with
  | nil => rfl
  | cons h l run raw hh hl hescapes =>
    simp only [List.cons_append] at hrun ⊢
    rw [uriToIriBytes]
    simp only [hexPairAt_escape h l (raw ++ rest) hh hl, hrun]
    rw [← hlength, uriToIriBytes_drop]
    congr 2
    · simp
    · simp

theorem run_induction {motive : Bytes → Prop} (nil : motive [])
    (run : ∀ run raw rest, Escapes run raw → hexPairAt rest = none → motive rest → motive (raw ++ rest))
    (literal : ∀ b rest, hexPairAt (b :: rest) = none → motive rest → motive (b :: rest))
    (bs : Bytes) : motive bs := by
  induction hlength : bs.length using Nat.strong_induction_on generalizing bs with
  | _ n ih =>
  subst hlength
  cases bs with
  | nil => exact nil
  | cons b rest =>
    cases hpair : hexPairAt (b :: rest) with
    | none => exact literal b rest hpair (ih rest.length (by simp) rest rfl)
    | some v =>
      obtain ⟨raw, tail, hsplit, hescapes, hnone⟩ := exists_escapes (b :: rest)
      have hshorter : tail.length < (b :: rest).length := by
        cases raw with
        | nil =>
          rw [List.nil_append] at hsplit
          rw [hsplit, hnone] at hpair
          cases hpair
        | cons p raw =>
          rw [hsplit]
          simp
      rw [hsplit]
      exact run _ raw tail hescapes hnone (ih tail.length hshorter tail rfl)

theorem byte_of_char (c : Char) (b : UInt8) (hb : b ∈ String.utf8EncodeChar c) (hascii : isAscii b = true) :
    c = Char.ofNat b.toNat := by
  by_cases h : c.toNat < 0x80
  · rw [encodeChar_ascii c h, List.mem_singleton] at hb
    rw [hb]
    have hnat : (UInt8.ofNat c.toNat).toNat = c.toNat := by
      simp
      omega
    rw [hnat, Char.ofNat_toNat]
  · rw [encodeChar_not_ascii c (by omega) b hb] at hascii
    cases hascii

theorem percent_not_mem (c : Char) (h : c ≠ '%') (b : UInt8) (hb : b ∈ String.utf8EncodeChar c) :
    b ≠ percent := by
  intro heq
  apply h
  rw [heq] at hb
  exact byte_of_char c percent hb (by decide)

theorem percent_not_mem_unreserved (c : Char) (h : isUriReserved c = false) (b : UInt8)
    (hb : b ∈ String.utf8EncodeChar c) : b ≠ percent := by
  apply percent_not_mem c _ b hb
  intro heq
  rw [heq] at h
  revert h
  decide

theorem encodeChar_reserved (c : Char) (h : isUriReserved c = true) :
    c.toNat < 0x80 ∧ String.utf8EncodeChar c = [UInt8.ofNat c.toNat] := by
  have hascii : c.toNat < 0x80 := by
    simp only [isUriReserved, List.mem_cons, List.not_mem_nil, or_false, Bool.decide_or, Bool.or_eq_true,
      decide_eq_true_eq] at h
    rcases h with rfl | rfl | rfl | rfl | rfl | rfl | rfl | rfl | rfl | rfl | rfl | rfl | rfl | rfl | rfl |
      rfl | rfl | rfl | rfl <;> decide
  exact ⟨hascii, encodeChar_ascii c hascii⟩

private theorem unescape_bytes (plusIsSpace : Bool) (bs rest : Bytes) :
    unescape plusIsSpace 0 (bs.flatMap percentByte ++ rest) = bs ++ unescape plusIsSpace 0 rest := by
  induction bs with
  | nil => rfl
  | cons b bs ih =>
    rw [List.flatMap_cons, List.append_assoc, unescape_percentByte, ih]
    rfl

private theorem unescape_iriChar (c : Char) (rest : Bytes) :
    unescape false 0 (iriChar c ++ rest) = String.utf8EncodeChar c ++ unescape false 0 rest := by
  unfold iriChar
  split
  · exact unescape_bytes false _ rest
  · rename_i h
    apply unescape_plain
    intro b hb
    exact ⟨percent_not_mem_unreserved c (by simpa using h) b hb, rfl⟩

private theorem unescape_iriChars (cs : List Char) (rest : Bytes) :
    unescape false 0 (cs.flatMap iriChar ++ rest) = encode cs ++ unescape false 0 rest := by
  induction cs with
  | nil => rfl
  | cons c cs ih => rw [List.flatMap_cons, List.append_assoc, unescape_iriChar, ih, encode_cons, List.append_assoc]

theorem unescape_iriRun {run raw : Bytes} (hescapes : Escapes run raw) (rest : Bytes) :
    unescape false 0 (iriRun run raw ++ rest) = run ++ unescape false 0 rest := by
  unfold iriRun
  cases hutf : fromUtf8 run with
  | none => exact unescape_escapes hescapes false rest
  | some cs =>
    rw [(fromUtf8_eq_some run cs).1 hutf]
    exact unescape_iriChars cs rest

end Rustango.Url
