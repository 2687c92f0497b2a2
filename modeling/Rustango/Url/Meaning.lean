import Rustango.Url.Iri

/-!
# The meaning of a URI kept

What `uri_to_iri` writes reads as what it was given, unless a `%` that begins no escape stands before
two hex digits one of which was decoded: the three are then an escape of what was written.
-/

namespace Rustango.Url

open Utf8

/-- What follows when the next byte written is a hex digit, as it stands or out of an escape. -/
def readDigit : Bytes → Option Bytes
  | [] => none
  | b :: rest =>
    if isHex b then some rest
    else
      match hexPairAt (b :: rest) with
      | some v => if isHex v && (fromUtf8 (escapeRun 0 (b :: rest))).isSome then some (rest.drop 2) else none
      | none => none

/-- Some `%` that begins no escape stands before two hex digits of what is decoded. -/
def completesEscape (skip : Nat) : Bytes → Bool
  | [] => false
  | b :: rest =>
    match skip with
    | skip + 1 => completesEscape skip rest
    | 0 =>
      match hexPairAt (b :: rest) with
      | some _ => completesEscape 2 rest
      | none => b == percent && ((readDigit rest).bind readDigit).isSome || completesEscape 0 rest

private theorem completesEscape_drop (skip : Nat) (bs : Bytes) :
    completesEscape skip bs = completesEscape 0 (bs.drop skip) := by
  induction bs generalizing skip with
  | nil => simp [completesEscape]
  | cons b rest ih =>
    cases skip with
    | zero => rfl
    | succ skip =>
      rw [completesEscape, List.drop_succ_cons]
      exact ih skip

private theorem completesEscape_literal (b : UInt8) (rest : Bytes) (h : hexPairAt (b :: rest) = none) :
    completesEscape 0 (b :: rest) =
      (b == percent && ((readDigit rest).bind readDigit).isSome || completesEscape 0 rest) := by
  rw [completesEscape]
  simp only [h]

private theorem completesEscape_run {run raw : Bytes} (hescapes : Escapes run raw) (rest : Bytes) :
    completesEscape 0 (raw ++ rest) = completesEscape 0 rest := by
  induction hescapes with
  | nil => rfl
  | cons h l run raw hh hl _ ih =>
    simp only [List.cons_append]
    rw [completesEscape]
    simp only [hexPairAt_escape h l (raw ++ rest) hh hl]
    rw [completesEscape_drop]
    exact ih

private theorem encode_eq_cons (cs : List Char) (b : UInt8) (rest : Bytes) (h : encode cs = b :: rest)
    (hascii : isAscii b = true) : ∃ ds, cs = Char.ofNat b.toNat :: ds ∧ encode ds = rest := by
  cases cs with
  | nil => cases h
  | cons c cs =>
    rw [encode_cons] at h
    cases hbytes : String.utf8EncodeChar c with
    | nil =>
      have hlength := String.length_utf8EncodeChar c
      have hpos := c.utf8Size_pos
      simp [hbytes] at hlength
      omega
    | cons a tail =>
      rw [hbytes, List.cons_append, List.cons.injEq] at h
      have hmem : b ∈ String.utf8EncodeChar c := by simp [hbytes, h.1]
      have hc := byte_of_char c b hmem hascii
      have hsingle := encodeChar_ofNat b hascii
      rw [← hc, hbytes] at hsingle
      have htail : tail = [] := (List.cons.inj hsingle).2
      rw [htail] at h
      exact ⟨cs, by rw [hc], h.2⟩

private theorem isUriReserved_of_isHex (b : UInt8) (h : isHex b = true) :
    isUriReserved (Char.ofNat b.toNat) = false := by
  have hlt : b.toNat < 0x80 := by simpa [isAscii] using isAscii_of_isHex b h
  have hrange : ∀ n < 0x80, isHex (UInt8.ofNat n) = true → isUriReserved (Char.ofNat n) = false := by decide
  have hb := hrange b.toNat hlt
  rw [UInt8.ofNat_toNat] at hb
  exact hb h

/-- A digit that is read is the next byte written. -/
private theorem uriToIriBytes_of_readDigit (bs rest : Bytes) (h : readDigit bs = some rest) :
    ∃ d, isHex d = true ∧ uriToIriBytes 0 bs = d :: uriToIriBytes 0 rest := by
  cases bs with
  | nil => cases h
  | cons b tail =>
    rw [readDigit] at h
    by_cases hb : isHex b = true
    · rw [if_pos hb] at h
      cases h
      exact ⟨b, hb, uriToIriBytes_literal b rest (hexPairAt_of_ne b rest (isHex_ne_percent b hb))⟩
    · rw [if_neg hb] at h
      cases hpair : hexPairAt (b :: tail) with
      | none =>
        rw [hpair] at h
        cases h
      | some v =>
        rw [hpair] at h
        simp only at h
        split at h
        · rename_i hdigit
          simp only [Bool.and_eq_true] at hdigit
          obtain ⟨d, l, after, heq, hd, hl, hv⟩ := (hexPairAt_eq_some _ _).1 hpair
          cases heq
          cases h
          obtain ⟨raw, last, hsplit, hescapes, hnone⟩ := exists_escapes after
          rw [escapeRun_escape d l after hd hl, ← hv] at hdigit
          obtain ⟨cs, hcs⟩ := Option.isSome_iff_exists.1 hdigit.2
          have hrun := (fromUtf8_eq_some _ _).1 hcs
          obtain ⟨ds, hds, hrest⟩ := encode_eq_cons cs v _ hrun.symm (isAscii_of_isHex v hdigit.1)
          have hafter : uriToIriBytes 0 after = ds.flatMap iriChar ++ uriToIriBytes 0 last := by
            rw [hsplit] at hrest hescapes ⊢
            rw [uriToIriBytes_run hescapes hnone, ← hrest]
            simp [iriRun]
          have hwhole := uriToIriBytes_run (Escapes.cons d l _ raw hd hl hescapes) hnone
          refine ⟨v, hdigit.1, ?_⟩
          simp only [List.drop_succ_cons, List.drop_zero]
          rw [hafter, hsplit]
          simp only [List.cons_append] at hwhole
          rw [hwhole, ← hv, iriRun, hcs]
          simp only [hds, List.flatMap_cons, iriChar, isUriReserved_of_isHex v hdigit.1, List.append_assoc]
          rw [if_neg Bool.false_ne_true, encodeChar_ofNat v (isAscii_of_isHex v hdigit.1)]
          rfl
        · cases h

private theorem head_iriChars (v : UInt8) (run : Bytes) (cs : List Char) (hrun : v :: run = encode cs) :
    ∃ tail, cs.flatMap iriChar = percent :: tail ∨ cs.flatMap iriChar = v :: tail := by
  cases cs with
  | nil => cases hrun
  | cons c cs =>
    simp only [List.flatMap_cons]
    unfold iriChar
    by_cases hreserved : isUriReserved c = true
    · have hbytes := (encodeChar_reserved c hreserved).2
      rw [if_pos hreserved, hbytes]
      exact ⟨_, Or.inl rfl⟩
    · rw [if_neg hreserved]
      cases hbytes : String.utf8EncodeChar c with
      | nil =>
        have hlength := String.length_utf8EncodeChar c
        have hpos := c.utf8Size_pos
        simp [hbytes] at hlength
        omega
      | cons a tail =>
        rw [encode_cons, hbytes, List.cons_append, List.cons.injEq] at hrun
        rw [hrun.1]
        exact ⟨_, Or.inr rfl⟩

/-- Where no digit is read, none is written next. -/
private theorem readDigit_of_uriToIriBytes (bs : Bytes) (d : UInt8) (tail : Bytes) (hd : isHex d = true)
    (h : uriToIriBytes 0 bs = d :: tail) : ∃ rest, readDigit bs = some rest ∧ tail = uriToIriBytes 0 rest := by
  cases hread : readDigit bs with
  | some rest =>
    obtain ⟨e, he, hwritten⟩ := uriToIriBytes_of_readDigit bs rest hread
    rw [h, List.cons.injEq] at hwritten
    exact ⟨rest, rfl, hwritten.2⟩
  | none =>
    exfalso
    cases bs with
    | nil => cases h
    | cons b rest =>
      rw [readDigit] at hread
      have hb : ¬ isHex b = true := by
        intro hb
        simp [hb] at hread
      rw [if_neg hb] at hread
      cases hpair : hexPairAt (b :: rest) with
      | none =>
        rw [uriToIriBytes_literal b rest hpair, List.cons.injEq] at h
        rw [h.1] at hb
        exact hb hd
      | some v =>
        rw [hpair] at hread
        obtain ⟨raw, last, hsplit, hescapes, hnone⟩ := exists_escapes (b :: rest)
        obtain ⟨e, l, after, heq, he, hl, hv⟩ := (hexPairAt_eq_some _ _).1 hpair
        have hrun : escapeRun 0 (b :: rest) = v :: escapeRun 0 after := by
          rw [heq, escapeRun_escape e l after he hl, hv]
        rw [hsplit, uriToIriBytes_run hescapes hnone, iriRun] at h
        cases hutf : fromUtf8 (escapeRun 0 (b :: rest)) with
        | none =>
          rw [hutf] at h
          rw [hrun] at hescapes
          cases hescapes
          simp only [List.cons_append, List.cons.injEq] at h
          exact isHex_ne_percent d hd h.1.symm
        | some cs =>
          rw [hutf] at h hread
          simp only [Option.isSome_some, Bool.and_true] at h hread
          have hv : ¬ isHex v = true := by
            intro hv
            simp [hv] at hread
          rw [hrun] at hutf
          obtain ⟨tail, htail⟩ := head_iriChars v _ cs ((fromUtf8_eq_some _ _).1 hutf)
          rcases htail with htail | htail
          · rw [htail, List.cons_append, List.cons.injEq] at h
            exact isHex_ne_percent d hd h.1.symm
          · rw [htail, List.cons_append, List.cons.injEq] at h
            rw [h.1] at hv
            exact hv hd

private theorem hexPairAt_written (rest : Bytes) :
    (hexPairAt (percent :: uriToIriBytes 0 rest)).isSome = ((readDigit rest).bind readDigit).isSome := by
  rw [Bool.eq_iff_iff]
  constructor
  · intro h
    obtain ⟨v, hv⟩ := Option.isSome_iff_exists.1 h
    obtain ⟨d, l, tail, heq, hd, hl, -⟩ := (hexPairAt_eq_some _ _).1 hv
    have hwritten := (List.cons.inj heq).2
    obtain ⟨after, hread, htail⟩ := readDigit_of_uriToIriBytes rest d (l :: tail) hd hwritten
    obtain ⟨last, hlast, -⟩ := readDigit_of_uriToIriBytes after l tail hl htail.symm
    simp [hread, hlast]
  · intro h
    cases hread : readDigit rest with
    | none => simp [hread] at h
    | some after =>
      cases hlast : readDigit after with
      | none => simp [hread, hlast] at h
      | some last =>
        obtain ⟨d, hd, hwritten⟩ := uriToIriBytes_of_readDigit rest after hread
        obtain ⟨l, hl, hnext⟩ := uriToIriBytes_of_readDigit after last hlast
        rw [hwritten, hnext, hexPairAt_escape d l _ hd hl]
        rfl

private theorem literal_written (b : UInt8) (rest : Bytes) (hnone : hexPairAt (b :: rest) = none)
    (h : completesEscape 0 (b :: rest) = false) : hexPairAt (b :: uriToIriBytes 0 rest) = none := by
  rw [completesEscape_literal b rest hnone, Bool.or_eq_false_iff] at h
  by_cases hb : b = percent
  · have hdigits := hexPairAt_written rest
    simp only [hb, beq_self_eq_true, Bool.true_and] at h
    rw [h.1] at hdigits
    rw [hb]
    simpa using hdigits
  · exact hexPairAt_of_ne b _ hb

private theorem completesEscape_rest (b : UInt8) (rest : Bytes) (hnone : hexPairAt (b :: rest) = none)
    (h : completesEscape 0 (b :: rest) = false) : completesEscape 0 rest = false := by
  rw [completesEscape_literal b rest hnone, Bool.or_eq_false_iff] at h
  exact h.2

private theorem unescape_uriToIriBytes (bs : Bytes) (h : completesEscape 0 bs = false) :
    unescape false 0 (uriToIriBytes 0 bs) = unescape false 0 bs := by
  induction bs using run_induction with
  | nil => rfl
  | run run raw rest hescapes hnone ih =>
    rw [completesEscape_run hescapes] at h
    rw [uriToIriBytes_run hescapes hnone, unescape_iriRun hescapes, unescape_escapes hescapes, ih h]
  | literal b rest hnone ih =>
    have hwritten := literal_written b rest hnone h
    have hrest := completesEscape_rest b rest hnone h
    rw [uriToIriBytes_literal b rest hnone, unescape_literal false b _ hwritten, ih hrest,
      unescape_literal false b rest hnone]

private theorem countP_uriToIriBytes (bs : Bytes) :
    (unescape false 0 (uriToIriBytes 0 bs)).countP isAscii + (if completesEscape 0 bs then 1 else 0) ≤
      (unescape false 0 bs).countP isAscii := by
  induction bs using run_induction with
  | nil => decide
  | run run raw rest hescapes hnone ih =>
    rw [completesEscape_run hescapes, uriToIriBytes_run hescapes hnone, unescape_iriRun hescapes,
      unescape_escapes hescapes, List.countP_append, List.countP_append]
    omega
  | literal b rest hnone ih =>
    rw [completesEscape_literal b rest hnone, uriToIriBytes_literal b rest hnone,
      unescape_literal false b rest hnone]
    cases hpair : hexPairAt (b :: uriToIriBytes 0 rest) with
    | none =>
      have hsame : (b == percent && ((readDigit rest).bind readDigit).isSome) = false := by
        by_cases hb : b = percent
        · have hdigits := hexPairAt_written rest
          rw [hb] at hpair
          rw [hpair] at hdigits
          simp [← hdigits]
        · simp [hb]
      rw [hsame, Bool.false_or, unescape_literal false b _ hpair, List.countP_cons, List.countP_cons]
      omega
    | some v =>
      -- three characters, the `%` and two digits, become one byte
      obtain ⟨d, l, tail, heq, hd, hl, hv⟩ := (hexPairAt_eq_some _ _).1 hpair
      have hb := (List.cons.inj heq).1
      have htail := (List.cons.inj heq).2
      have hpercent : isAscii (plain false b) = true := by
        rw [hb]
        decide
      have hdigits : (unescape false 0 (uriToIriBytes 0 rest)).countP isAscii =
          (unescape false 0 tail).countP isAscii + 2 := by
        rw [htail, unescape_literal false d _ (hexPairAt_of_ne d _ (isHex_ne_percent d hd)),
          unescape_literal false l _ (hexPairAt_of_ne l _ (isHex_ne_percent l hl))]
        simp [plain, isAscii_of_isHex d hd, isAscii_of_isHex l hl]
      rw [htail, hb, unescape_escape false d l tail hd hl, List.countP_cons, List.countP_cons]
      rw [hb] at hpercent
      split_ifs <;> omega

/-- A reserved byte is written as the escape it was, whatever run it begins. -/
private theorem uriToIriBytes_reserved (c : Char) (h : isUriReserved c = true) (rest : Bytes) :
    uriToIriBytes 0 (iriChar c ++ rest) = iriChar c ++ uriToIriBytes 0 rest := by
  have hchar := encodeChar_reserved c h
  have hlt : c.toNat < 256 := by omega
  have hnat : (UInt8.ofNat c.toNat).toNat = c.toNat := by
    simp
    omega
  have hiri : iriChar c = percentByte (UInt8.ofNat c.toNat) := by
    simp [iriChar, h, hchar.2]
  have hascii : isAscii (UInt8.ofNat c.toNat) = true := by
    simp [isAscii, hnat, hchar.1]
  obtain ⟨raw, last, hsplit, hescapes, hnone⟩ := exists_escapes rest
  have hpair := hexPairAt_percentByte (UInt8.ofNat c.toNat) []
  obtain ⟨d, l, tail, heq, hd, hl, hv⟩ := (hexPairAt_eq_some _ _).1 hpair
  have hlonger := Escapes.cons d l _ raw hd hl hescapes
  rw [← hv] at hlonger
  have hraw : percent :: d :: l :: raw = iriChar c ++ raw := by
    have hbytes : percentByte (UInt8.ofNat c.toNat) = [percent, d, l] := by
      unfold percentByte at heq ⊢
      simp only [List.cons_append, List.nil_append, List.cons.injEq] at heq
      rw [heq.2.1, heq.2.2.1]
    rw [hiri, hbytes]
    rfl
  rw [hraw] at hlonger
  rw [hsplit, ← List.append_assoc, uriToIriBytes_run hlonger hnone, uriToIriBytes_run (hsplit ▸ hescapes) hnone,
    ← List.append_assoc]
  congr 1
  rw [hsplit]
  unfold iriRun
  cases hutf : fromUtf8 (escapeRun 0 (raw ++ last)) with
  | some cs =>
    have hrun := (fromUtf8_eq_some _ _).1 hutf
    have hwhole : fromUtf8 (UInt8.ofNat c.toNat :: escapeRun 0 (raw ++ last)) = some (c :: cs) := by
      apply (fromUtf8_eq_some _ _).2
      rw [hrun, encode_cons, hchar.2]
      rfl
    rw [hwhole]
    simp
  | none =>
    cases hwhole : fromUtf8 (UInt8.ofNat c.toNat :: escapeRun 0 (raw ++ last)) with
    | none => rfl
    | some cs =>
      obtain ⟨ds, -, hds⟩ := encode_eq_cons cs _ _ ((fromUtf8_eq_some _ _).1 hwhole).symm hascii
      rw [← hds, fromUtf8_encode] at hutf
      cases hutf

private theorem uriToIriBytes_iriChar (c : Char) (rest : Bytes) :
    uriToIriBytes 0 (iriChar c ++ rest) = iriChar c ++ uriToIriBytes 0 rest := by
  by_cases h : isUriReserved c = true
  · exact uriToIriBytes_reserved c h rest
  · unfold iriChar
    rw [if_neg h]
    apply uriToIriBytes_plain
    intro b hb
    exact percent_not_mem_unreserved c (by simpa using h) b hb

private theorem uriToIriBytes_iriChars (cs : List Char) (rest : Bytes) :
    uriToIriBytes 0 (cs.flatMap iriChar ++ rest) = cs.flatMap iriChar ++ uriToIriBytes 0 rest := by
  induction cs with
  | nil => rfl
  | cons c cs ih => rw [List.flatMap_cons, List.append_assoc, uriToIriBytes_iriChar, ih, List.append_assoc]

private theorem hexPairAt_uriToIriBytes (bs : Bytes) (hnone : hexPairAt bs = none)
    (h : completesEscape 0 bs = false) :
    hexPairAt (uriToIriBytes 0 bs) = none := by
  cases bs with
  | nil => rfl
  | cons b rest =>
    rw [uriToIriBytes_literal b rest hnone]
    exact literal_written b rest hnone h

private theorem uriToIriBytes_iriRun {run raw : Bytes} (hescapes : Escapes run raw) (rest : Bytes)
    (hnone : hexPairAt rest = none) :
    uriToIriBytes 0 (iriRun run raw ++ rest) = iriRun run raw ++ uriToIriBytes 0 rest := by
  cases hutf : fromUtf8 run with
  | some cs =>
    simp only [iriRun, hutf]
    exact uriToIriBytes_iriChars cs rest
  | none =>
    have hrun := uriToIriBytes_run hescapes hnone
    simp only [iriRun, hutf] at hrun ⊢
    exact hrun

private theorem uriToIriBytes_idempotent (bs : Bytes) (h : completesEscape 0 bs = false) :
    uriToIriBytes 0 (uriToIriBytes 0 bs) = uriToIriBytes 0 bs := by
  induction bs using run_induction with
  | nil => rfl
  | run run raw rest hescapes hnone ih =>
    rw [completesEscape_run hescapes] at h
    rw [uriToIriBytes_run hescapes hnone,
      uriToIriBytes_iriRun hescapes _ (hexPairAt_uriToIriBytes rest hnone h), ih h]
  | literal b rest hnone ih =>
    have hwritten := literal_written b rest hnone h
    have hrest := completesEscape_rest b rest hnone h
    rw [uriToIriBytes_literal b rest hnone, uriToIriBytes_literal b _ hwritten, ih hrest]

def isReservedByte (b : UInt8) : Bool := isUriReserved (Char.ofNat b.toNat)

/-- The reserved characters that are encoded, in their order. -/
def reservedEscapes (skip : Nat) : Bytes → Bytes
  | [] => []
  | b :: rest =>
    match skip with
    | skip + 1 => reservedEscapes skip rest
    | 0 =>
      match hexPairAt (b :: rest) with
      | some v => if isReservedByte v then v :: reservedEscapes 2 rest else reservedEscapes 2 rest
      | none => reservedEscapes 0 rest

private theorem reservedEscapes_drop (skip : Nat) (bs : Bytes) :
    reservedEscapes skip bs = reservedEscapes 0 (bs.drop skip) := by
  induction bs generalizing skip with
  | nil => simp [reservedEscapes]
  | cons b rest ih =>
    cases skip with
    | zero => rfl
    | succ skip =>
      rw [reservedEscapes, List.drop_succ_cons]
      exact ih skip

private theorem reservedEscapes_literal (b : UInt8) (rest : Bytes) (h : hexPairAt (b :: rest) = none) :
    reservedEscapes 0 (b :: rest) = reservedEscapes 0 rest := by
  rw [reservedEscapes]
  simp only [h]

private theorem reservedEscapes_plain (bs rest : Bytes) (h : ∀ b ∈ bs, b ≠ percent) :
    reservedEscapes 0 (bs ++ rest) = reservedEscapes 0 rest := by
  induction bs with
  | nil => rfl
  | cons b bs ih =>
    rw [List.cons_append, reservedEscapes_literal b _ (hexPairAt_of_ne b _ (h b List.mem_cons_self))]
    exact ih fun b hb => h b (List.mem_cons_of_mem _ hb)

private theorem reservedEscapes_escapes {run raw : Bytes} (hescapes : Escapes run raw) (rest : Bytes) :
    reservedEscapes 0 (raw ++ rest) = run.filter isReservedByte ++ reservedEscapes 0 rest := by
  induction hescapes with
  | nil => rfl
  | cons h l run raw hh hl _ ih =>
    simp only [List.cons_append]
    rw [reservedEscapes]
    simp only [hexPairAt_escape h l (raw ++ rest) hh hl]
    rw [reservedEscapes_drop]
    simp only [List.drop_succ_cons, List.drop_zero, ih, List.filter_cons]
    split <;> rfl

private theorem isAscii_of_isReservedByte (b : UInt8) (h : isReservedByte b = true) : isAscii b = true := by
  have hlt : b.toNat < 256 := UInt8.toNat_lt_size b
  have hchar := (encodeChar_reserved _ h).1
  rw [Char.toNat_ofNat, if_pos (Or.inl (by omega))] at hchar
  simpa [isAscii] using hchar

private theorem reservedEscapes_iriChar (c : Char) (rest : Bytes) :
    reservedEscapes 0 (iriChar c ++ rest) =
      (String.utf8EncodeChar c).filter isReservedByte ++ reservedEscapes 0 rest := by
  by_cases h : isUriReserved c = true
  · have hchar := encodeChar_reserved c h
    have hnat : (UInt8.ofNat c.toNat).toNat = c.toNat := by
      simp
      omega
    have hreserved : isReservedByte (UInt8.ofNat c.toNat) = true := by
      rw [isReservedByte, hnat, Char.ofNat_toNat, h]
    have hpair := hexPairAt_percentByte (UInt8.ofNat c.toNat) rest
    simp only [iriChar, h, hchar.2, if_true, List.flatMap_cons, List.flatMap_nil, List.append_nil,
      List.filter_cons, hreserved, List.filter_nil]
    unfold percentByte at hpair ⊢
    simp only [List.cons_append, List.nil_append] at hpair ⊢
    rw [reservedEscapes]
    simp only [hpair, hreserved, if_true]
    rw [reservedEscapes_drop]
    rfl
  · have hnone : (String.utf8EncodeChar c).filter isReservedByte = [] := by
      apply List.filter_eq_nil_iff.2
      intro b hb hreserved
      apply h
      rw [byte_of_char c b hb (isAscii_of_isReservedByte b hreserved)]
      exact hreserved
    rw [hnone]
    unfold iriChar
    rw [if_neg h]
    exact reservedEscapes_plain _ rest (percent_not_mem_unreserved c (by simpa using h))

private theorem reservedEscapes_iriRun {run raw : Bytes} (hescapes : Escapes run raw) (rest : Bytes) :
    reservedEscapes 0 (iriRun run raw ++ rest) = run.filter isReservedByte ++ reservedEscapes 0 rest := by
  unfold iriRun
  cases hutf : fromUtf8 run with
  | none => exact reservedEscapes_escapes hescapes rest
  | some cs =>
    rw [(fromUtf8_eq_some run cs).1 hutf]
    clear hutf
    simp only
    induction cs with
    | nil => rfl
    | cons c cs ih =>
      rw [List.flatMap_cons, List.append_assoc, reservedEscapes_iriChar, ih, encode_cons, List.filter_append,
        List.append_assoc]

private theorem reservedEscapes_uriToIriBytes (bs : Bytes) (h : completesEscape 0 bs = false) :
    reservedEscapes 0 (uriToIriBytes 0 bs) = reservedEscapes 0 bs := by
  induction bs using run_induction with
  | nil => rfl
  | run run raw rest hescapes hnone ih =>
    rw [completesEscape_run hescapes] at h
    rw [uriToIriBytes_run hescapes hnone, reservedEscapes_iriRun hescapes, reservedEscapes_escapes hescapes, ih h]
  | literal b rest hnone ih =>
    have hwritten := literal_written b rest hnone h
    have hrest := completesEscape_rest b rest hnone h
    rw [uriToIriBytes_literal b rest hnone, reservedEscapes_literal b _ hwritten, ih hrest,
      reservedEscapes_literal b rest hnone]

private theorem encode_eq_append (raw rest : Bytes) (hascii : ∀ b ∈ raw, isAscii b = true) (cs : List Char)
    (h : encode cs = raw ++ rest) : ∃ ds, encode ds = rest ∧ ds.length + raw.length = cs.length := by
  induction raw generalizing cs with
  | nil => exact ⟨cs, h, rfl⟩
  | cons b raw ih =>
    obtain ⟨ds, hcs, hds⟩ := encode_eq_cons cs b (raw ++ rest) h (hascii b List.mem_cons_self)
    obtain ⟨es, hes, hlength⟩ := ih (fun b hb => hascii b (List.mem_cons_of_mem _ hb)) ds hds
    refine ⟨es, hes, ?_⟩
    rw [hcs, List.length_cons, List.length_cons]
    omega

private theorem iriChar_text (c : Char) : ∃ ds, iriChar c = encode ds := by
  by_cases h : isUriReserved c = true
  · refine ⟨asChars ((String.utf8EncodeChar c).flatMap percentByte), ?_⟩
    rw [encode_asChars]
    · simp [iriChar, h]
    · intro b hb
      obtain ⟨a, -, hb⟩ := List.mem_flatMap.1 hb
      exact isAscii_percentByte a b hb
  · refine ⟨[c], ?_⟩
    simp [iriChar, h]

private theorem iriChars_text (cs : List Char) : ∃ ds, cs.flatMap iriChar = encode ds := by
  induction cs with
  | nil => exact ⟨[], rfl⟩
  | cons c cs ih =>
    obtain ⟨ds, hds⟩ := ih
    obtain ⟨es, hes⟩ := iriChar_text c
    exact ⟨es ++ ds, by rw [List.flatMap_cons, hds, hes, encode_append]⟩

private theorem iriRun_text {run raw : Bytes} (hescapes : Escapes run raw) :
    ∃ ds, iriRun run raw = encode ds := by
  unfold iriRun
  cases fromUtf8 run with
  | none => exact ⟨asChars raw, (encode_asChars raw (isAscii_escapes hescapes)).symm⟩
  | some cs => exact iriChars_text cs

private theorem uriToIriBytes_text (cs : List Char) : ∃ ds, uriToIriBytes 0 (encode cs) = encode ds := by
  induction hlength : cs.length using Nat.strong_induction_on generalizing cs with
  | _ n ih =>
  subst hlength
  cases cs with
  | nil => exact ⟨[], rfl⟩
  | cons c cs =>
    by_cases hc : c = '%'
    · cases hpair : hexPairAt (encode (c :: cs)) with
      | none =>
        obtain ⟨ds, hds⟩ := ih cs.length (by simp) cs rfl
        have hpercent : encode (c :: cs) = percent :: encode cs := by
          rw [hc]
          rfl
        rw [hpercent] at hpair ⊢
        refine ⟨c :: ds, ?_⟩
        rw [uriToIriBytes_literal percent _ hpair, hds, hc]
        rfl
      | some v =>
        obtain ⟨raw, rest, hsplit, hescapes, hnone⟩ := exists_escapes (encode (c :: cs))
        obtain ⟨ds, hds, hlength⟩ := encode_eq_append raw rest (isAscii_escapes hescapes) _ hsplit
        have hraw : raw ≠ [] := by
          intro hnil
          rw [hnil, List.nil_append] at hsplit
          rw [hsplit, hnone] at hpair
          cases hpair
        have hpos := List.length_pos_iff.2 hraw
        obtain ⟨es, hes⟩ := ih ds.length (by omega) ds rfl
        obtain ⟨fs, hfs⟩ := iriRun_text hescapes
        refine ⟨fs ++ es, ?_⟩
        rw [hsplit, uriToIriBytes_run (hsplit ▸ hescapes) hnone, encode_append, ← hfs, ← hes, hds, hsplit]
    · obtain ⟨ds, hds⟩ := ih cs.length (by simp) cs rfl
      refine ⟨c :: ds, ?_⟩
      rw [encode_cons, uriToIriBytes_plain _ _ (percent_not_mem c hc), hds, encode_cons]

private theorem encode_uriToIri (u : Text) : encode (uriToIri u) = uriToIriBytes 0 (encode u) := by
  obtain ⟨ds, hds⟩ := uriToIriBytes_text u
  rw [uriToIri, hds, fromUtf8_encode]
  rfl

structure KeepsMeaning (u : Text) : Prop where
  path : percentDecodePath (uriToIri u) = percentDecodePath u
  back : percentDecodePath (iriToUri (uriToIri u)) = percentDecodePath (iriToUri u)
  reserved : (reservedEscapes 0 (encode u)).Sublist (reservedEscapes 0 (encode (uriToIri u)))
  idempotent : uriToIri (uriToIri u) = uriToIri u

/-- `uri_to_iri` keeps the meaning of exactly the URIs in which no `%` is completed. -/
theorem uri_to_iri_keeps_meaning_iff (u : Text) :
    KeepsMeaning u ↔ completesEscape 0 (encode u) = false := by
  constructor
  · intro h
    have hcount := countP_uriToIriBytes (encode u)
    have htext := congrArg (List.countP asciiChar) h.path
    simp only [percentDecodePath, decodeEscapes, encode_uriToIri, countP_fromUtf8Lossy] at htext
    cases hcompletes : completesEscape 0 (encode u) with
    | false => rfl
    | true =>
      simp [hcompletes] at hcount
      omega
  · intro h
    have hpath : percentDecodePath (uriToIri u) = percentDecodePath u := by
      simp only [percentDecodePath, decodeEscapes]
      rw [encode_uriToIri, unescape_uriToIriBytes _ h]
    refine ⟨hpath, ?_, ?_, ?_⟩
    · rw [percentDecodePath_iriToUri, percentDecodePath_iriToUri, hpath]
    · rw [encode_uriToIri, reservedEscapes_uriToIriBytes _ h]
    · apply encode_injective
      rw [encode_uriToIri, encode_uriToIri, uriToIriBytes_idempotent _ h]

/-- `%%34%31` is written `%41`, which reads `A`, and is written `A` the next time. -/
theorem uri_to_iri_completes_escape : ¬ (∀ u : Text, KeepsMeaning u) := by
  intro h
  have hpath := (h ['%', '%', '3', '4', '%', '3', '1']).path
  revert hpath
  decide

end Rustango.Url
