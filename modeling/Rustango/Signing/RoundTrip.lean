import Rustango.Signing.Signer

/-!
# What a signature says

A signed value comes back where the separator is no character of its tag; no value comes back that was not
signed.
-/

namespace Rustango.Signing

open Rustango.Base64 (Engine)
open Rustango.Halves
open Rustango.Utf8
open Rustango.WebUrl (Text)

private theorem rsplitOnce_append (c : Char) (s t : Text) (h : c ∉ t) :
    rsplitOnce c (s ++ c :: t) = some (s, t) := by
  have hreverse : (s ++ c :: t).reverse = t.reverse ++ c :: s.reverse := by simp
  have hsplit := splitOnce_append c t.reverse s.reverse (by rwa [List.mem_reverse])
  rw [rsplitOnce, hreverse, hsplit]
  simp

private theorem not_mem_encode (base64 : Engine) (b : Bytes) (c : Char) (hc : c ∉ Base64.alphabet) :
    c ∉ base64.encode b :=
  fun h => hc (base64.mem_alphabet b c h)

private theorem urlsafeBase64Decode_encode (base64 : Engine) (b : Bytes) :
    urlsafeBase64Decode base64 (base64.encode b) = some b := by
  have hkeep : (base64.encode b).rdropWhile (· = '=') = base64.encode b := by
    rw [List.rdropWhile_eq_self_iff]
    intro hne hlast
    have hmem : (base64.encode b).getLast hne ∈ base64.encode b := List.getLast_mem hne
    rw [of_decide_eq_true hlast] at hmem
    exact not_mem_encode base64 b '=' (by decide) hmem
  rw [urlsafeBase64Decode, hkeep, base64.decode_encode]

section Tags
variable {saltedHmac : Bytes → Bytes → Bytes → Bytes} {base64 : Engine}

private theorem unsign_eq_ok {s : Signer} {signed value : Text}
    (h : s.unsign saltedHmac base64 signed = .ok value) :
    ∃ tag, signed = value ++ s.sep :: tag ∧ s.sep ∉ tag ∧
      urlsafeBase64Decode base64 tag = some (s.computeTag saltedHmac (encode value)) := by
  unfold Signer.unsign at h
  cases hsplit : rsplitOnce s.sep signed with
  | none =>
    rw [hsplit] at h
    cases h
  | some halves =>
    obtain ⟨front, tag⟩ := halves
    obtain ⟨hwhole, hsep⟩ := rsplitOnce_eq_some s.sep signed front tag hsplit
    rw [hsplit] at h
    simp only at h
    cases hdecode : urlsafeBase64Decode base64 tag with
    | none =>
      rw [hdecode] at h
      cases h
    | some supplied =>
      rw [hdecode] at h
      simp only at h
      split at h
      · rename_i hsame
        cases h
        exact ⟨tag, hwhole, hsep, by rw [hdecode, hsame]⟩
      · cases h

private theorem unsign_append (s : Signer) (value : Text) (h : s.sep ∉ s.tagText saltedHmac base64 value) :
    s.unsign saltedHmac base64 (value ++ s.sep :: s.tagText saltedHmac base64 value) = .ok value := by
  unfold Signer.unsign
  rw [rsplitOnce_append s.sep value _ h]
  simp only [Signer.tagText, urlsafeBase64Decode_encode, if_true]

private theorem unsign_sign_iff (s : Signer) (value : Text) :
    s.unsign saltedHmac base64 (s.sign saltedHmac base64 value) = .ok value ↔
      s.sep ∉ s.tagText saltedHmac base64 value := by
  constructor
  · intro h
    obtain ⟨tag, hsigned, hsep, -⟩ := unsign_eq_ok h
    have htag : s.tagText saltedHmac base64 value = tag := by
      have hcons := List.append_cancel_left hsigned
      exact (List.cons.inj hcons).2
    rwa [htag]
  · exact unsign_append s value

/-- The age is no more than the greatest one, to the nanosecond. -/
def InTime (maxAge : Option Duration) (now t : Nat) : Prop :=
  ∀ max, maxAge = some max → ((now : Int) - t) * 10 ^ 9 ≤ max.secs * 10 ^ 9 + max.nanos

private theorem inTime_some (max : Duration) (now t : Nat) : InTime (some max) now t ↔ now - t ≤ max.secs := by
  have hnanos := max.nanos_lt
  constructor
  · intro h
    have hle := h max rfl
    omega
  · intro h max' hmax
    cases hmax
    omega

private theorem colon_not_mem_intToBase62 (n : Nat) : ':' ∉ intToBase62 n := by
  intro hmem
  have hdigit := isDigit_of_mem_intToBase62 n ':' hmem
  cases hdigit

section Times
variable (s : TimestampSigner) (value : Text) (t : Nat) (maxAge : Option Duration) (now : Nat)

private theorem unsignAt_signAt (ht : t ≤ u64Max) :
    s.unsignAt saltedHmac base64 (s.signAt saltedHmac base64 value t) maxAge now =
    match maxAge with
    | none => .ok value
    | some max => if max.secs < now - t then .error (.expired (now - t) max.secs) else .ok value := by
  have htag : s.inner.sep ∉ s.inner.tagText saltedHmac base64 (s.payload value t) := by
    rw [s.colon]
    exact not_mem_encode base64 _ ':' (by decide)
  have hsplit : rsplitOnce s.inner.sep (s.payload value t) = some (value, intToBase62 t) := by
    apply rsplitOnce_append
    rw [s.colon]
    exact colon_not_mem_intToBase62 t
  unfold TimestampSigner.unsignAt TimestampSigner.signAt
  rw [unsign_append s.inner _ htag]
  simp only [bind, Except.bind, hsplit]
  cases maxAge <;> simp [base62ToInt_intToBase62 t ht]

private theorem unsignAt_signAt_ok_iff (ht : t ≤ u64Max) :
    s.unsignAt saltedHmac base64 (s.signAt saltedHmac base64 value t) maxAge now = .ok value ↔
      InTime maxAge now t := by
  rw [unsignAt_signAt s value t maxAge now ht]
  cases maxAge with
  | none => exact iff_of_true rfl fun max hmax => by cases hmax
  | some max =>
    rw [inTime_some]
    simp only
    by_cases hold : max.secs < now - t
    · rw [if_pos hold]
      constructor
      · intro h
        cases h
      · intro h
        omega
    · rw [if_neg hold]
      exact iff_of_true rfl (by omega)

private theorem unsignAt_signAt_expired (ht : t ≤ u64Max) (h : ¬ InTime maxAge now t) : ∃ age max,
    s.unsignAt saltedHmac base64 (s.signAt saltedHmac base64 value t) maxAge now = .error (.expired age max) := by
  rw [unsignAt_signAt s value t maxAge now ht]
  cases maxAge with
  | none => exact absurd (fun max hmax => by cases hmax) h
  | some max =>
    rw [inTime_some] at h
    exact ⟨now - t, max.secs, if_pos (by omega)⟩

end Times

private theorem unsignAt_eq_ok {s : TimestampSigner} {signed value : Text} {maxAge : Option Duration}
    {now : Nat}
    (h : s.unsignAt saltedHmac base64 signed maxAge now = .ok value) : ∃ stamp ts,
      s.inner.unsign saltedHmac base64 signed = .ok (value ++ ':' :: stamp) ∧ base62ToInt stamp = .ok ts ∧
        InTime maxAge now ts := by
  unfold TimestampSigner.unsignAt at h
  cases hpayload : s.inner.unsign saltedHmac base64 signed with
  | error e =>
    rw [hpayload] at h
    cases h
  | ok payload =>
    rw [hpayload] at h
    simp only [bind, Except.bind] at h
    cases hsplit : rsplitOnce s.inner.sep payload with
    | none =>
      rw [hsplit] at h
      cases h
    | some halves =>
      obtain ⟨front, stamp⟩ := halves
      have hwhole := (rsplitOnce_eq_some s.inner.sep payload front stamp hsplit).1
      rw [s.colon] at hwhole
      rw [hsplit] at h
      simp only at h
      cases hts : base62ToInt stamp with
      | error e =>
        rw [hts] at h
        cases h
      | ok ts =>
        rw [hts] at h
        simp only at h
        cases maxAge with
        | none =>
          cases h
          exact ⟨stamp, ts, by rw [hwhole], hts, fun max hmax => by cases hmax⟩
        | some max =>
          simp only at h
          split at h
          · cases h
          · rename_i hage
            cases h
            exact ⟨stamp, ts, by rw [hwhole], hts, (inTime_some max now ts).2 (by omega)⟩

private theorem loads_dumps {α : Type} (json : Json α) {value : α} {bytes : Bytes} {salt : Text}
    {secret : Bytes}
    {stamp clock : Option Nat} {maxAge : Option Duration} (hvec : json.toVec value = some bytes)
    (hslice : json.fromSlice bytes = .ok value) (hstamp : stamp.getD 0 ≤ u64Max)
    (htime : InTime maxAge (clock.getD u64Max) (stamp.getD 0)) :
    ∃ token, dumps saltedHmac base64 json value salt secret stamp = some token ∧
      loads saltedHmac base64 json token salt secret maxAge clock = .ok value := by
  refine ⟨_, by rw [dumps, hvec]; rfl, ?_⟩
  have hunsign : ∀ signer : TimestampSigner, signer.unsignAt saltedHmac base64
      (signer.signAt saltedHmac base64 (base64.encode bytes) (stamp.getD 0)) maxAge (clock.getD u64Max) =
        .ok (base64.encode bytes) :=
    fun signer => (unsignAt_signAt_ok_iff signer (base64.encode bytes) _ maxAge _ hstamp).2 htime
  unfold loads TimestampSigner.sign TimestampSigner.unsign
  simp only [hunsign, urlsafeBase64Decode_encode, hslice]

end Tags

section Binding
variable (saltedHmac : Bytes → Bytes → Bytes → Bytes) (base64 : Engine)

/-- The keyed hash tells its salts, values and secrets apart. -/
def Injective : Prop := ∀ salt value secret salt' value' secret',
  saltedHmac salt value secret = saltedHmac salt' value' secret' → salt = salt' ∧ value = value' ∧ secret = secret'

/-- No part of the text is a tag but one that was issued. -/
def Unforged (signed : Set (Bytes × Bytes × Bytes)) (t : Text) : Prop := ∀ front c back salt value secret,
  t = front ++ c :: back → urlsafeBase64Decode base64 back = some (saltedHmac salt value secret) →
    ∃ known ∈ signed, saltedHmac known.1 known.2.1 known.2.2 = saltedHmac salt value secret

/-- Signed values come back, and of the texts presented none gives a value that was not signed. -/
structure SignsRight (signed : Set (Bytes × Bytes × Bytes)) (presented : Set Text) (s : Signer) (value : Text) :
    Prop where
  roundTrips : s.unsign saltedHmac base64 (s.sign saltedHmac base64 value) = .ok value
  inTime : ∀ (s : TimestampSigner) value t maxAge now, t ≤ u64Max →
    (s.unsignAt saltedHmac base64 (s.signAt saltedHmac base64 value t) maxAge now = .ok value ↔ InTime maxAge now t)
  expired : ∀ (s : TimestampSigner) value t maxAge now, t ≤ u64Max → ¬ InTime maxAge now t → ∃ age max,
    s.unsignAt saltedHmac base64 (s.signAt saltedHmac base64 value t) maxAge now = .error (.expired age max)
  objects : ∀ (α : Type) (json : Json α) (value : α) bytes salt secret stamp maxAge clock,
    json.toVec value = some bytes → json.fromSlice bytes = .ok value → stamp.getD 0 ≤ u64Max →
      InTime maxAge (clock.getD u64Max) (stamp.getD 0) →
        ∃ token, dumps saltedHmac base64 json value salt secret stamp = some token ∧
          loads saltedHmac base64 json token salt secret maxAge clock = .ok value
  binds : ∀ t ∈ presented, ∀ (s : Signer) value, s.unsign saltedHmac base64 t = .ok value →
    (s.salt, encode value, s.secret) ∈ signed
  bindsAt : ∀ t ∈ presented, ∀ (s : TimestampSigner) maxAge now value,
    s.unsignAt saltedHmac base64 t maxAge now = .ok value → ∃ stamp ts, base62ToInt stamp = .ok ts ∧
      InTime maxAge now ts ∧ (s.inner.salt, encode (value ++ ':' :: stamp), s.inner.secret) ∈ signed

variable {saltedHmac} {base64} {signed : Set (Bytes × Bytes × Bytes)} {presented : Set Text}

private theorem mem_signed_of_unsign (hinj : Injective saltedHmac) {t : Text}
    (ht : Unforged saltedHmac base64 signed t)
    {s : Signer} {value : Text} (h : s.unsign saltedHmac base64 t = .ok value) :
    (s.salt, encode value, s.secret) ∈ signed := by
  obtain ⟨tag, hwhole, -, hdecode⟩ := unsign_eq_ok h
  obtain ⟨known, hknown, hsame⟩ := ht value s.sep tag s.salt (encode value) s.secret hwhole hdecode
  obtain ⟨hsalt, hvalue, hsecret⟩ := hinj _ _ _ _ _ _ hsame
  rwa [← hsalt, ← hvalue, ← hsecret]

/-- Only a separator that stands in the value's own tag is in the way. -/
theorem signs_right_iff (hinj : Injective saltedHmac) (hunforged : ∀ t ∈ presented, Unforged saltedHmac base64 signed t)
    (s : Signer) (value : Text) : SignsRight saltedHmac base64 signed presented s value ↔
      s.sep ∉ s.tagText saltedHmac base64 value := by
  constructor
  · intro h
    exact (unsign_sign_iff s value).1 h.roundTrips
  · intro h
    constructor
    · exact (unsign_sign_iff s value).2 h
    · intro s value t maxAge now ht
      exact unsignAt_signAt_ok_iff s value t maxAge now ht
    · intro s value t maxAge now ht hlate
      exact unsignAt_signAt_expired s value t maxAge now ht hlate
    · intro α json value bytes salt secret stamp maxAge clock hvec hslice hstamp htime
      exact loads_dumps json hvec hslice hstamp htime
    · intro t ht s value hunsign
      exact mem_signed_of_unsign hinj (hunforged t ht) hunsign
    · intro t ht s maxAge now value hunsign
      obtain ⟨stamp, ts, hinner, hts, htime⟩ := unsignAt_eq_ok hunsign
      exact ⟨stamp, ts, hts, htime, mem_signed_of_unsign hinj (hunforged t ht) hinner⟩

private theorem sep_not_mem_tagText (s : Signer) (value : Text) (h : s.sep ∉ Base64.alphabet) :
    s.sep ∉ s.tagText saltedHmac base64 value := not_mem_encode base64 _ _ h

end Binding

section Known

/-- A text behind its length. -/
def framed (b rest : Bytes) : Bytes := List.replicate b.length 1 ++ 0 :: (b ++ rest)

private theorem framed_injective {b b' rest rest' : Bytes} (h : framed b rest = framed b' rest') :
    b = b' ∧ rest = rest' := by
  have hlength : b.length = b'.length := by
    have hones := congrArg (fun l => (l.takeWhile (· = 1)).length) h
    simpa [framed, List.takeWhile_append_of_pos] using hones
  unfold framed at h
  rw [hlength] at h
  have hrest := (List.cons.inj (List.append_cancel_left h)).2
  exact List.append_inj hrest hlength

private def knownSalt : Bytes := (Signer.new []).salt

/-- What HMAC-SHA256 makes of `42` under the secret `k` and the default salt. -/
private def knownTag : Bytes := [111, 98, 220, 167, 95, 194, 237, 164, 67, 113, 245, 31, 15, 217, 177, 207, 211, 99, 117, 162,
  143, 138, 255, 10, 90, 5, 156, 31, 233, 9, 185, 203]

private def knownHmac (salt value secret : Bytes) : Bytes :=
  if salt = knownSalt ∧ value = [0x34, 0x32] ∧ secret = [0x6B] then knownTag
  else 0 :: framed salt (framed value secret)

private theorem knownHmac_injective : Injective knownHmac := by
  intro salt value secret salt' value' secret' h
  unfold knownHmac at h
  split at h <;> split at h
  · rename_i hknown hknown'
    rw [hknown.1, hknown.2.1, hknown.2.2, hknown'.1, hknown'.2.1, hknown'.2.2]
    exact ⟨rfl, rfl, rfl⟩
  · cases (List.cons.inj h).1
  · cases (List.cons.inj h).1
  · obtain ⟨hsalt, hrest⟩ := framed_injective (List.cons.inj h).2
    obtain ⟨hvalue, hsecret⟩ := framed_injective hrest
    exact ⟨hsalt, hvalue, hsecret⟩

private def knownText : Text := ['4', '2']

private theorem known_unforged : Unforged knownHmac Base64.urlSafeNoPad {(knownSalt, [0x34, 0x32], [0x6B])}
    ((Signer.new [0x6B]).sign knownHmac Base64.urlSafeNoPad knownText) := by
  intro front c back salt value secret hwhole hdecode
  refine ⟨_, rfl, ?_⟩
  have htag : knownHmac knownSalt [0x34, 0x32] [0x6B] = knownTag := by
    rw [knownHmac, if_pos ⟨rfl, rfl, rfl⟩]
  rw [htag]
  unfold knownHmac at hdecode ⊢
  split at hdecode
  · rename_i hknown
    rw [if_pos hknown]
  · have hback : back ∈ ((Signer.new [0x6B]).sign knownHmac Base64.urlSafeNoPad knownText).tails := by
      rw [hwhole, List.mem_tails]
      exact ⟨front ++ [c], by simp⟩
    have hnone : ∀ back ∈ ((Signer.new [0x6B]).sign knownHmac Base64.urlSafeNoPad knownText).tails,
        (urlsafeBase64Decode Base64.urlSafeNoPad back).bind List.head? ≠ some 0 := by decide +kernel
    exact absurd (by rw [hdecode]; rfl) (hnone back hback)

/-- Behind the default separator `42` signs and comes back, and binds. -/
theorem known_signs_right : SignsRight knownHmac Base64.urlSafeNoPad {(knownSalt, [0x34, 0x32], [0x6B])}
    {(Signer.new [0x6B]).sign knownHmac Base64.urlSafeNoPad knownText} (Signer.new [0x6B]) knownText := by
  apply (signs_right_iff knownHmac_injective _ (Signer.new [0x6B]) knownText).2
  · exact sep_not_mem_tagText _ _ (by decide)
  · intro t ht
    rw [Set.mem_singleton_iff.1 ht]
    exact known_unforged

/-- Behind an underscore it does not: the tag has one too. -/
theorem underscore_loses_value : ((Signer.new [0x6B]).withSep '_').unsign knownHmac Base64.urlSafeNoPad
      (((Signer.new [0x6B]).withSep '_').sign knownHmac Base64.urlSafeNoPad knownText) = .error .badSignature ∧
    ¬ SignsRight knownHmac Base64.urlSafeNoPad {(knownSalt, [0x34, 0x32], [0x6B])} ∅ ((Signer.new [0x6B]).withSep '_')
      knownText := by
  have hunsign : ((Signer.new [0x6B]).withSep '_').unsign knownHmac Base64.urlSafeNoPad
      (((Signer.new [0x6B]).withSep '_').sign knownHmac Base64.urlSafeNoPad knownText) = .error .badSignature := by
    decide +kernel
  refine ⟨hunsign, ?_⟩
  intro h
  have hround := h.roundTrips
  rw [hunsign] at hround
  cases hround

end Known

end Rustango.Signing
