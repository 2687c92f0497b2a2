import Rustango.Lib.Base64
import Rustango.Lib.Numeral
import Rustango.SignedUrl.Params

/-!
# Signed URLs

`sign_at` and `verify_at` of `signed_url.rs`, the keyed hash and the base64 engine as parameters: a signed URL
verifies in time, and what verifies is a signed URL, byte for byte where all of it is UTF-8.
-/

namespace Rustango.SignedUrl

open Url Utf8 Numeral
open Rustango.Base64 (Engine)
open Rustango.Pagination (Query)

inductive SignedUrlError
  | missingSignature
  | malformedSignature
  | invalidSignature
  | expired
deriving DecidableEq

def signatureParam : Text := "signature".toList

def expiresParam : Text := "expires".toList

/-- `u64::from_str`, which takes a leading plus. -/
def parseU64 (s : Text) : Option UInt64 :=
  let digits := if s.head? = some '+' then s.tail else s
  if digits ≠ [] ∧ Digits digits ∧ value digits < 2 ^ 64 then some (UInt64.ofNat (value digits)) else none

def isSignature (param : Text × Text) : Bool := param.1 = signatureParam

def isExpires (param : Text × Text) : Bool := param.1 = expiresParam

/-- The URL's own parameters, those of the signature left out. -/
def ownParams (url : Text) : Query := (params url).filter fun param => !isSignature param && !isExpires param

/-- The parameters that are signed: the URL's own and the expiry. -/
def signedParams (url : Text) (expiresAt : Option UInt64) : Query :=
  ownParams url ++ expiresAt.toList.map fun exp => (expiresParam, Nat.toDigits 10 exp.toNat)

/-- The text under the signature. -/
def canonicalOf (url : Text) (expiresAt : Option UInt64) : Text :=
  canonicalize (base url) (signedParams url expiresAt)

def checkExpires (params : Query) (nowSecs : UInt64) : Except SignedUrlError Unit :=
  match params.find? isExpires with
  | none => .ok ()
  | some (_, expStr) =>
    match parseU64 expStr with
    | none => .error .malformedSignature
    | some exp => if nowSecs > exp then .error .expired else .ok ()

section Model
variable (hmac : Bytes → Bytes → Bytes) (base64 : Engine)

def computeSignature (canonical : Text) (secret : Bytes) : Text := base64.encode (hmac (encode canonical) secret)

def signAt (url : Text) (secret : Bytes) (expiresAt : Option UInt64) : Text :=
  let signature := computeSignature hmac base64 (canonicalOf url expiresAt) secret
  rebuildUrl (base url) (signedParams url expiresAt ++ [(signatureParam, signature)]) ++ fragment url

def verifyAt (url : Text) (secret : Bytes) (nowSecs : UInt64) : Except SignedUrlError Unit :=
  match (params url).find? isSignature with
  | none => .error .missingSignature
  | some (_, providedSig) => do
    let rest := (params url).eraseP isSignature
    checkExpires rest nowSecs
    if computeSignature hmac base64 (canonicalize (base url) rest) secret = providedSig then .ok ()
    else .error .invalidSignature

end Model

private theorem parseU64_toDigits (n : UInt64) : parseU64 (Nat.toDigits 10 n.toNat) = some n := by
  have hdigits : Digits (Nat.toDigits 10 n.toNat) := by
    intro c hc
    exact Nat.isDigit_of_mem_toDigits (by decide) (by decide) hc
  have hvalue : value (Nat.toDigits 10 n.toNat) = n.toNat := Nat.ofDigitChars_ten_toDigits
  have hne : Nat.toDigits 10 n.toNat ≠ [] := Nat.toDigits_ne_nil
  have hhead : (Nat.toDigits 10 n.toNat).head? ≠ some '+' := by
    intro h
    have hplus := hdigits '+' (List.mem_of_mem_head? h)
    revert hplus
    decide
  unfold parseU64
  rw [if_neg hhead]
  simp [hne, hdigits, hvalue, n.toNat_lt]

section Signed
variable (url : Text) (expiresAt : Option UInt64)

private theorem isSignature_signedParams : ∀ param ∈ signedParams url expiresAt, isSignature param = false := by
  intro param hparam
  cases List.mem_append.1 hparam with
  | inl hkept => simpa using (Bool.and_eq_true_iff.1 (List.mem_filter.1 hkept).2).1
  | inr hexpires =>
    obtain ⟨exp, -, hexp⟩ := List.mem_map.1 hexpires
    subst hexp
    have hne : expiresParam ≠ signatureParam := by decide
    simp [isSignature, hne]

private theorem expires_of_mem_signedParams {param : Text × Text} (hparam : param ∈ signedParams url expiresAt)
    (hexpires : isExpires param = true) :
    ∃ exp, expiresAt = some exp ∧ param = (expiresParam, Nat.toDigits 10 exp.toNat) := by
  cases List.mem_append.1 hparam with
  | inl hkept =>
    have hother := (Bool.and_eq_true_iff.1 (List.mem_filter.1 hkept).2).2
    simp [hexpires] at hother
  | inr hadded =>
    obtain ⟨exp, hexp, heq⟩ := List.mem_map.1 hadded
    exact ⟨exp, Option.mem_toList.1 hexp, heq.symm⟩

private theorem find?_isExpires_signedParams : (signedParams url expiresAt).find? isExpires =
    expiresAt.map fun exp => (expiresParam, Nat.toDigits 10 exp.toNat) := by
  have hnone : (ownParams url).find? isExpires = none := by
    rw [List.find?_eq_none]
    intro param hparam
    simpa using (Bool.and_eq_true_iff.1 (List.mem_filter.1 hparam).2).2
  rw [signedParams, List.find?_append, hnone, Option.none_or]
  cases expiresAt with
  | none => rfl
  | some exp => simp [isExpires]

private theorem checkExpires_signedParams (nowSecs : UInt64) :
    checkExpires (signedParams url expiresAt) nowSecs = .ok () ↔ ∀ exp ∈ expiresAt, nowSecs ≤ exp := by
  unfold checkExpires
  rw [find?_isExpires_signedParams]
  cases expiresAt with
  | none => simp
  | some exp =>
    simp only [Option.map_some, parseU64_toDigits, Option.mem_def, Option.some.injEq, forall_eq']
    split
    · rename_i hlate
      simpa using hlate
    · rename_i hintime
      simpa using hintime

end Signed

section Model
variable {hmac : Bytes → Bytes → Bytes} {base64 : Engine} {secret : Bytes}

section Sign
variable (url : Text) (expiresAt : Option UInt64)

private theorem base_signAt : base (signAt hmac base64 url secret expiresAt) = base url :=
  base_rebuilt (not_mem_base url).2 (head_fragment url) (not_mem_base url).1

private theorem fragment_signAt : fragment (signAt hmac base64 url secret expiresAt) = fragment url :=
  fragment_rebuilt (not_mem_base url).2 (head_fragment url)

private theorem params_signAt : params (signAt hmac base64 url secret expiresAt) = signedParams url expiresAt ++
    [(signatureParam, computeSignature hmac base64 (canonicalOf url expiresAt) secret)] :=
  params_rebuilt (not_mem_base url).2 (head_fragment url) (not_mem_base url).1

private theorem rawParams_signAt : rawParams (signAt hmac base64 url secret expiresAt) =
    (params (signAt hmac base64 url secret expiresAt)).map asBytes := by
  rw [params_signAt]
  exact rawParams_rebuilt (not_mem_base url).2 (head_fragment url) (not_mem_base url).1

private theorem verifyAt_signAt_iff (nowSecs : UInt64) :
    verifyAt hmac base64 (signAt hmac base64 url secret expiresAt) secret nowSecs = .ok () ↔
      ∀ exp ∈ expiresAt, nowSecs ≤ exp := by
  have hnone : ∀ param ∈ signedParams url expiresAt, ¬ isSignature param = true := by
    intro param hparam
    simp [isSignature_signedParams url expiresAt param hparam]
  have hfind : (params (signAt hmac base64 url secret expiresAt)).find? isSignature =
      some (signatureParam, computeSignature hmac base64 (canonicalOf url expiresAt) secret) := by
    rw [params_signAt, List.find?_append, List.find?_eq_none.2 hnone]
    rfl
  have hrest : (params (signAt hmac base64 url secret expiresAt)).eraseP isSignature = signedParams url expiresAt := by
    rw [params_signAt, List.eraseP_append_right _ hnone]
    simp [isSignature]
  unfold verifyAt
  rw [hfind, hrest, base_signAt]
  rw [← checkExpires_signedParams url expiresAt nowSecs]
  simp only [canonicalOf, if_true]
  cases checkExpires (signedParams url expiresAt) nowSecs with
  | ok u => exact ⟨fun _ => rfl, fun _ => rfl⟩
  | error e => exact ⟨fun h => h, fun h => h⟩

/-- The signed URL is the URL with its signature: it verifies in time, and keeps what the URL has. -/
structure KeepsUrl (hmac : Bytes → Bytes → Bytes) (base64 : Engine) (secret : Bytes) (url : Text)
    (expiresAt : Option UInt64) : Prop where
  verifies : ∀ nowSecs, verifyAt hmac base64 (signAt hmac base64 url secret expiresAt) secret nowSecs = .ok () ↔
    ∀ exp ∈ expiresAt, nowSecs ≤ exp
  base_eq : base (signAt hmac base64 url secret expiresAt) = base url
  fragment_eq : fragment (signAt hmac base64 url secret expiresAt) = fragment url
  own_eq : ownParams (signAt hmac base64 url secret expiresAt) = ownParams url

private theorem keeps_url : KeepsUrl hmac base64 secret url expiresAt where
  verifies := verifyAt_signAt_iff url expiresAt
  base_eq := base_signAt url expiresAt
  fragment_eq := fragment_signAt url expiresAt
  own_eq := by
    have hexpires : ∀ exp : UInt64, isExpires (expiresParam, Nat.toDigits 10 exp.toNat) = true := by simp [isExpires]
    rw [ownParams, params_signAt, signedParams, List.filter_append, List.filter_append, ownParams, List.filter_filter]
    cases expiresAt with
    | none => simp [isSignature]
    | some exp => simp [isSignature, hexpires]

end Sign

section Verify
variable {u : Text} {nowSecs : UInt64}

private theorem checkExpires_eq_ok {q : Query} (h : checkExpires q nowSecs = .ok ()) {text : Text}
    (hfind : q.find? isExpires = some (expiresParam, text)) : ∃ exp, parseU64 text = some exp ∧ nowSecs ≤ exp := by
  unfold checkExpires at h
  rw [hfind] at h
  simp only at h
  cases hparse : parseU64 text with
  | none => simp [hparse] at h
  | some exp =>
    simp only [hparse] at h
    split at h
    · cases h
    · rename_i hlate
      exact ⟨exp, rfl, UInt64.not_lt.1 hlate⟩

private theorem verifyAt_eq_ok (h : verifyAt hmac base64 u secret nowSecs = .ok ()) : ∃ rest, (params u).Perm
      ((signatureParam, computeSignature hmac base64 (canonicalize (base u) rest) secret) :: rest) ∧
    checkExpires rest nowSecs = .ok () := by
  unfold verifyAt at h
  cases hfind : (params u).find? isSignature with
  | none => simp [hfind] at h
  | some found =>
    obtain ⟨key, sig⟩ := found
    have hkey : key = signatureParam := by simpa [isSignature] using List.find?_some hfind
    have hperm : (params u).Perm ((key, sig) :: (params u).eraseP isSignature) := by
      obtain ⟨hsig, before, after, hsplit, hbefore⟩ := List.find?_eq_some_iff_append.1 hfind
      have hnone : ∀ param ∈ before, ¬ isSignature param = true := by simpa using hbefore
      rw [hsplit, List.eraseP_append_right _ hnone, List.eraseP_cons_of_pos hsig]
      exact List.perm_middle
    simp only [hfind] at h
    cases hcheck : checkExpires ((params u).eraseP isSignature) nowSecs with
    | error e =>
      rw [hcheck] at h
      cases h
    | ok _ =>
      rw [hcheck] at h
      by_cases hsig : computeSignature hmac base64 (canonicalize (base u) ((params u).eraseP isSignature)) secret = sig
      · refine ⟨_, ?_, hcheck⟩
        rw [hsig, ← hkey]
        exact hperm
      · change (if _ then _ else _) = _ at h
        rw [if_neg hsig] at h
        cases h

end Verify

section Binding
variable (hmac : Bytes → Bytes → Bytes) (base64 : Engine) (secret : Bytes)

/-- Under a secret the keyed hash tells its messages apart. -/
def Injective : Prop := ∀ secret message message', hmac message secret = hmac message' secret → message = message'

/-- The URL carries no signature but one of those issued. -/
def Unforged (issued : Set (Text × Option UInt64)) (u : Text) : Prop := ∀ message,
  (signatureParam, base64.encode (hmac message secret)) ∈ params u →
    ∃ known ∈ issued, hmac (encode (canonicalOf known.1 known.2)) secret = hmac message secret

/-- The URL is the signed one, the order of its parameters aside: base, parameters and expiry. -/
structure IsSigned (known : Text × Option UInt64) (u : Text) (nowSecs : UInt64) : Prop where
  base_eq : base u = base (signAt hmac base64 known.1 secret known.2)
  perm : (rawParams u).Perm (rawParams (signAt hmac base64 known.1 secret known.2))
  expires : ∀ text, (encode expiresParam, text) ∈ rawParams u →
    ∃ exp, known.2 = some exp ∧ text = encode (Nat.toDigits 10 exp.toNat) ∧ nowSecs ≤ exp

variable {hmac} {base64} {secret} {issued : Set (Text × Option UInt64)} {u : Text} {nowSecs : UInt64}

private theorem params_perm_of_verifyAt (hinj : Injective hmac)
    (hunforged : Unforged hmac base64 secret issued u)
    (hok : verifyAt hmac base64 u secret nowSecs = .ok ()) : ∃ known ∈ issued,
      base u = base known.1 ∧ (params u).Perm (params (signAt hmac base64 known.1 secret known.2)) ∧
        ∀ exp ∈ known.2, nowSecs ≤ exp := by
  obtain ⟨rest, hperm, hcheck⟩ := verifyAt_eq_ok hok
  obtain ⟨known, hknown, htag⟩ := hunforged _ (hperm.mem_iff.2 List.mem_cons_self)
  have hcanonical := encode_injective (hinj secret _ _ htag)
  obtain ⟨hbase, hrest⟩ := canonicalize_injective (not_mem_base _).1 (not_mem_base _).1 hcanonical
  refine ⟨known, hknown, hbase.symm, ?_, ?_⟩
  · rw [params_signAt, hcanonical]
    exact hperm.trans ((hrest.symm.cons _).trans (List.perm_append_singleton _ _).symm)
  · intro exp hexp
    have hparam : (expiresParam, Nat.toDigits 10 exp.toNat) ∈ rest := by
      apply hrest.mem_iff.1
      rw [signedParams, hexp]
      simp
    cases hfind : rest.find? isExpires with
    | none =>
      have hnone := List.find?_eq_none.1 hfind _ hparam
      simp [isExpires] at hnone
    | some found =>
      have hfound := hrest.mem_iff.2 (List.mem_of_find?_eq_some hfind)
      obtain ⟨exp', hexp', heq⟩ := expires_of_mem_signedParams _ _ hfound (List.find?_some hfind)
      have hsame : exp' = exp := Option.some.inj (hexp'.symm.trans hexp)
      rw [heq, hsame] at hfind
      obtain ⟨n, hparse, hintime⟩ := checkExpires_eq_ok hcheck hfind
      rw [parseU64_toDigits] at hparse
      rwa [Option.some.inj hparse]

private theorem isUtf8_of_perm {known : Text × Option UInt64}
    (h : (rawParams u).Perm (rawParams (signAt hmac base64 known.1 secret known.2))) :
    ∀ p ∈ rawParams u, isUtf8 p = true := by
  intro p hp
  have hsigned := h.mem_iff.1 hp
  rw [rawParams_signAt] at hsigned
  obtain ⟨param, -, hparam⟩ := List.mem_map.1 hsigned
  rw [← hparam]
  exact isUtf8_asBytes param

private theorem isSigned_of_utf8 {known : Text × Option UInt64} (hutf8 : ∀ p ∈ rawParams u, isUtf8 p = true)
    (hbase : base u = base known.1) (hperm : (params u).Perm (params (signAt hmac base64 known.1 secret known.2)))
    (hintime : ∀ exp ∈ known.2, nowSecs ≤ exp) : IsSigned hmac base64 secret known u nowSecs := by
  constructor
  · rw [hbase, base_signAt]
  · rw [rawParams_of_utf8 hutf8, rawParams_signAt]
    exact hperm.map asBytes
  · intro text htext
    rw [rawParams_of_utf8 hutf8] at htext
    obtain ⟨param, hparam, heq⟩ := List.mem_map.1 htext
    obtain ⟨hkey, hvalue⟩ := Prod.mk.inj heq
    have hexpires : isExpires param = true := by simpa [isExpires] using encode_injective hkey
    have hmem := hperm.mem_iff.1 hparam
    rw [params_signAt, List.mem_append, List.mem_singleton] at hmem
    cases hmem with
    | inl hsigned =>
      obtain ⟨exp, hexp, hwritten⟩ := expires_of_mem_signedParams _ _ hsigned hexpires
      refine ⟨exp, hexp, ?_, hintime exp hexp⟩
      rw [← hvalue, hwritten]
    | inr hsignature =>
      have hne : signatureParam ≠ expiresParam := by decide
      simp [hsignature, isExpires, hne] at hexpires

/-- Every URL is kept by signing, and the verified one is a signed one just where its parameters are UTF-8. -/
theorem signed_url_iff (hinj : Injective hmac) (hunforged : Unforged hmac base64 secret issued u)
    (hok : verifyAt hmac base64 u secret nowSecs = .ok ()) :
    ((∀ url expiresAt, KeepsUrl hmac base64 secret url expiresAt) ∧
      ∃ known ∈ issued, IsSigned hmac base64 secret known u nowSecs) ↔ ∀ p ∈ rawParams u, isUtf8 p = true := by
  constructor
  · intro h
    obtain ⟨-, known, -, hsigned⟩ := h
    exact isUtf8_of_perm hsigned.perm
  · intro hutf8
    obtain ⟨known, hknown, hbase, hperm, hintime⟩ := params_perm_of_verifyAt hinj hunforged hok
    exact ⟨keeps_url, known, hknown, isSigned_of_utf8 hutf8 hbase hperm hintime⟩

end Binding

end Model

section Known

/-- `/?a=%EF%BF%BD`. -/
private def knownUrl : Text := "/?a=%EF%BF%BD".toList

/-- What HMAC-SHA256 makes of the known URL under the secret `k`. -/
private def knownTag : Bytes := [176, 87, 1, 131, 40, 91, 179, 48, 193, 233, 8, 179, 99, 52, 116, 84, 170, 28, 61, 54, 170,
  163, 190, 241, 128, 109, 97, 35, 1, 218, 31, 159]

private def knownHmac (message secret : Bytes) : Bytes :=
  if message = encode knownUrl ∧ secret = [0x6B] then knownTag else 0 :: message

private theorem knownHmac_injective : Injective knownHmac := by
  intro secret message message' h
  unfold knownHmac at h
  split at h <;> split at h
  · rename_i hknown hknown'
    rw [hknown.1, hknown'.1]
  · cases (List.cons.inj h).1
  · cases (List.cons.inj h).1
  · exact (List.cons.inj h).2

private def signedUrl : Text := signAt knownHmac Base64.urlSafeNoPad knownUrl [0x6B] none

/-- The signed URL, one byte in place of three. -/
private def alteredUrl : Text := "/?a=%FF&signature=".toList ++ Base64.urlSafeNoPad.encode knownTag

/-- The parameters of either URL, as texts. -/
private def knownParams : Query := [(['a'], ['\uFFFD']), (signatureParam, Base64.urlSafeNoPad.encode knownTag)]

private theorem known_unforged {u : Text} (hparams : params u = knownParams) :
    Unforged knownHmac Base64.urlSafeNoPad [0x6B] {(knownUrl, none)} u := by
  intro message hmessage
  refine ⟨_, rfl, ?_⟩
  have htag : knownHmac (encode (canonicalOf knownUrl none)) [0x6B] = knownTag := by decide +kernel
  have hkey : signatureParam ≠ ['a'] := by decide
  rw [hparams, knownParams] at hmessage
  simp only [List.mem_cons, Prod.mk.injEq, hkey, false_and, true_and, List.not_mem_nil, or_false, false_or] at hmessage
  rw [htag, Base64.urlSafeNoPad.encode_injective hmessage]

theorem known_signed : (∀ url expiresAt, KeepsUrl knownHmac Base64.urlSafeNoPad [0x6B] url expiresAt) ∧
    ∃ known ∈ ({(knownUrl, none)} : Set (Text × Option UInt64)),
      IsSigned knownHmac Base64.urlSafeNoPad [0x6B] known signedUrl 5 :=
  (signed_url_iff knownHmac_injective (known_unforged (by decide +kernel)) (by decide +kernel)).2 (by decide +kernel)

/-- The altered URL verifies, and is no signed one. -/
theorem altered_verifies : ¬ ∀ (hmac : Bytes → Bytes → Bytes) (base64 : Engine) (secret : Bytes)
    (issued : Set (Text × Option UInt64)) (u : Text) (nowSecs : UInt64), Injective hmac →
      Unforged hmac base64 secret issued u → verifyAt hmac base64 u secret nowSecs = .ok () →
        ∃ known ∈ issued, IsSigned hmac base64 secret known u nowSecs := by
  intro hall
  obtain ⟨known, hknown, hsigned⟩ := hall knownHmac Base64.urlSafeNoPad [0x6B] {(knownUrl, none)} alteredUrl 5
    knownHmac_injective (known_unforged (by decide +kernel)) (by decide +kernel)
  rw [Set.mem_singleton_iff.1 hknown] at hsigned
  have hbyte : (encode ['a'], [255]) ∈ rawParams signedUrl :=
    hsigned.perm.mem_iff.1 (by decide +kernel : (encode ['a'], [255]) ∈ rawParams alteredUrl)
  revert hbyte
  decide +kernel

end Known

end Rustango.SignedUrl
