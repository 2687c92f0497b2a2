import Mathlib
import Rustango.Lib.Base64
import Rustango.RealIp.Layer
import Rustango.Totp.Base32

/-!
# Signed requests

`HmacAuthLayer` of `hmac_auth.rs` and its client: the text that a signature covers, the `Authorization` header, and
the checks before a request is passed on. SHA-256, HMAC and the parsers of hosts and dates are parameters.
-/

namespace Rustango.HmacAuth

open Rustango.Base64 (encodeStandard decodeStandard decodeStandard_encodeStandard mem_encodeStandard)
open Rustango.RealIp (Headers isWhitespace toStr trim trimMatches)
open Rustango.Url (Text)
open Rustango.Utf8 (Bytes)

/-- `http::uri::Authority`; its text is the one parsed. -/
structure Authority where
  host : Text
  port : Option Nat
deriving DecidableEq

structure Crates where
  /-- `Ipv6Addr`, parsed and shown again. -/
  ipv6 : Text → Option Text
  authority : Text → Option Authority
  /-- `parse_from_rfc3339`, in unix seconds. -/
  rfc3339 : Text → Option Int
  sha256Hex : Bytes → Text
  hmac : Bytes → Bytes → Bytes
  line_ipv6 : ∀ t ip, ipv6 t = some ip → '\n' ∉ ip
  line_authority : ∀ t a, authority t = some a → '\n' ∉ a.host
  line_sha256Hex : ∀ b, '\n' ∉ sha256Hex b

def headerDate : String := "x-date"

def headerAuth : String := "authorization"

def scheme : Text := "HMAC-SHA256".toList

/-- Pseudo-header name of the signed port. -/
def portLine : Text := ":port".toList

def toAsciiLowercase (c : Char) : Char := if c.isUpper then Char.ofNat (c.toNat + 32) else c

/-- `strip_prefix` -/
def strip (p s : Text) : Option Text := if p <+: s then some (s.drop p.length) else none

section Code
variable (x : Crates)

/-- `SignedHost::parse` -/
def parseHost (raw : Text) : Option Text :=
  let raw := trim raw
  match x.ipv6 raw with
  | some ip => some ('[' :: ip ++ [']'])
  | none => (x.authority raw).bind fun authority =>
    if '@' ∈ raw then none
    else if authority.host.head? = some '[' ∧ authority.host.getLast? = some ']' ∧ 1 < authority.host.length then
      (x.ipv6 (authority.host.drop 1).dropLast).map fun ip => '[' :: ip ++ [']']
    else
      let host := if authority.host.getLast? = some '.' then authority.host.dropLast else authority.host
      if host = [] then none else some (host.map toAsciiLowercase)

/-- The host a signature covers. -/
structure SignedHost where
  text : Text
  parsed : ∃ raw, parseHost x raw = some text

def SignedHost.parse (raw : Text) : Option (SignedHost x) :=
  match h : parseHost x raw with
  | some text => some ⟨text, raw, h⟩
  | none => none

/-- `http::HeaderName` -/
structure HeaderName where
  name : String
  lower : name.toList.map toAsciiLowercase = name.toList
  plain : name.toList ≠ [] ∧ ':' ∉ name.toList ∧ '\n' ∉ name.toList
deriving DecidableEq

/-- A request as the layer reads it; the path and the query are those before a prefix was cut. -/
structure Request where
  method : Text
  headers : Headers
  uriAuthority : Option Text
  path : Text
  query : Option Text
  body : Bytes
  line : '\n' ∉ method ∧ '\n' ∉ path ∧ '\n' ∉ query.getD []

def header (req : Request) (name : String) : Option (Option Text) := (req.headers name).head?.map toStr

def requestHost (req : Request) : Except String Text :=
  let target : Except String (Option Text) :=
    match req.uriAuthority with
    | some a => match parseHost x a with
      | some h => .ok (some h)
      | none => .error "malformed request target"
    | none => .ok none
  match header req "host" with
  | some v =>
    match v.bind (parseHost x) with
    | none => .error "malformed Host"
    | some h => match target with
      | .error msg => .error msg
      | .ok (some t) => if h ≠ t then .error "Host does not match the request target" else .ok h
      | .ok none => .ok h
  | none => match target with
    | .error msg => .error msg
    | .ok (some t) => .ok t
    | .ok none => .error "missing Host"

/-- The port in `Host`, else in the request target. -/
def requestPort (req : Request) : Option Nat :=
  ((((header req "host").getD none).bind x.authority).bind Authority.port).or
    ((req.uriAuthority.bind x.authority).bind Authority.port)

/-- Signed headers and port, sorted by name. -/
abbrev SignedExtras := List (Text × Text)

/-- `BTreeMap::insert` -/
def SignedExtras.put (name value : Text) : SignedExtras → SignedExtras
  | [] => [(name, value)]
  | e :: rest =>
    if name < e.1 then (name, value) :: e :: rest
    else if name = e.1 then (name, value) :: rest
    else e :: SignedExtras.put name value rest

def SignedExtras.insert (extras : SignedExtras) (name value : Text) : SignedExtras :=
  extras.put (name.map toAsciiLowercase) (trim value)

def sortQuery (q : Text) : Text :=
  ['&'].intercalate (((q.splitOn '&').filter (· ≠ [])).insertionSort (· ≤ ·))

/-- What a signature covers. -/
structure Covered where
  method : Text
  host : Option Text
  path : Text
  query : Text
  date : Text
  bodyHash : Text
  extras : SignedExtras

def canonicalRequest (c : Covered) : Text :=
  c.method.map Totp.toAsciiUppercase ++ '\n' :: c.host.getD [] ++ '\n' :: c.path ++ '\n' :: sortQuery c.query ++
    '\n' :: c.date ++ '\n' :: c.bodyHash ++ c.extras.flatMap fun e => '\n' :: e.1 ++ ':' :: e.2

def signature (secret : Bytes) (c : Covered) : Bytes := x.hmac secret (Utf8.encode (canonicalRequest c))

structure ParsedAuth where
  keyId : Text
  signature : Bytes
deriving DecidableEq

/-- One `name=value` of the header; a later one replaces an earlier. -/
def parsePair (acc : Option Text × Option Bytes) (pair : Text) : Option Text × Option Bytes :=
  let pair := trim pair
  match strip "keyId=".toList pair with
  | some v => (some (trimMatches (· = '"') v), acc.2)
  | none =>
    match strip "signature=".toList pair with
    | some v => (acc.1, decodeStandard (trimMatches (· = '"') v))
    | none => acc

def parseAuth (value : Text) : Option ParsedAuth :=
  (strip scheme (trim value)).bind fun rest =>
    let found := ((trim rest).splitOn ',').foldl (parsePair) (none, none)
    found.1.bind fun keyId => found.2.map fun signature => ⟨keyId, signature⟩

/-- The layer; `resolver` gives the secret of a key. -/
structure HmacAuthConfig where
  resolver : Text → Option Bytes
  toleranceSecs : Nat := 300
  bodyLimit : Nat := 10 * 1024 * 1024
  host : Option (SignedHost x) := none
  signedHeaders : List HeaderName := []
  signPort : Bool := false
  /-- A cache keeps the signatures that passed. -/
  nonceStore : Bool := false
  distinct : signedHeaders.Nodup := by simp

namespace HmacAuthConfig
variable {x}

def new (resolver : Text → Option Bytes) : HmacAuthConfig x := { resolver }

def addSignedHeader (cfg : HmacAuthConfig x) (name : HeaderName) : HmacAuthConfig x :=
  if h : name ∈ cfg.signedHeaders then cfg
  else
    { cfg with
      signedHeaders := cfg.signedHeaders ++ [name]
      distinct := List.nodup_append.mpr ⟨cfg.distinct, List.nodup_singleton name, fun _ ha _ hb hab =>
        h (List.mem_singleton.mp hb ▸ hab ▸ ha)⟩ }

/-- `HmacAuthLayer::signed_headers` -/
def withSignedHeaders (cfg : HmacAuthConfig x) (names : List HeaderName) : HmacAuthConfig x :=
  names.foldl addSignedHeader cfg

end HmacAuthConfig

inductive Denial where
  | unauthorized (message : String)
  | tooLarge
deriving DecidableEq

/-- A clock that cannot be read accepts no date. -/
def dateWithinTolerance (date : Text) (toleranceSecs : Nat) (now : Option Int) : Bool :=
  match x.rfc3339 date, now with
  | some then_, some now => decide ((now - then_).natAbs ≤ toleranceSecs)
  | _, _ => false

/-- A listed header that is missing signs as empty. -/
def addExtra (req : Request) (extras : SignedExtras) (name : HeaderName) : Except String SignedExtras :=
  match header req name.name with
  | some (some v) => .ok (extras.insert name.name.toList v)
  | some none => .error "malformed signed header"
  | none => .ok (extras.insert name.name.toList [])

/-- The text of the signed port, empty where the request names none. -/
def portText (req : Request) : Text := (requestPort x req).elim [] fun p => (toString p).toList

def signedExtras (cfg : HmacAuthConfig x) (req : Request) : Except String SignedExtras := do
  let extras ← cfg.signedHeaders.foldlM (addExtra req) []
  pure (if cfg.signPort then extras.insert portLine (portText x req) else extras)

def signedHost (cfg : HmacAuthConfig x) (req : Request) : Except String Text :=
  match cfg.host with
  | some h => .ok h.text
  | none => requestHost x req

/-- What the signature of a request is to cover. -/
def coveredBy (cfg : HmacAuthConfig x) (req : Request) (date : Text) : Except String Covered := do
  let host ← signedHost x cfg req
  let extras ← signedExtras x cfg req
  pure ⟨req.method, some host, req.path, req.query.getD [], date, x.sha256Hex req.body, extras⟩

/-- `verify_request` up to the tenant and the nonce: the date and the signature of a request that passes. -/
def checkRequest (cfg : HmacAuthConfig x) (now : Option Int) (req : Request) : Except Denial (Text × Bytes) :=
  match (header req headerDate).getD none with
  | none => .error (.unauthorized "missing X-Date")
  | some date =>
    if !dateWithinTolerance x date cfg.toleranceSecs now then
      .error (.unauthorized "X-Date outside tolerance window")
    else match (header req headerAuth).getD none with
    | none => .error (.unauthorized "missing Authorization")
    | some auth => match parseAuth auth with
      | none => .error (.unauthorized "malformed Authorization")
      | some parsed => match cfg.resolver parsed.keyId with
        | none => .error (.unauthorized "unknown key id")
        | some secret => match coveredBy x cfg req date with
          | .error msg => .error (.unauthorized msg)
          | .ok covered =>
            if cfg.bodyLimit < req.body.length then .error .tooLarge
            else if signature x secret covered ≠ parsed.signature then .error (.unauthorized "signature mismatch")
            else .ok (date, parsed.signature)

/-- A request to sign. -/
structure RequestToSign where
  method : Text
  host : Text
  path : Text
  query : Text
  date : Text
  body : Bytes
  extras : SignedExtras

namespace RequestToSign

def new (method host path query date : Text) (body : Bytes) : RequestToSign :=
  ⟨method, host, path, query, date, body, []⟩

def header (r : RequestToSign) (name value : Text) : RequestToSign := { r with extras := r.extras.insert name value }

def port (r : RequestToSign) (port : Nat) : RequestToSign :=
  { r with extras := r.extras.insert portLine (toString port).toList }

def covered (r : RequestToSign) : Covered :=
  ⟨r.method, parseHost x r.host, r.path, r.query, r.date, x.sha256Hex r.body, r.extras⟩

def authorization (r : RequestToSign) (keyId : Text) (secret : Bytes) : Text :=
  scheme ++ " keyId=".toList ++ keyId ++ ",signature=".toList ++ encodeStandard (signature x secret (r.covered x))

end RequestToSign

end Code

private theorem trimMatches_eq_self {p : Char → Bool} {s : Text} (hhead : ∀ c, s.head? = some c → p c = false)
    (hlast : ∀ c, s.getLast? = some c → p c = false) : trimMatches p s = s := by
  have hdrop : s.dropWhile p = s := by
    cases s with
    | nil => rfl
    | cons c s => rw [List.dropWhile_cons_of_neg (by simp [hhead c rfl])]
  rw [trimMatches, hdrop, List.rdropWhile_eq_self_iff]
  intro hne
  rw [hlast _ (List.getLast?_eq_some_getLast hne)]
  decide

private theorem plain_encodeStandard (b : Bytes) :
    ∀ c ∈ encodeStandard b, c ≠ ',' ∧ c ≠ '"' ∧ isWhitespace c = false := by
  have hall : ((Base64.alphabet.map Base64.standardChar).all fun c =>
      c ≠ ',' ∧ c ≠ '"' ∧ isWhitespace c = false) = true := by decide
  intro c hc
  rcases mem_encodeStandard hc with hc | hc
  · exact of_decide_eq_true (List.all_eq_true.mp hall c hc)
  · rw [hc]
    decide

private theorem strip_append (p s : Text) : strip p (p ++ s) = some s := by
  rw [strip, if_pos (List.prefix_append p s), List.drop_left]

/-- A key id that the header carries as it is. -/
structure KeyIdFits (keyId : Text) : Prop where
  comma : ',' ∉ keyId
  first : ∀ c, keyId.head? = some c → c ≠ '"'
  last : ∀ c, keyId.getLast? = some c → c ≠ '"' ∧ isWhitespace c = false

section Header
variable {x : Crates}

private theorem getLast_field {name value : Text} (hname : ∀ c, name.getLast? = some c → isWhitespace c = false)
    (hvalue : ∀ c, value.getLast? = some c → isWhitespace c = false) :
    ∀ c, (name ++ value).getLast? = some c → isWhitespace c = false := by
  intro c hc
  rw [List.getLast?_append] at hc
  cases hv : value.getLast? with
  | some d =>
    rw [hv] at hc
    exact hvalue c (hv.trans hc)
  | none =>
    rw [hv] at hc
    exact hname c hc

private theorem parsePair_keyId {keyId : Text} (h : KeyIdFits keyId) (acc : Option Text × Option Bytes) :
    parsePair acc ("keyId=".toList ++ keyId) = (some keyId, acc.2) := by
  have htrim : trim ("keyId=".toList ++ keyId) = "keyId=".toList ++ keyId := by
    apply trimMatches_eq_self
    · intro c hc
      cases hc
      decide
    · exact getLast_field (fun c hc => by cases hc; decide) fun c hc => (h.last c hc).2
  have hquotes : trimMatches (· = '"') keyId = keyId :=
    trimMatches_eq_self (fun c hc => decide_eq_false (h.first c hc)) fun c hc => decide_eq_false (h.last c hc).1
  simp only [parsePair, htrim, strip_append, hquotes]

private theorem parsePair_signature (b : Bytes) (acc : Option Text × Option Bytes) :
    parsePair acc ("signature=".toList ++ encodeStandard b) = (acc.1, some b) := by
  have hlast : ∀ c, (encodeStandard b).getLast? = some c → isWhitespace c = false := fun c hc =>
    (plain_encodeStandard b c (List.mem_of_getLast? hc)).2.2
  have htrim : trim ("signature=".toList ++ encodeStandard b) = "signature=".toList ++ encodeStandard b := by
    apply trimMatches_eq_self
    · intro c hc
      cases hc
      decide
    · exact getLast_field (fun c hc => by cases hc; decide) hlast
  have hquotes : trimMatches (· = '"') (encodeStandard b) = encodeStandard b :=
    trimMatches_eq_self (fun c hc => decide_eq_false (plain_encodeStandard b c (List.mem_of_head? hc)).2.1)
      fun c hc => decide_eq_false (plain_encodeStandard b c (List.mem_of_getLast? hc)).2.1
  have hother : strip "keyId=".toList ("signature=".toList ++ encodeStandard b) = none := by
    rw [strip, if_neg]
    intro hstart
    exact absurd (List.cons_prefix_cons.mp hstart).1 (by decide)
  simp only [parsePair, htrim, hother, strip_append, hquotes, decodeStandard_encodeStandard]

/-- What a client writes behind the scheme. -/
def credentials (keyId : Text) (sig : Bytes) : Text :=
  ("keyId=".toList ++ keyId) ++ ',' :: ("signature=".toList ++ encodeStandard sig)

private theorem authorization_eq (r : RequestToSign) (keyId : Text) (secret : Bytes) :
    r.authorization x keyId secret = scheme ++ ' ' :: credentials keyId (signature x secret (r.covered x)) := by
  simp [RequestToSign.authorization, credentials]

private theorem getLast_credentials (front keyId : Text) (sig : Bytes) :
    ∀ c, (front ++ credentials keyId sig).getLast? = some c → isWhitespace c = false := by
  have hlast : ∀ c, ("signature=".toList ++ encodeStandard sig).getLast? = some c → isWhitespace c = false :=
    getLast_field (fun c hc => by cases hc; decide) fun c hc => (plain_encodeStandard sig c (List.mem_of_getLast? hc)).2.2
  intro c hc
  rw [credentials, ← List.append_assoc, List.getLast?_append, List.getLast?_cons] at hc
  cases hv : ("signature=".toList ++ encodeStandard sig).getLast? with
  | none => simp at hv
  | some d =>
    rw [hv] at hc
    exact hlast c (hv.trans hc)

private theorem trim_credentials (keyId : Text) (sig : Bytes) :
    trim (' ' :: credentials keyId sig) = credentials keyId sig := by
  have hself : trim (credentials keyId sig) = credentials keyId sig := by
    apply trimMatches_eq_self
    · intro c hc
      cases hc
      decide
    · exact getLast_credentials [] keyId sig
  rw [trim, trimMatches, List.dropWhile_cons_of_pos (by decide)]
  exact hself

private theorem splitOn_credentials {keyId : Text} (h : KeyIdFits keyId) (sig : Bytes) :
    (credentials keyId sig).splitOn ',' =
    ["keyId=".toList ++ keyId, "signature=".toList ++ encodeStandard sig] := by
  have hjoined : credentials keyId sig =
      [','].intercalate ["keyId=".toList ++ keyId, "signature=".toList ++ encodeStandard sig] := by
    simp [credentials, List.intercalate]
  rw [hjoined]
  apply List.splitOn_intercalate
  · intro piece hpiece
    rcases List.mem_pair.mp hpiece with hp | hp
    · rw [hp, List.mem_append, not_or]
      exact ⟨by decide, h.comma⟩
    · rw [hp, List.mem_append, not_or]
      exact ⟨by decide, fun hmem => (plain_encodeStandard sig ',' hmem).1 rfl⟩
  · simp

theorem parseAuth_authorization (r : RequestToSign) {keyId : Text} (h : KeyIdFits keyId) (secret : Bytes) :
    parseAuth (r.authorization x keyId secret) = some ⟨keyId, signature x secret (r.covered x)⟩ := by
  rw [authorization_eq]
  generalize signature x secret (r.covered x) = sig
  have htrim : trim (scheme ++ ' ' :: credentials keyId sig) = scheme ++ ' ' :: credentials keyId sig := by
    apply trimMatches_eq_self
    · intro c hc
      cases hc
      decide
    · have hlast := getLast_credentials (scheme ++ [' ']) keyId sig
      rwa [List.append_assoc, List.singleton_append] at hlast
  rw [parseAuth, htrim, strip_append, Option.bind_some]
  simp only [trim_credentials, splitOn_credentials h, List.foldl_cons, List.foldl_nil, parsePair_keyId h,
    parsePair_signature, Option.bind_some, Option.map_some]

end Header

end Rustango.HmacAuth
