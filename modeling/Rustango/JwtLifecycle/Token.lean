import Rustango.JwtLifecycle.JtiMap
import Rustango.Lib.Base64
import Rustango.Lib.Threads

/-!
# Tokens

`verify` of `jwt.rs` and `JwtLifecycle` of `tenancy/jwt_lifecycle.rs`: the calls as programs that read the clock
and ask the store. The keyed hash, the base64 engine and the JSON library are parameters.
-/

namespace Rustango.JwtLifecycle

open Rustango.Base64 (Engine)
open Rustango.Threads
open Rustango.Url (Text)
open Rustango.Utf8

/-- What the program uses of `serde_json`. -/
structure Json where
  Value : Type
  Map : Type
  ofInt : Int → Value
  ofStr : Text → Value
  asI64 : Value → Option Int
  asStr : Value → Option Text
  empty : Map
  get : Map → Text → Option Value
  insert : Map → Text → Value → Map
  remove : Map → Text → Map
  entries : Map → List (Text × Value)
  toVec : Map → Bytes
  fromSlice : Bytes → Option Map

/-- The libraries under the tokens; the hash takes the secret first. -/
structure Codec where
  hmac : Bytes → Bytes → Bytes
  base64 : Engine
  json : Json

/-- The secret has the length that construction asks for. -/
structure Config where
  secret : Bytes
  long : 32 ≤ secret.length
  accessTtlSecs : Int
  refreshTtlSecs : Int

/-- A step on the clock, the store or the random source. -/
inductive Op
  | now
  | isUsed (jti : Text)
  | markUsed (jti : Text) (exp : Int)
  | randomJti
deriving DecidableEq

abbrev Op.Answer : Op → Type
  | .now => Int
  | .isUsed _ => Bool
  | .markUsed _ _ => Bool
  | .randomJti => Text

abbrev JwtProg := Prog Op Op.Answer

structure JwtClaims (M : Type) where
  sub : Int
  exp : Int
  jti : Text
  typ : Text
  custom : M

structure JwtTokenPair where
  access : Text
  refresh : Text
deriving DecidableEq

inductive JwtIssueError
  | reservedClaim (name : Text)
deriving DecidableEq

inductive RevokeFailed
  | revokeFailed
deriving DecidableEq

def accessTyp : Text := "access".toList

def refreshTyp : Text := "refresh".toList

def subName : Text := "sub".toList

def expName : Text := "exp".toList

def jtiName : Text := "jti".toList

def typName : Text := "typ".toList

def reservedClaimNames : List Text := [subName, expName, jtiName, typName]

section Model
variable (codec : Codec)

/-- `verify` of `jwt.rs`, whatever its error. -/
def verify (token : Text) (secret : Bytes) : Option codec.json.Map :=
  if secret.length < 32 then none
  else match token.splitOn '.' with
  | [headerB, payloadB, sigB] => do
    let provided ← codec.base64.decode sigB
    if codec.hmac secret (encode (headerB ++ '.' :: payloadB)) ≠ provided then none
    else do
      let header ← codec.json.fromSlice (← codec.base64.decode headerB)
      if (codec.json.get header "alg".toList).bind codec.json.asStr ≠ some "HS256".toList then none
      else codec.json.fromSlice (← codec.base64.decode payloadB)
  | _ => none

/-- `encode` of `jwt.rs`, the secret long enough. -/
def encodeToken (payload : codec.json.Map) (secret : Bytes) : Text :=
  let json := codec.json
  let header := json.insert (json.insert json.empty "alg".toList (json.ofStr "HS256".toList)) "typ".toList
    (json.ofStr "JWT".toList)
  let signingInput := codec.base64.encode (json.toVec header) ++ '.' :: codec.base64.encode (json.toVec payload)
  signingInput ++ '.' :: codec.base64.encode (codec.hmac secret (encode signingInput))

variable (jwt : Config)

def decodeSigned (token : Text) : Option (JwtClaims codec.json.Map) := do
  let payload ← verify codec token jwt.secret
  let sub ← (codec.json.get payload subName).bind codec.json.asI64
  let exp ← (codec.json.get payload expName).bind codec.json.asI64
  let jti ← (codec.json.get payload jtiName).bind codec.json.asStr
  let typ ← (codec.json.get payload typName).bind codec.json.asStr
  return ⟨sub, exp, jti, typ, reservedClaimNames.foldl codec.json.remove payload⟩

/-- Signature and expiry, no store lookup. -/
def decodeUnexpired (token : Text) : JwtProg (Option (JwtClaims codec.json.Map)) :=
  match decodeSigned codec jwt token with
  | none => pure none
  | some claims => do
    let now ← Prog.call .now
    return if (now : Int) < claims.exp then some claims else none

def verifyToken (token : Text) : JwtProg (Option (JwtClaims codec.json.Map)) := do
  match ← decodeUnexpired codec jwt token with
  | none => return none
  | some claims => if ← Prog.call (.isUsed claims.jti) then return none else return some claims

/-- Single-use redemption: of two, one is the first to mark. -/
def redeemRefresh (token : Text) : JwtProg (Option (JwtClaims codec.json.Map)) := do
  match ← decodeUnexpired codec jwt token with
  | none => return none
  | some claims =>
    if claims.typ ≠ refreshTyp then return none
    else if ← Prog.call (.markUsed claims.jti claims.exp) then return some claims else return none

def issueTokenInner (userId : Int) (typ : Text) (ttlSecs : Int) (custom : codec.json.Map) : JwtProg Text := do
  let json := codec.json
  let now ← Prog.call .now
  let jti ← Prog.call .randomJti
  let payload := (json.entries custom).foldl (fun payload entry => json.insert payload entry.1 entry.2) json.empty
  let payload := json.insert payload subName (json.ofInt userId)
  let payload := json.insert payload expName (json.ofInt (now + ttlSecs))
  let payload := json.insert payload jtiName (json.ofStr jti)
  let payload := json.insert payload typName (json.ofStr typ)
  return encodeToken codec payload jwt.secret

def issuePairWith (userId : Int) (custom : codec.json.Map) : JwtProg (Except JwtIssueError JwtTokenPair) :=
  match reservedClaimNames.find? fun name => (codec.json.get custom name).isSome with
  | some reserved => pure (.error (.reservedClaim reserved))
  | none => do
    let access ← issueTokenInner codec jwt userId accessTyp jwt.accessTtlSecs custom
    let refresh ← issueTokenInner codec jwt userId refreshTyp jwt.refreshTtlSecs custom
    return .ok ⟨access, refresh⟩

def refresh (refreshToken : Text) : JwtProg (Option JwtTokenPair) := do
  match ← redeemRefresh codec jwt refreshToken with
  | none => return none
  | some claims => return (← issuePairWith codec jwt claims.sub claims.custom).toOption

def refreshWith (refreshToken : Text) (newCustom : codec.json.Map) :
    JwtProg (Except JwtIssueError (Option JwtTokenPair)) := do
  match ← redeemRefresh codec jwt refreshToken with
  | none => return .ok none
  | some claims => return (← issuePairWith codec jwt claims.sub newCustom).map some

/-- An expiry already past needs no entry. -/
def recordRevoked (key : Text) (exp : Int) : JwtProg (Except RevokeFailed Unit) := do
  let now ← Prog.call .now
  if exp ≤ now then return .ok ()
  else if ← Prog.call (.markUsed key exp) then return .ok ()
  else if ← Prog.call (.isUsed key) then return .ok ()
  else return .error .revokeFailed

def tryRevoke (token : Text) : JwtProg (Except RevokeFailed Bool) :=
  match decodeSigned codec jwt token with
  | none => pure (.ok false)
  | some claims => do return (← recordRevoked claims.jti claims.exp).map fun _ => true

/-- One of the calls, on a token. -/
inductive Call (M : Type)
  | refresh (token : Text)
  | refreshWith (token : Text) (newCustom : M)
  | tryRevoke (token : Text)
  | verifyToken (token : Text)

inductive Reply (M : Type)
  | refresh (pair : Option JwtTokenPair)
  | refreshWith (pair : Except JwtIssueError (Option JwtTokenPair))
  | tryRevoke (revoked : Except RevokeFailed Bool)
  | verifyToken (claims : Option (JwtClaims M))

def Call.token {M : Type} : Call M → Text
  | .refresh token | .refreshWith token _ | .tryRevoke token | .verifyToken token => token

def callProg : Call codec.json.Map → JwtProg (Reply codec.json.Map)
  | .refresh token => do return .refresh (← refresh codec jwt token)
  | .refreshWith token newCustom => do return .refreshWith (← refreshWith codec jwt token newCustom)
  | .tryRevoke token => do return .tryRevoke (← tryRevoke codec jwt token)
  | .verifyToken token => do return .verifyToken (← verifyToken codec jwt token)

end Model

end Rustango.JwtLifecycle
