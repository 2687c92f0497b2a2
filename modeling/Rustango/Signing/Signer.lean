import Rustango.Lib.Base64
import Rustango.Lib.Halves
import Rustango.Lib.Utf8
import Rustango.Signing.Base62

/-!
# Signed values

`Signer` and `TimestampSigner` of `signing.rs`, with `dumps` and `loads`. The keyed hash and the base64 engine
are parameters.
-/

namespace Rustango.Signing

open Rustango.Base64 (Engine)
open Rustango.Halves
open Rustango.Utf8
open Rustango.WebUrl (Text)

inductive SignError
  | malformed
  | badSignature
  | expired (ageSecs maxAgeSecs : Nat)
  | badTimestamp
deriving DecidableEq

structure Signer where
  secret : Bytes
  salt : Bytes
  sep : Char

structure Duration where
  secs : Nat
  nanos : Nat
  nanos_lt : nanos < 10 ^ 9

section Model
variable (saltedHmac : Bytes → Bytes → Bytes → Bytes) (base64 : Engine)

namespace Signer

def new (secret : Bytes) : Signer where
  secret := secret
  salt := encode "django.core.signing.Signer".toList
  sep := ':'

def withSalt (s : Signer) (salt : Bytes) : Signer := { s with salt := salt }

def withSep (s : Signer) (sep : Char) : Signer := { s with sep := sep }

def computeTag (s : Signer) (value : Bytes) : Bytes := saltedHmac s.salt value s.secret

/-- The text of a value's tag. -/
def tagText (s : Signer) (value : Text) : Text := base64.encode (s.computeTag saltedHmac (encode value))

def sign (s : Signer) (value : Text) : Text := value ++ s.sep :: s.tagText saltedHmac base64 value

end Signer

/-- Padding is dropped first. -/
def urlsafeBase64Decode (t : Text) : Option Bytes := base64.decode (t.rdropWhile (· = '='))

/-- The tag stands behind the last separator: the value may contain it too. -/
def Signer.unsign (s : Signer) (signed : Text) : Except SignError Text :=
  match rsplitOnce s.sep signed with
  | none => .error .malformed
  | some (value, tag) =>
    match urlsafeBase64Decode base64 tag with
    | none => .error .badSignature
    | some supplied =>
      if supplied = s.computeTag saltedHmac (encode value) then .ok value else .error .badSignature

/-- A signer with a timestamp keeps the default separator. -/
structure TimestampSigner where
  inner : Signer
  colon : inner.sep = ':'

namespace TimestampSigner

def new (secret : Bytes) : TimestampSigner where
  inner := (Signer.new secret).withSalt (encode "django.core.signing.TimestampSigner".toList)
  colon := rfl

def withSalt (s : TimestampSigner) (salt : Bytes) : TimestampSigner where
  inner := s.inner.withSalt salt
  colon := s.colon

/-- The value with its time. -/
def payload (s : TimestampSigner) (value : Text) (unixSeconds : Nat) : Text :=
  value ++ s.inner.sep :: intToBase62 unixSeconds

def signAt (s : TimestampSigner) (value : Text) (unixSeconds : Nat) : Text :=
  let payload := s.payload value unixSeconds
  payload ++ s.inner.sep :: s.inner.tagText saltedHmac base64 payload

def unsignAt (s : TimestampSigner) (signed : Text) (maxAge : Option Duration) (nowSecs : Nat) :
    Except SignError Text := do
  let payload ← s.inner.unsign saltedHmac base64 signed
  match rsplitOnce s.inner.sep payload with
  | none => .error .malformed
  | some (value, stamp) =>
    match base62ToInt stamp with
    | .error _ => .error .badTimestamp
    | .ok ts =>
      match maxAge with
      | none => .ok value
      | some max =>
        let age := nowSecs - ts
        if max.secs < age then .error (.expired age max.secs) else .ok value

/-- A clock that cannot be read stamps 1970. -/
def sign (s : TimestampSigner) (value : Text) (clock : Option Nat) : Text :=
  s.signAt saltedHmac base64 value (clock.getD 0)

/-- A clock that cannot be read makes every value too old. -/
def unsign (s : TimestampSigner) (signed : Text) (maxAge : Option Duration) (clock : Option Nat) :
    Except SignError Text :=
  s.unsignAt saltedHmac base64 signed maxAge (clock.getD u64Max)

end TimestampSigner

/-- What serde makes of the values of a type. -/
structure Json (α : Type) where
  toVec : α → Option Bytes
  fromSlice : Bytes → Except String α

inductive LoadsError
  | sign (e : SignError)
  | decode
  | deserialize (message : String)

variable {α : Type} (json : Json α)

def dumps (value : α) (salt : Text) (secret : Bytes) (clock : Option Nat) : Option Text :=
  (json.toVec value).map fun bytes =>
    ((TimestampSigner.new secret).withSalt (encode salt)).sign saltedHmac base64 (base64.encode bytes) clock

def loads (signed salt : Text) (secret : Bytes) (maxAge : Option Duration) (clock : Option Nat) :
    Except LoadsError α :=
  match ((TimestampSigner.new secret).withSalt (encode salt)).unsign saltedHmac base64 signed maxAge clock with
  | .error e => .error (.sign e)
  | .ok payload =>
    match urlsafeBase64Decode base64 payload with
    | none => .error .decode
    | some bytes =>
      match json.fromSlice bytes with
      | .error message => .error (.deserialize message)
      | .ok value => .ok value

end Model

end Rustango.Signing
