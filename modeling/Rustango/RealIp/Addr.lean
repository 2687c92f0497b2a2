import Mathlib
import Rustango.Lib.Halves
import Rustango.Url.Codec

/-!
# Addresses of a forwarding chain

The standard library's reading of an IP address, the hop parsers of `real_ip.rs` on it, and the ranges of
`cidr.rs`.
-/

namespace Rustango.RealIp

open Halves Url

inductive IpAddr
  | v4 (addr : BitVec 32)
  | v6 (addr : BitVec 128)
deriving DecidableEq

/-- An IPv4-mapped address is the IPv4 address. -/
def IpAddr.toCanonical : IpAddr → IpAddr
  | .v4 a => .v4 a
  | .v6 a => if a.toNat / 2 ^ 32 = 0xffff then .v4 (a.setWidth 32) else .v6 a

def digitValue (c : Char) : Nat :=
  if c.isDigit then c.toNat - 0x30 else if c.isLower then c.toNat - 0x57 else c.toNat - 0x37

def isDigitOf (radix : Nat) (c : Char) : Bool :=
  c.isDigit || radix = 16 && ('a' ≤ c && c ≤ 'f' || 'A' ≤ c && c ≤ 'F')

def readChar (d : Char) : Text → Option Text
  | [] => none
  | c :: t => if c = d then some t else none

def readNumber (radix maxDigits : Nat) (zeroPrefix : Bool) (most : Nat) (t : Text) : Option (Nat × Text) :=
  let digits := t.takeWhile (isDigitOf radix)
  let value := digits.foldl (fun n c => radix * n + digitValue c) 0
  if digits = [] || maxDigits < digits.length || !zeroPrefix && digits.head? = some '0' && 1 < digits.length ||
    most < value then none
  else some (value, t.drop digits.length)

def readOctet (t : Text) : Option (Nat × Text) := readNumber 10 3 false 255 t

def readIpv4 (t : Text) : Option (Nat × Text) := do
  let (a, t) ← readOctet t
  let (b, t) ← readOctet (← readChar '.' t)
  let (c, t) ← readOctet (← readChar '.' t)
  let (d, t) ← readOctet (← readChar '.' t)
  return (a * 2 ^ 24 + b * 2 ^ 16 + c * 2 ^ 8 + d, t)

def readSeparator {α : Type} (index : Nat) (inner : Text → Option α) (t : Text) : Option α :=
  if 0 < index then (readChar ':' t).bind inner else inner t

/-- The groups that fit into `slots`, whether the last two are an embedded IPv4 address, and what is left. -/
def readGroups : Nat → Nat → Text → List Nat × Bool × Text
  | 0, _, t => ([], false, t)
  | slots + 1, index, t =>
    match if 0 < slots then readSeparator index readIpv4 t else none with
    | some (v4, rest) => ([v4 / 2 ^ 16, v4 % 2 ^ 16], true, rest)
    | none =>
      match readSeparator index (readNumber 16 4 true 0xffff) t with
      | some (group, rest) =>
        let groups := readGroups slots (index + 1) rest
        (group :: groups.1, groups.2)
      | none => ([], false, t)

def groupsValue (groups : List Nat) : Nat := groups.foldl (fun n g => 2 ^ 16 * n + g) 0

def readIpv6 (t : Text) : Option (Nat × Text) :=
  let front := readGroups 8 0 t
  if front.1.length = 8 then some (groupsValue front.1, front.2.2)
  else if front.2.1 then none
  else
    match front.2.2 with
    | ':' :: ':' :: rest =>
      let back := readGroups (7 - front.1.length) 0 rest
      let zeros := List.replicate (8 - front.1.length - back.1.length) 0
      some (groupsValue (front.1 ++ zeros ++ back.1), back.2.2)
    | _ => none

def parseIpAddr (t : Text) : Option IpAddr :=
  match readIpv4 t with
  | some (a, rest) => if rest = [] then some (.v4 a) else none
  | none =>
    match readIpv6 t with
    | some (a, rest) => if rest = [] then some (.v6 a) else none
    | none => none

/-- `char::is_whitespace`. -/
def isWhitespace (c : Char) : Bool :=
  0x09 ≤ c.toNat && c.toNat ≤ 0x0D || 0x2000 ≤ c.toNat && c.toNat ≤ 0x200A ||
    c.toNat ∈ [0x20, 0x85, 0xA0, 0x1680, 0x2028, 0x2029, 0x202F, 0x205F, 0x3000]

def trimMatches (p : Char → Bool) (t : Text) : Text := (t.dropWhile p).rdropWhile p

def trim (t : Text) : Text := trimMatches isWhitespace t

def parseIpRaw (s : Text) : Option IpAddr :=
  match trim s with
  | '[' :: rest => (splitOnce ']' rest).bind fun halves => parseIpAddr halves.1
  | s =>
    -- a bare IPv6 address has more than one colon
    match if s.count ':' = 1 then rsplitOnce ':' s else none with
    | some (ip, _) => parseIpAddr ip
    | none => parseIpAddr s

def parseIpWithOptionalPort (s : Text) : Option IpAddr := (parseIpRaw s).map IpAddr.toCanonical

/-- The `for` among the pairs of a `Forwarded` element; a pair without `=` ends the search. -/
def forAmong : List Text → Option IpAddr
  | [] => none
  | kv :: rest =>
    match splitOnce '=' (trim kv) with
    | none => none
    | some (k, v) =>
      if k.map Char.toLower = ['f', 'o', 'r'] then parseIpWithOptionalPort (trimMatches (· = '"') (trim v))
      else forAmong rest

def rfc7239For (element : Text) : Option IpAddr := forAmong ((trim element).splitOn ';')

inductive CidrRange
  | v4 (addr mask : BitVec 32)
  | v6 (addr mask : BitVec 128)

/-- An IPv4-mapped address matches IPv4 ranges and any IPv6 range that covers it. -/
def CidrRange.contains : CidrRange → IpAddr → Bool
  | .v4 addr mask, ip =>
    match ip.toCanonical with
    | .v4 a => a &&& mask = addr &&& mask
    | .v6 _ => false
  | .v6 addr mask, ip =>
    match ip with
    | .v4 _ => false
    | .v6 a => a &&& mask = addr &&& mask

end Rustango.RealIp
