import Rustango.Lib.PrefixCode

/-!
# The key digest

Who sent a request, where and with which client key, as the fields that `key_digest` feeds to SHA-256.
The hash is a parameter.
-/

namespace Rustango.Idempotency

open Rustango.PrefixCode

/-- A slice in memory: its length is a `usize`. A `str` is its UTF-8 bytes. -/
@[ext] structure Bytes where
  toList : List UInt8
  length_lt : toList.length < 2 ^ 64
deriving DecidableEq

structure Uri where
  authority : Option Bytes
  pathAndQuery : Option Bytes

inductive PrincipalKind where
  | user | agent
deriving DecidableEq, Repr

structure Principal where
  userId : Int64
  isSuperuser : Bool
  tenant : Option Bytes
  kind : PrincipalKind
  agentId : Option Int64

structure AuthenticatedUser where
  id : Int64
  isSuperuser : Bool

structure McpAgent where
  agentId : Int64
  userId : Option Int64
  tenant : Bytes

/-- What earlier layers left beside a request; `tenantSlug` is the resolved tenant's slug. -/
structure Extensions where
  originalUri : Option Uri
  principal : Option Principal
  authenticatedUser : Option AuthenticatedUser
  tenantSlug : Option Bytes
  mcpAgent : Option McpAgent

/-- `headers name` lists the values of one header name, in order. -/
structure Parts where
  method : Bytes
  uri : Uri
  headers : String → List Bytes
  headers_lt : ∀ name, (headers name).length < 2 ^ 64
  extensions : Extensions

/-- The cargo features of a build that the digest depends on. -/
structure Features where
  tenancy : Bool
  mcp : Bool

def credentialHeaders : List String := ["authorization", "cookie", "x-api-key"]

/-- The URI as the outermost router saw it. -/
def originalUri (parts : Parts) : Uri := parts.extensions.originalUri.getD parts.uri

def Principal.fromParts (f : Features) (parts : Parts) : Option Principal :=
  match parts.extensions.principal with
  | some p => some p
  | none =>
    match parts.extensions.authenticatedUser with
    | some u => some ⟨u.id, u.isSuperuser, parts.extensions.tenantSlug, .user, none⟩
    | none =>
      match f.mcp, parts.extensions.mcpAgent with
      | true, some agent =>
        agent.userId.map fun uid => ⟨uid, false, some agent.tenant, .agent, some agent.agentId⟩
      | _, _ => none

/-- What SHA-256 has been fed. -/
@[ext] structure KeyHasher where
  fed : List UInt8

namespace KeyHasher
variable (h : KeyHasher)

def new : KeyHasher := ⟨[]⟩

def update (bytes : List UInt8) : KeyHasher := ⟨h.fed ++ bytes⟩

def field (bytes : Bytes) : KeyHasher :=
  (h.update (leBytes 8 bytes.toList.length)).update bytes.toList

def opt : Option Bytes → KeyHasher
  | none => h.update [0]
  | some b => (h.update [1]).field b

def all (parts : Parts) (name : String) : KeyHasher :=
  let values := parts.headers name
  values.foldl field (h.update (leBytes 8 values.length))

end KeyHasher

private theorem utf8_length_lt {s : String} (h : s.utf8ByteSize < 2 ^ 64) :
    s.toByteArray.data.toList.length < 2 ^ 64 := h

/-- The bytes of a text that fits in memory. -/
def utf8 (s : String) (h : s.utf8ByteSize < 2 ^ 64) : Bytes :=
  ⟨s.toByteArray.data.toList, utf8_length_lt h⟩

/-- `i64::to_le_bytes`. -/
def i64Bytes (n : Int64) : Bytes := ⟨leBytes 8 n.toUInt64.toNat, by simp⟩

def PrincipalKind.name : PrincipalKind → Bytes
  | .user => utf8 "user" (by decide)
  | .agent => utf8 "agent" (by decide)

def anonymous : Bytes := utf8 "anonymous" (by decide)

/-- Feeds the resolved caller; `false` when the request has none. -/
def principalFields (f : Features) (h : KeyHasher) (parts : Parts) : KeyHasher × Bool :=
  if f.tenancy then
    match Principal.fromParts f parts with
    | none => (h.field anonymous, false)
    | some p =>
      ((((h.field p.kind.name).field (i64Bytes p.userId)).opt (p.agentId.map i64Bytes)).opt
        p.tenant, true)
  else (h.field anonymous, false)

/-- The authority of the URI, else the `Host` header. -/
def host (parts : Parts) : Option Bytes := parts.uri.authority.or (parts.headers "host").head?

/-- Two lowercase digits a byte. -/
def hex (bytes : List UInt8) : String :=
  String.ofList (bytes.flatMap fun b => [Nat.digitChar (b.toNat / 16), Nat.digitChar (b.toNat % 16)])

/-- The hash of who sent the request, where, and with which client key. -/
def keyDigest (sha256 : List UInt8 → List UInt8) (f : Features) (scope : Bytes) (parts : Parts)
    (tenant : Option Bytes) (key : Bytes) : String :=
  let h := KeyHasher.new.field scope
  let h := h.opt (host parts)
  let h := h.opt tenant
  let (h, resolved) := principalFields f h parts
  let h := if resolved then h else credentialHeaders.foldl (fun h name => h.all parts name) h
  let h := h.field parts.method
  let h := h.opt (originalUri parts).pathAndQuery
  let h := h.field key
  hex (sha256 h.fed)

def fieldBytes (b : Bytes) : List UInt8 := leBytes 8 b.toList.length ++ b.toList

def optBytes : Option Bytes → List UInt8 := PrefixCode.optional 0 1 fieldBytes

def valuesBytes (values : List Bytes) : List UInt8 :=
  leBytes 8 values.length ++ values.flatMap fieldBytes

private theorem prefixFree_fieldBytes : PrefixFree fieldBytes := by
  intro a b s t h
  simp only [fieldBytes, List.append_assoc] at h
  have hsize := List.append_inj h (by simp)
  have hlen : a.toList.length = b.toList.length :=
    leBytes_inj (by simpa using a.length_lt) (by simpa using b.length_lt) hsize.1
  have hbody := List.append_inj hsize.2 hlen
  exact ⟨Bytes.ext hbody.1, hbody.2⟩

private theorem prefixFree_optBytes : PrefixFree optBytes := prefixFree_fieldBytes.optional (by decide)

private theorem valuesBytes_inj {as bs : List Bytes} {s t : List UInt8} (has : as.length < 2 ^ 64)
    (hbs : bs.length < 2 ^ 64) (h : valuesBytes as ++ s = valuesBytes bs ++ t) :
    as = bs ∧ s = t := by
  simp only [valuesBytes, List.append_assoc] at h
  have hsize := List.append_inj h (by simp)
  have hlen : as.length = bs.length := leBytes_inj (by simpa using has) (by simpa using hbs) hsize.1
  exact prefixFree_fieldBytes.flatMap hlen hsize.2

private theorem i64Bytes_injective : Function.Injective i64Bytes := by
  intro m n h
  have hbytes : leBytes 8 m.toUInt64.toNat = leBytes 8 n.toUInt64.toNat := congrArg Bytes.toList h
  have hnat := leBytes_inj (by simpa using m.toUInt64.toNat_lt) (by simpa using n.toUInt64.toNat_lt) hbytes
  have hword : m.toUInt64 = n.toUInt64 := UInt64.toNat_inj.mp hnat
  exact Int64.toBitVec_inj.mp (congrArg UInt64.toBitVec hword)

private theorem hex_injective : Function.Injective hex := by
  intro a b h
  let digits (b : UInt8) : List Char := [Nat.digitChar (b.toNat / 16), Nat.digitChar (b.toNat % 16)]
  have hfree : PrefixFree digits := by
    apply PrefixFree.of_length 2
    · intro x y hxy
      have hdigit : ∀ i j : Fin 16, Nat.digitChar i = Nat.digitChar j → i = j := by decide
      simp only [digits, List.cons.injEq, and_true] at hxy
      have hx := x.toNat_lt
      have hy := y.toNat_lt
      have hhigh := hdigit ⟨x.toNat / 16, by omega⟩ ⟨y.toNat / 16, by omega⟩ hxy.1
      have hlow := hdigit ⟨x.toNat % 16, by omega⟩ ⟨y.toNat % 16, by omega⟩ hxy.2
      simp only [Fin.mk.injEq] at hhigh hlow
      apply UInt8.toNat_inj.mp
      omega
    · exact fun _ => rfl
  have hlist : a.flatMap digits = b.flatMap digits := String.ofList_injective h
  have hlen : a.length = b.length := by
    have hlens := congrArg List.length hlist
    simp [digits, List.length_flatMap] at hlens
    omega
  exact (hfree.flatMap (s := []) (t := []) hlen (by rw [hlist])).1

namespace KeyHasher
variable (h : KeyHasher)

@[simp] theorem fed_field (b : Bytes) : (h.field b).fed = h.fed ++ fieldBytes b := by
  simp [field, update, fieldBytes]

@[simp] theorem fed_opt (b : Option Bytes) : (h.opt b).fed = h.fed ++ optBytes b := by
  cases b with
  | none => rfl
  | some b => simp [opt, update, optBytes, PrefixCode.optional]

theorem fed_foldl_field (values : List Bytes) :
    (values.foldl field h).fed = h.fed ++ values.flatMap fieldBytes := by
  induction values generalizing h with
  | nil => simp
  | cons v values ih => simp [ih]

@[simp] theorem fed_all (parts : Parts) (name : String) :
    (h.all parts name).fed = h.fed ++ valuesBytes (parts.headers name) := by
  simp [all, fed_foldl_field, update, valuesBytes]

theorem fed_foldl_all (parts : Parts) (names : List String) :
    (names.foldl (fun h name => h.all parts name) h).fed =
      h.fed ++ names.flatMap fun name => valuesBytes (parts.headers name) := by
  induction names generalizing h with
  | nil => simp
  | cons name names ih => simp [ih]

end KeyHasher

/-- The caller that `principal_fields` finds. -/
def resolvedPrincipal (f : Features) (parts : Parts) : Option Principal :=
  if f.tenancy then Principal.fromParts f parts else none

def principalBytes : Option Principal → List UInt8
  | none => fieldBytes anonymous
  | some p => fieldBytes p.kind.name ++ (fieldBytes (i64Bytes p.userId) ++
      (optBytes (p.agentId.map i64Bytes) ++ optBytes p.tenant))

def credentialBytes (parts : Parts) : List UInt8 :=
  credentialHeaders.flatMap fun name => valuesBytes (parts.headers name)

def callerBytes (f : Features) (parts : Parts) : List UInt8 :=
  principalBytes (resolvedPrincipal f parts) ++
    if (resolvedPrincipal f parts).isSome then [] else credentialBytes parts

private theorem principalFields_eq (f : Features) (h : KeyHasher) (parts : Parts) :
    principalFields f h parts = (⟨h.fed ++ principalBytes (resolvedPrincipal f parts)⟩,
      (resolvedPrincipal f parts).isSome) := by
  have hfield (h : KeyHasher) (b : Bytes) : h.field b = ⟨h.fed ++ fieldBytes b⟩ :=
    KeyHasher.ext (h.fed_field b)
  have hopt (h : KeyHasher) (b : Option Bytes) : h.opt b = ⟨h.fed ++ optBytes b⟩ :=
    KeyHasher.ext (h.fed_opt b)
  unfold principalFields resolvedPrincipal
  cases f.tenancy with
  | false => simp [hfield, principalBytes]
  | true =>
    cases Principal.fromParts f parts with
    | none => simp [hfield, principalBytes]
    | some p => simp [hfield, hopt, principalBytes]

private theorem keyDigest_eq (sha256 : List UInt8 → List UInt8) (f : Features) (scope : Bytes) (parts : Parts)
    (tenant : Option Bytes) (key : Bytes) :
    keyDigest sha256 f scope parts tenant key =
      hex (sha256 (fieldBytes scope ++ (optBytes (host parts) ++ (optBytes tenant ++
        (callerBytes f parts ++ (fieldBytes parts.method ++
          (optBytes (originalUri parts).pathAndQuery ++ fieldBytes key))))))) := by
  rw [keyDigest, principalFields_eq]
  cases hp : resolvedPrincipal f parts with
  | none =>
    simp [hp, callerBytes, credentialBytes, KeyHasher.fed_foldl_all, KeyHasher.new]
  | some p => simp [hp, callerBytes, KeyHasher.new]

/-- The same resolved principal, or none and the same credentials. -/
def SameCaller (f : Features) (parts parts' : Parts) : Prop :=
  match resolvedPrincipal f parts, resolvedPrincipal f parts' with
  | some p, some p' =>
      p.kind = p'.kind ∧ p.userId = p'.userId ∧ p.agentId = p'.agentId ∧ p.tenant = p'.tenant
  | none, none => ∀ name ∈ credentialHeaders, parts.headers name = parts'.headers name
  | _, _ => False

theorem PrincipalKind.name_ne_anonymous (k : PrincipalKind) : k.name ≠ anonymous := by
  cases k <;> decide

theorem PrincipalKind.name_injective : Function.Injective PrincipalKind.name := by
  intro k k' h
  cases k <;> cases k' <;> first | rfl | exact absurd h (by decide)

private theorem credentialBytes_inj {parts parts' : Parts} {s t : List UInt8}
    (h : credentialBytes parts ++ s = credentialBytes parts' ++ t) :
    (∀ name ∈ credentialHeaders, parts.headers name = parts'.headers name) ∧ s = t := by
  unfold credentialBytes at h
  generalize credentialHeaders = names at h ⊢
  induction names with
  | nil => exact ⟨by simp, h⟩
  | cons name names ih =>
    simp only [List.flatMap_cons, List.append_assoc] at h
    have hvalues := valuesBytes_inj (parts.headers_lt name) (parts'.headers_lt name) h
    have hrest := ih hvalues.2
    refine ⟨?_, hrest.2⟩
    simpa using ⟨hvalues.1, hrest.1⟩

private theorem callerBytes_inj {f : Features} {parts parts' : Parts} {s t : List UInt8}
    (h : callerBytes f parts ++ s = callerBytes f parts' ++ t) :
    SameCaller f parts parts' ∧ s = t := by
  unfold callerBytes at h
  unfold SameCaller
  cases hp : resolvedPrincipal f parts with
  | none =>
    cases hp' : resolvedPrincipal f parts' with
    | none =>
      simp only [hp, hp', principalBytes, Option.isSome_none, Bool.false_eq_true, if_false,
        List.append_assoc] at h
      have hcredentials := List.append_cancel_left h
      exact credentialBytes_inj hcredentials
    | some p' =>
      simp only [hp, hp', principalBytes, List.append_assoc] at h
      have hkind := prefixFree_fieldBytes _ _ _ _ h
      exact absurd hkind.1.symm p'.kind.name_ne_anonymous
  | some p =>
    cases hp' : resolvedPrincipal f parts' with
    | none =>
      simp only [hp, hp', principalBytes, List.append_assoc] at h
      have hkind := prefixFree_fieldBytes _ _ _ _ h
      exact absurd hkind.1 p.kind.name_ne_anonymous
    | some p' =>
      simp only [hp, hp', principalBytes, Option.isSome_some, if_true, List.nil_append,
        List.append_assoc] at h
      have hkind := prefixFree_fieldBytes _ _ _ _ h
      have huser := prefixFree_fieldBytes _ _ _ _ hkind.2
      have hagent := prefixFree_optBytes _ _ _ _ huser.2
      have htenant := prefixFree_optBytes _ _ _ _ hagent.2
      have hid := Option.map_injective i64Bytes_injective hagent.1
      exact ⟨⟨PrincipalKind.name_injective hkind.1, i64Bytes_injective huser.1, hid, htenant.1⟩,
        htenant.2⟩

/-- Requests with one digest come from one caller, for one place and under one client key. -/
theorem keyDigest_separates {sha256 : List UInt8 → List UInt8} (hsha : Function.Injective sha256)
    {f : Features} {scope scope' : Bytes} {parts parts' : Parts} {tenant tenant' : Option Bytes}
    {key key' : Bytes}
    (h : keyDigest sha256 f scope parts tenant key = keyDigest sha256 f scope' parts' tenant' key') :
    scope = scope' ∧ parts.uri.authority.or (parts.headers "host").head? =
        parts'.uri.authority.or (parts'.headers "host").head? ∧
      tenant = tenant' ∧ parts.method = parts'.method ∧
      (parts.extensions.originalUri.getD parts.uri).pathAndQuery =
        (parts'.extensions.originalUri.getD parts'.uri).pathAndQuery ∧
      key = key' ∧ SameCaller f parts parts' := by
  rw [keyDigest_eq, keyDigest_eq] at h
  have hstream := hsha (hex_injective h)
  have hscope := prefixFree_fieldBytes _ _ _ _ hstream
  have hhost := prefixFree_optBytes _ _ _ _ hscope.2
  have htenant := prefixFree_optBytes _ _ _ _ hhost.2
  have hcaller := callerBytes_inj htenant.2
  have hmethod := prefixFree_fieldBytes _ _ _ _ hcaller.2
  have hpath := prefixFree_optBytes _ _ _ _ hmethod.2
  have hkey := prefixFree_fieldBytes.injective hpath.2
  exact ⟨hscope.1, hhost.1, htenant.1, hmethod.1, hpath.1, hkey, hcaller.1⟩

/-- A payment by user 7, sent with one bearer token. -/
private def paymentWith (bearer : Bytes) : Parts where
  method := utf8 "POST" (by decide)
  uri := ⟨none, some (utf8 "/api/payments" (by decide))⟩
  headers name := if name = "authorization" then [bearer] else []
  headers_lt name := by
    by_cases h : name = "authorization" <;> simp [h]
  extensions := ⟨none, none, some ⟨7, false⟩, some (utf8 "acme" (by decide)), none⟩

/-- Both tokens are the same caller's. -/
theorem keyDigest_separates_refreshed :
    (paymentWith (utf8 "Bearer a" (by decide))).headers "authorization" ≠
      (paymentWith (utf8 "Bearer b" (by decide))).headers "authorization" ∧
    SameCaller ⟨true, false⟩ (paymentWith (utf8 "Bearer a" (by decide)))
      (paymentWith (utf8 "Bearer b" (by decide))) := by
  constructor
  · decide
  · have h : keyDigest id ⟨true, false⟩ (utf8 "" (by decide))
        (paymentWith (utf8 "Bearer a" (by decide))) none (utf8 "k1" (by decide)) =
      keyDigest id ⟨true, false⟩ (utf8 "" (by decide))
        (paymentWith (utf8 "Bearer b" (by decide))) none (utf8 "k1" (by decide)) := rfl
    exact (keyDigest_separates Function.injective_id h).2.2.2.2.2.2

end Rustango.Idempotency
