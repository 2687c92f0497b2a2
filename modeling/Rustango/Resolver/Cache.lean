import Mathlib.Data.List.MinMax
import Rustango.Lib.Threads

/-!
# Tenant resolution

A lookup asks a cache, else the registry, and caches the answer, a miss included. Invalidations and
polls of a table's fingerprint clear the caches. The calls are programs of single operations: one
section under a lock, or one query.
-/

namespace Rustango.Resolver

open Rustango.Threads

structure Org where
  id : Int
  slug : String
  hostPattern : Option String
  pathPrefix : Option String
  port : Option Int
  active : Bool
deriving DecidableEq, Repr

structure OrgHost where
  hostname : String
  orgId : Int
  enabled : Bool
deriving DecidableEq, Repr

inductive OrgFilter where
  | hostPattern (host : String)
  | pathPrefix (candidate : String)
  | slug (slug : String)
  | port (port : Int)
  | id (id : Int)
deriving DecidableEq, Repr

def OrgFilter.holds : OrgFilter → Org → Bool
  | .hostPattern h, o => o.hostPattern == some h
  | .pathPrefix p, o => o.pathPrefix == some p
  | .slug s, o => o.slug == s
  | .port n, o => o.port == some n
  | .id i, o => o.id == i

/-- The first active row by id. -/
def firstActive (orgs : List Org) (f : OrgFilter) : Option Org :=
  @List.argmin _ _ Int.instLinearOrder.toPreorder Int.instLinearOrder.toDecidableLT (·.id)
    (orgs.filter fun o => f.holds o && o.active)

/-- The tenant of the first enabled row of a hostname. -/
def firstHost (hosts : List OrgHost) (host : String) : Option Int :=
  (hosts.find? fun h => h.hostname == host && h.enabled).map (·.orgId)

inductive CacheId where
  | org
  | host
  | prefix_
  | slug
  | port
  | id
deriving DecidableEq, Repr

/-- The two maps of a cache. -/
inductive Side where
  | hits
  | misses
deriving DecidableEq, Repr

def Side.Value : Side → Type
  | .hits => Org
  | .misses => Unit

/-- The tables whose fingerprints are polled. -/
inductive Table where
  | orgs
  | hosts
deriving DecidableEq, Repr

/-- The caches that a changed fingerprint of a table clears. -/
def Table.caches : Table → List CacheId
  | .orgs => [.org, .host, .prefix_, .slug, .port, .id]
  | .hosts => [.host]

inductive BreakerId where
  | registryDown
  | hostTableDown
deriving DecidableEq, Repr

/-- The durations, in milliseconds. -/
def cacheTtl : Nat := 30000
def cacheMax : Nat := 1024
def genCheckEveryDefault : Nat := 5000
def registryRetryAfter : Nat := 1000

inductive Claim where
  | notDue
  | taken (previous : Option Nat)
deriving DecidableEq, Repr

/-- One section under a lock, or one query; a query answers `none` when it fails. `settle` does
nothing: an invalidation or a poll that recorded a fingerprint ends there. -/
inductive Op where
  | lookup (c : CacheId) (side : Side) (key : String)
  | remove (c : CacheId) (side : Side) (key : String)
  | insert (c : CacheId) (side : Side) (cap : Nat) (key : String) (value : side.Value)
  | clear (c : CacheId) (side : Side)
  | flight (c : CacheId) (key : String)
  | lock (flight : Nat)
  | unlist (c : CacheId) (key : String) (flight : Nat)
  | unlock (flight : Nat)
  | claim (t : Table) (interval : Nat)
  | generation (t : Table)
  | record (t : Table) (previous : Option Nat) (current : Nat)
  | settle (t : Table)
  | isOpen (b : BreakerId) (window : Nat)
  | openBreaker (b : BreakerId)
  | closeBreaker (b : BreakerId)
  | findOrg (f : OrgFilter)
  | findHost (host : String)

@[reducible] def Op.Answer : Op → Type
  | .lookup _ side _ => Option side.Value
  | .flight _ _ => Nat
  | .claim _ _ => Claim
  | .generation _ => Option Nat
  | .record _ _ _ | .isOpen _ _ => Bool
  | .findOrg _ => Option (Option Org)
  | .findHost _ => Option (Option Int)
  | .remove _ _ _ | .insert _ _ _ _ _ | .clear _ _ | .lock _ | .unlist _ _ _ | .unlock _
  | .settle _ | .openBreaker _ | .closeBreaker _ => Unit

/-- A call waits there, and may be dropped. -/
def Op.awaits : Op → Bool
  | .lock _ | .generation _ | .findOrg _ | .findHost _ => true
  | _ => false

abbrev ResolverProg := Prog Op Op.Answer

/-- An error, no tenant, or a tenant. -/
abbrev Resolved := Option (Option Org)

def call (o : Op) : ResolverProg o.Answer := Prog.call o

inductive Cached where
  | absent
  | miss
  | hit (org : Org)
deriving DecidableEq, Repr

def get (c : CacheId) (key : String) : ResolverProg Cached := do
  match ← call (.lookup c .hits key) with
  | some org => pure (.hit org)
  | none => do
    match ← call (.lookup c .misses key) with
    | some () => pure .miss
    | none => pure .absent

def put (c : CacheId) (key : String) : Option Org → ResolverProg Unit
  | some org => do
    call (.remove c .misses key)
    call (.insert c .hits cacheMax key org)
  | none => do
    call (.remove c .hits key)
    call (.insert c .misses (max (cacheMax / 4) 1) key ())

/-- Drops a flight: unlisted if it is still the one listed, then unlocked. -/
def land (c : CacheId) (key : String) (flight : Nat) : ResolverProg Unit := do
  call (.unlist c key flight)
  call (.unlock flight)

/-- Runs `query` while no other holder of the key's flight does. -/
def singleFlight (c : CacheId) (key : String) (query : ResolverProg Resolved) :
    ResolverProg Resolved := do
  let flight ← call (.flight c key)
  call (.lock flight)
  let out ← query
  land c key flight
  pure out

def clearCache (c : CacheId) : ResolverProg Unit := do
  call (.clear c .hits)
  call (.clear c .misses)

def clearCaches : List CacheId → ResolverProg Unit
  | [] => pure ()
  | c :: cs => do
    clearCache c
    clearCaches cs

/-- A throttled poll: `read` may fail, or decline with `some none`. -/
def sync (t : Table) (interval : Option Nat) (read : ResolverProg (Option (Option Nat)))
    (onError : ResolverProg Unit) : ResolverProg Unit :=
  match interval with
  | none => pure ()
  | some interval => do
    match ← call (.claim t interval) with
    | .notDue => pure ()
    | .taken previous => do
      match ← read with
      | none => onError
      | some none => pure ()
      | some (some current) => do
        if ← call (.record t previous current) then clearCaches t.caches else pure ()
        call (.settle t)

def syncOrgGeneration (checkEvery : Option Nat) : ResolverProg Unit :=
  sync .orgs checkEvery
    (do
      if ← call (.isOpen .registryDown registryRetryAfter) then pure (some none)
      else do
        let current ← call (.generation .orgs)
        pure (current.map some))
    (call (.openBreaker .registryDown))

def syncGeneration (checkEvery : Option Nat) : ResolverProg Unit :=
  sync .hosts checkEvery
    (do
      let current ← call (.generation .hosts)
      pure (current.map some))
    (pure ())

def findActiveOrgBy (f : OrgFilter) : ResolverProg Resolved := do
  if ← call (.isOpen .registryDown registryRetryAfter) then pure none
  else do
    match ← call (.findOrg f) with
    | some found => do
      call (.closeBreaker .registryDown)
      pure (some found)
    | none => do
      call (.openBreaker .registryDown)
      pure none

/-- Answers from the cache, else runs `query`. -/
def orQuery (c : CacheId) (key : String) (query : ResolverProg Resolved) : ResolverProg Resolved := do
  match ← get c key with
  | .miss => pure (some none)
  | .hit org => pure (some (some org))
  | .absent => query

/-- Runs a query and caches what it finds. -/
def queryAndPut (c : CacheId) (key : String) (f : OrgFilter) : ResolverProg Resolved := do
  match ← findActiveOrgBy f with
  | none => pure none
  | some found => do
    put c key found
    pure (some found)

def cachedOrgBy (checkEvery : Option Nat) (c : CacheId) (key : String) (f : OrgFilter) :
    ResolverProg Resolved := do
  syncOrgGeneration checkEvery
  orQuery c key (singleFlight c key (orQuery c key (queryAndPut c key f)))

/-- The query of `RegisteredHostResolver`: a failing host table is no match, and not cached. -/
def queryHost (checkEvery : Option Nat) (host : String) : ResolverProg Resolved := do
  if ← call (.isOpen .hostTableDown (checkEvery.getD genCheckEveryDefault)) then pure (some none)
  else do
    match ← call (.findHost host) with
    | none => do
      call (.openBreaker .hostTableDown)
      pure (some none)
    | some row => do
      call (.closeBreaker .hostTableDown)
      match row with
      | none => do
        put .host host none
        pure (some none)
      | some orgId => queryAndPut .host host (.id orgId)

def registeredHost (checkEvery : Option Nat) (host : String) : ResolverProg Resolved := do
  syncGeneration checkEvery
  orQuery .host host (singleFlight .host host (orQuery .host host (queryHost checkEvery host)))

/-- What a request is resolved by. -/
inductive Lookup where
  | host (host : String)
  | extraHost (host : String)
  | pathPrefix (candidate : String)
  | slug (slug : String)
  | port (port : Nat)
  | id (id : Int)
deriving DecidableEq, Repr

def Lookup.cache : Lookup → CacheId
  | .host _ => .org
  | .extraHost _ => .host
  | .pathPrefix _ => .prefix_
  | .slug _ => .slug
  | .port _ => .port
  | .id _ => .id

def Lookup.resolve (checkEvery : Option Nat) : Lookup → ResolverProg Resolved
  | .host h => cachedOrgBy checkEvery .org h (.hostPattern h)
  | .extraHost h => registeredHost checkEvery h
  | .pathPrefix p => cachedOrgBy checkEvery .prefix_ p (.pathPrefix p)
  | .slug s => cachedOrgBy checkEvery .slug s (.slug s)
  | .port n => cachedOrgBy checkEvery .port (toString n) (.port n)
  | .id i => cachedOrgBy checkEvery .id (toString i) (.id i)

/-- A lookup, `invalidate_org_cache` or `invalidate_host_cache`. -/
inductive Call where
  | lookup (l : Lookup)
  | invalidate (t : Table)
deriving DecidableEq, Repr

def Call.prog (checkEvery : Option Nat) : Call → ResolverProg Resolved
  | .lookup l => l.resolve checkEvery
  | .invalidate t => do
    clearCaches t.caches
    call (.settle t)
    pure (some none)

end Rustango.Resolver
