import Rustango.Cache.Flat
import Rustango.Lib.Tally

/-!
# The in-memory cache

A map under one lock with the totals of its evictable and of its pinned entries. A write that passes a
budget evicts: expired entries first, then the least recently used.
-/

namespace Rustango.MemoryCache

open Rustango.Cache (KeyOp Reply CacheError counterValue)
open Rustango.Tally

/-- `lastUsed` is the tick of the last read or write; `size` is the length of key and value. -/
structure CacheEntry where
  value : String
  expiresAt : Option Nat
  lastUsed : Nat
  size : Nat
  pinned : Bool
deriving DecidableEq, Repr

namespace CacheEntry

def new (value : String) (expiresAt : Option Nat) (tick size : Nat) : CacheEntry :=
  ⟨value, expiresAt, tick, size, false⟩

/-- The entry, used at a tick. -/
def bump (tick : Nat) (e : CacheEntry) : CacheEntry := { e with lastUsed := tick }

def isExpired (now : Nat) (e : CacheEntry) : Bool := e.expiresAt.any (· < now)

end CacheEntry

/-- The map, the bytes and the count of the entries that are not pinned, and of those that are. -/
structure Store where
  map : List (String × CacheEntry)
  usedBytes : Nat
  evictable : Nat
  pinnedBytes : Nat
  pinned : Nat

/-- The weight of an entry in each of the four totals. -/
def looseBytes (e : CacheEntry) : Nat := if e.pinned then 0 else e.size
def looseCount (e : CacheEntry) : Nat := if e.pinned then 0 else 1
def fixedBytes (e : CacheEntry) : Nat := if e.pinned then e.size else 0
def fixedCount (e : CacheEntry) : Nat := if e.pinned then 1 else 0

namespace Store

def empty : Store := ⟨[], 0, 0, 0, 0⟩

def take (s : Store) (key : String) : Option CacheEntry × Store :=
  match find key s.map with
  | none => (none, s)
  | some e =>
    let s := { s with map := without key s.map }
    if e.pinned then
      (some e, { s with pinnedBytes := s.pinnedBytes - e.size, pinned := s.pinned - 1 })
    else (some e, { s with usedBytes := s.usedBytes - e.size, evictable := s.evictable - 1 })

def put (s : Store) (key : String) (entry : CacheEntry) : Store :=
  let s := (s.take key).2
  let s :=
    if entry.pinned then
      { s with pinnedBytes := s.pinnedBytes + entry.size, pinned := s.pinned + 1 }
    else { s with usedBytes := s.usedBytes + entry.size, evictable := s.evictable + 1 }
  { s with map := (key, entry) :: s.map }

def retain (s : Store) (keep : String × CacheEntry → Bool) : Store :=
  let gone := s.map.filter fun p => !keep p
  { map := s.map.filter keep
    usedBytes := s.usedBytes - weigh looseBytes gone
    evictable := s.evictable - weigh looseCount gone
    pinnedBytes := s.pinnedBytes - weigh fixedBytes gone
    pinned := s.pinned - weigh fixedCount gone }

/-- Whether `key` can be pinned with `size` bytes without passing a pinned cap. -/
def pinnedFits (s : Store) (key : String) (size maxBytes maxEntries : Nat) : Bool :=
  let old := match find key s.map with
    | some e => if e.pinned then (e.size, 1) else (0, 0)
    | none => (0, 0)
  (maxBytes = 0 || s.pinnedBytes - old.1 + size ≤ maxBytes) &&
    (maxEntries = 0 || s.pinned - old.2 < maxEntries)

/-- Past a budget; `0` is no budget. -/
def isOver (s : Store) (maxBytes maxEntries : Nat) : Bool :=
  (0 < maxBytes && maxBytes < s.usedBytes) || (0 < maxEntries && maxEntries < s.evictable)

end Store

/-- Eviction stops at 90% of a budget. -/
def lowWater (limit : Nat) : Nat := limit - limit / 10

/-- The budgets, the pinned caps, the default TTL, and the last `Instant` the platform has. -/
structure Config where
  maxBytes : Nat
  maxEntries : Nat
  maxPinnedBytes : Nat
  maxPinnedEntries : Nat
  defaultTtl : Option Nat
  lastInstant : Nat

/-- What `Instant::now()` answers over one call: at its expiry checks, when it resolves a TTL, and at
each entry of a sweep. -/
structure Clock where
  now : Nat
  again : Nat
  resolve : Nat
  sweep : String → Nat

/-- The store and the counter that feeds `lastUsed`. -/
structure State where
  store : Store
  tick : Nat

/-- A call on the cache. -/
inductive Call where
  | one (op : KeyOp) (key : String)
  | deletePrefix (p : String)
  | clear
deriving DecidableEq, Repr

section Code
variable (c : Config) (clock : Clock)

/-- A century, in nanoseconds. -/
def farFuture : Nat := 100 * 365 * 24 * 3600 * 10 ^ 9

/-- `None` where the platform has no such instant. -/
def resolveTtl (ttl : Option Nat) : Option Nat :=
  (ttl.or c.defaultTtl).bind fun effective =>
    let at_ := clock.resolve + min effective farFuture
    if at_ ≤ c.lastInstant then some at_ else none

/-- Evicts in turn until the totals are down to the marks. -/
def evictLru (bytes entries : Nat) : List (Nat × String) → Store → Store
  | [], s => s
  | (_, key) :: lru, s =>
    if s.isOver bytes entries then evictLru bytes entries lru (s.take key).2 else s

/-- The evictable keys but the newest, the least recently used first. -/
def leastRecent (s : Store) (newest : String) : List (Nat × String) :=
  ((s.map.filter fun p => !p.2.pinned && p.1 != newest).map fun p => (p.2.lastUsed, p.1)).mergeSort
    fun a b => a.1 ≤ b.1

/-- Once over budget, down to the low-water mark: expired entries first, then the least recently used.
The key just written stays. -/
def evictLocked (s : Store) (newest : String) : Store :=
  if !s.isOver c.maxBytes c.maxEntries then s
  else
    let bytes := lowWater c.maxBytes
    let entries := lowWater c.maxEntries
    let s := s.retain fun p => !p.2.isExpired (clock.sweep p.1)
    if !s.isOver bytes entries then s else evictLru bytes entries (leastRecent s newest) s

def sizeOf_ (key value : String) : Nat := key.utf8ByteSize + value.utf8ByteSize

def write (s : State) (key : String) (entry : CacheEntry) : State :=
  { s with store := evictLocked c clock (s.store.put key entry) key }

def insert (s : State) (key value : String) (expiresAt : Option Nat) (pinned : Bool) : State :=
  let size := sizeOf_ key value
  let entry := CacheEntry.new value expiresAt s.tick size
  let fits := s.store.pinnedFits key size c.maxPinnedBytes c.maxPinnedEntries
  write c clock { s with tick := s.tick + 1 } key { entry with pinned := pinned && fits }

/-- Every backend refuses a NUL in a text value. -/
def checkText (value : String) (s : State) (act : Reply × State) : Reply × State :=
  if '\x00' ∈ value.toList then
    (.error (.serialization "a cache value cannot contain a NUL character; use `set_bytes`"), s)
  else act

/-- The entry of a key, when it has not expired. -/
def live (now : Nat) (s : State) (key : String) : Option CacheEntry :=
  (find key s.store.map).filter fun e => !e.isExpired now

def get (s : State) (key : String) : Reply × State :=
  match live clock.now s key with
  | none => (.value none, s)
  | some e =>
    let map := Tally.modify key (CacheEntry.bump s.tick) s.store.map
    (.value (some e.value), { store := { s.store with map := map }, tick := s.tick + 1 })

/-- What an increment makes of the stored counter, `0` where there is none. -/
def counted (s : State) (key : String) (by_ : Int) : Int :=
  ((live clock.now s key).bind fun e => counterValue e.value).getD 0 + by_

def incr (s : State) (key : String) (by_ : Int) (ttl : Option Nat) : Reply × State :=
  let tick := s.tick
  let s := { s with tick := s.tick + 1 }
  let new := counted clock s key by_
  if -2 ^ 63 ≤ new ∧ new < 2 ^ 63 then
    -- a live counter keeps its expiry unless a TTL is passed
    let expiresAt := match live clock.again s key, ttl with
      | some e, none => e.expiresAt
      | _, _ => resolveTtl c clock ttl
    (.count new, write c clock s key (.new (toString new) expiresAt tick (sizeOf_ key (toString new))))
  else (.error (.connection "incr: integer out of range (i64 overflow)"), s)

def add (s : State) (key value : String) (ttl : Option Nat) : Reply × State :=
  if (live clock.now s key).isSome then (.flag false, s)
  else
    let entry := CacheEntry.new value (resolveTtl c clock ttl) s.tick (sizeOf_ key value)
    (.flag true, write c clock { s with tick := s.tick + 1 } key entry)

/-- An entry that gets an expiry is no longer pinned. -/
def touch (s : State) (key : String) (ttl : Option Nat) : Reply × State :=
  let expiresAt := resolveTtl c clock ttl
  if (live clock.now s key).isNone then (.flag false, s)
  else
    match s.store.take key with
    | (none, _) => (.flag false, s)
    | (some e, store) =>
      let e := { e with expiresAt := expiresAt, lastUsed := s.tick, pinned := e.pinned && expiresAt.isNone }
      (.flag true, write c clock { store := store, tick := s.tick + 1 } key e)

def KeyOp.run (op : KeyOp) (key : String) (s : State) : Reply × State :=
  match op with
  | .get => get clock s key
  | .exists_ => (.flag (live clock.now s key).isSome, s)
  | .set value ttl => checkText value s (.done, insert c clock s key value (resolveTtl c clock ttl) false)
  | .setForever value => checkText value s (.done, insert c clock s key value none true)
  | .add value ttl => checkText value s (add c clock s key value ttl)
  | .incr by_ ttl => incr c clock s key by_ ttl
  | .touch ttl => touch c clock s key ttl
  | .delete => (.done, { s with store := (s.store.take key).2 })

def Call.run (call : Call) (s : State) : Reply × State :=
  match call with
  | .one op key => KeyOp.run c clock op key s
  | .deletePrefix p => (.done, { s with store := s.store.retain fun e => !p.toList.isPrefixOf e.1.toList })
  | .clear => (.done, { s with store := .empty })

end Code

def State.initial : State := ⟨.empty, 0⟩

/-- One call, at the times its clock reads. -/
def step (c : Config) (act : Call × Clock) (s : State) : Option State := some (act.1.run c act.2 s).2

end Rustango.MemoryCache
