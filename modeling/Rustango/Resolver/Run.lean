import Mathlib.Logic.Function.Basic
import Rustango.Lib.Runs
import Rustango.Resolver.Cache

/-!
# Lookups, writes, invalidations and polls

Any number of calls take their operations one at a time, while the tables are written and time goes
on. Writes are numbered. An entry and a call know how many had been made when their row was read.
-/

namespace Rustango.Resolver

open Function Rustango.Threads

/-- A cached value, when it was stored, when it was last read, and how many writes had been made
when its row was read. -/
structure Entry (side : Side) where
  value : side.Value
  at_ : Nat
  used : Nat
  read : Nat

/-- One map of a cache. -/
abbrev Entries (side : Side) := List (String × Entry side)

namespace Entries
variable {side : Side}

def find (m : Entries side) (key : String) : Option (Entry side) := (m.find? (·.1 == key)).map (·.2)

/-- The entry of a key, unless it expired: one exactly at its TTL is. -/
def live (m : Entries side) (now : Nat) (key : String) : Option (Entry side) :=
  (m.find key).filter fun e => now - e.at_ < cacheTtl

def remove (m : Entries side) (key : String) : Entries side := m.filter (·.1 != key)

def touch (m : Entries side) (key : String) (tick : Nat) : Entries side :=
  m.map fun ke => if ke.1 = key then (ke.1, { ke.2 with used := tick }) else ke

/-- Drops the least recently read entry. -/
def evict (m : Entries side) : Entries side :=
  match List.argmin (·.2.used) m with
  | some victim => m.remove victim.1
  | none => m

/-- At the cap the expired entries go, else the least recently read one. -/
def makeRoom (m : Entries side) (now cap : Nat) (key : String) : Entries side :=
  if cap ≤ m.length ∧ (m.find key).isNone then
    let kept := m.filter fun ke => now - ke.2.at_ < cacheTtl
    if cap ≤ kept.length then Entries.evict kept else kept
  else m

def insert (m : Entries side) (now cap : Nat) (key : String) (e : Entry side) : Entries side :=
  (key, e) :: (m.makeRoom now cap key).remove key

end Entries

/-- The registry and one pod's `RegistryState` for it. `writes` counts the writes, `written` is the
number of the last one to a table, which its fingerprint stands for. `floor` is the newest write
that a map was cleared for or that a recorded fingerprint covers; `settled`, the newest write that
a finished invalidation or poll covers. -/
structure Pod where
  checkEvery : Option Nat
  now : Nat
  orgs : List Org
  hosts : List OrgHost
  writes : Nat
  written : Table → Nat
  maps : CacheId → (side : Side) → Entries side
  ticks : CacheId → Nat
  polls : Table → Option (Option Nat × Nat)
  breakers : BreakerId → Option Nat
  flights : CacheId → String → Option Nat
  nextFlight : Nat
  held : List Nat
  floor : CacheId → Side → Nat
  settled : CacheId → Nat

/-- A call in progress. `since` is what was settled when it started, `basis` the write its clears
are for, `read` how many writes had been made when what it knows was read, `clearing` the table
whose caches its poll is clearing, `flying` the flight it holds. -/
structure Thread where
  call : Call
  prog : ResolverProg Resolved
  since : CacheId → Nat
  basis : Nat
  read : Option Nat
  clearing : Option Table
  flying : Option (CacheId × String × Nat)

/-- A map of a cache, replaced. -/
def Pod.setMap (p : Pod) (c : CacheId) (side : Side) (m : Entries side) : Pod :=
  { p with maps := update p.maps c (update (p.maps c) side m) }

def Pod.bumpTick (p : Pod) (c : CacheId) : Pod :=
  { p with ticks := update p.ticks c (p.ticks c + 1) }

/-- The floors of some caches, raised to a write. -/
def raiseFloor (floor : CacheId → Side → Nat) (cs : List CacheId) (write : Nat) :
    CacheId → Side → Nat :=
  fun c side => if c ∈ cs then max (floor c side) write else floor c side

def raiseSettled (settled : CacheId → Nat) (cs : List CacheId) (write : Nat) : CacheId → Nat :=
  fun c => if c ∈ cs then max (settled c) write else settled c

/-- A check is due if none was tried, or the last try is an interval ago. -/
def Pod.due (p : Pod) (t : Table) (interval : Nat) : Bool :=
  (p.polls t).all fun seen => interval ≤ p.now - seen.2

/-- The fingerprint seen last. -/
def Pod.seen (p : Pod) (t : Table) : Option Nat := (p.polls t).bind (·.1)

/-- The fingerprint moved from `previous`. -/
def moved (previous : Option Nat) (current : Nat) : Bool := previous.any (· != current)

/-- How many writes had been made when the call's row was read. -/
def Thread.readAt (th : Thread) (p : Pod) : Nat := th.read.getD p.writes

def Pod.lookup (p : Pod) (c : CacheId) (side : Side) (key : String) : Option side.Value × Pod :=
  match (p.maps c side).live p.now key with
  | some e =>
    (some e.value, (p.setMap c side ((p.maps c side).touch key (p.ticks c))).bumpTick c)
  | none => (none, p)

def Pod.insert (p : Pod) (c : CacheId) (side : Side) (cap : Nat) (key : String) (value : side.Value)
    (read : Nat) : Pod :=
  (p.setMap c side
    ((p.maps c side).insert p.now cap key ⟨value, p.now, p.ticks c, read⟩)).bumpTick c

def Pod.clear (p : Pod) (c : CacheId) (side : Side) (basis : Nat) : Pod :=
  { p.setMap c side [] with
    floor := update p.floor c (update (p.floor c) side (max (p.floor c side) basis)) }

/-- The listed flight of a key, or a new one. -/
def Pod.flight (p : Pod) (c : CacheId) (key : String) : Nat × Pod :=
  match p.flights c key with
  | some id => (id, p)
  | none =>
    (p.nextFlight, { p with
      flights := update p.flights c (update (p.flights c) key (some p.nextFlight))
      nextFlight := p.nextFlight + 1 })

def Pod.unlist (p : Pod) (c : CacheId) (key : String) (id : Nat) : Pod :=
  if p.flights c key = some id then
    { p with flights := update p.flights c (update (p.flights c) key none) }
  else p

def Pod.claim (p : Pod) (t : Table) (interval : Nat) : Claim × Pod :=
  if p.due t interval then
    (.taken (p.seen t), { p with polls := update p.polls t (some (p.seen t, p.now)) })
  else (.notDue, p)

def Pod.record (p : Pod) (t : Table) (previous : Option Nat) (current : Nat) : Bool × Pod :=
  (moved previous current,
    { p with
      polls := update p.polls t (some (some current, p.now))
      floor := if moved previous current then p.floor else raiseFloor p.floor t.caches current })

/-- What an operation of a call answers and makes of the pod; a query may fail. -/
def Op.run (fails : Bool) (th : Thread) (p : Pod) : (o : Op) → o.Answer × Pod
  | .lookup c side key => p.lookup c side key
  | .remove c side key => ((), p.setMap c side ((p.maps c side).remove key))
  | .insert c side cap key value => ((), p.insert c side cap key value (th.readAt p))
  | .clear c side => ((), p.clear c side th.basis)
  | .flight c key => p.flight c key
  | .lock id => ((), { p with held := id :: p.held })
  | .unlist c key id => ((), p.unlist c key id)
  | .unlock id => ((), { p with held := p.held.erase id })
  | .claim t interval => p.claim t interval
  | .generation t => (if fails then none else some (p.written t), p)
  | .record t previous current => p.record t previous current
  | .settle t => ((), { p with settled := raiseSettled p.settled t.caches th.basis })
  | .isOpen b window => ((p.breakers b).any fun at_ => p.now - at_ < window, p)
  | .openBreaker b => ((), { p with breakers := update p.breakers b (some p.now) })
  | .closeBreaker b => ((), { p with breakers := update p.breakers b none })
  | .findOrg f => (if fails then none else some (firstActive p.orgs f), p)
  | .findHost h => (if fails then none else some (firstHost p.hosts h), p)

/-- What an operation means to the call that takes it. -/
def Thread.after (p : Pod) (th : Thread) : (o : Op) → o.Answer → Thread
  | .lookup c side key, _ => { th with read := ((p.maps c side).live p.now key).map (·.read) }
  | .findOrg _, _ | .findHost _, _ => { th with read := some (th.readAt p) }
  | .generation _, some current => { th with basis := current }
  | .record t _ _, true => { th with clearing := some t }
  | .settle _, _ => { th with clearing := none }
  | .flight c key, id => { th with flying := some (c, key, id) }
  | .unlock _, _ => { th with flying := none }
  | _, _ => th

structure State where
  pod : Pod
  threads : List Thread

inductive Event where
  | tick (now : Nat)
  | writeOrgs (orgs : List Org)
  | writeHosts (hosts : List OrgHost)
  | call (c : Call)
  | step (i : Nat) (fails : Bool)
  | finish (i : Nat)
  | drop (i : Nat)

/-- A write to a table, here or in another process. -/
def Pod.write (p : Pod) (t : Table) (orgs : List Org) (hosts : List OrgHost) : Pod :=
  { p with orgs, hosts, writes := p.writes + 1, written := update p.written t (p.writes + 1) }

def Thread.start (p : Pod) (c : Call) : Thread :=
  ⟨c, c.prog p.checkEvery, p.settled, p.writes, none, none, none⟩

/-- A flight is locked by one call at a time. -/
def Pod.ready (p : Pod) : Op → Bool
  | .lock id => !p.held.contains id
  | _ => true

/-- The thread at `i` takes an operation. -/
def State.act (s : State) (i : Nat) (fails : Bool) (th : Thread) (o : Op)
    (next : o.Answer → ResolverProg Resolved) : State :=
  let ans := (o.run fails th s.pod).1
  ⟨(o.run fails th s.pod).2, s.threads.set i { th.after s.pod o ans with prog := next ans }⟩

/-- A call is dropped where it waits; the flight it holds is landed. -/
def State.dropAt (s : State) (i : Nat) (th : Thread) (o : Op) : State :=
  match o, th.flying with
  | .lock _, _ | _, none => ⟨s.pod, s.threads.eraseIdx i⟩
  | _, some (c, key, id) =>
    ⟨s.pod, s.threads.set i { th with prog := do land c key id; pure none }⟩

def step : Event → State → Option State
  | .tick now, s => if s.pod.now ≤ now then some { s with pod := { s.pod with now } } else none
  | .writeOrgs orgs, s => some { s with pod := s.pod.write .orgs orgs s.pod.hosts }
  | .writeHosts hosts, s => some { s with pod := s.pod.write .hosts s.pod.orgs hosts }
  | .call c, s => some { s with threads := s.threads ++ [Thread.start s.pod c] }
  | .step i fails, s =>
    match s.threads[i]? with
    | some ⟨call, .op o next, since, basis, read, clearing, flying⟩ =>
      if s.pod.ready o then
        some (s.act i fails ⟨call, .op o next, since, basis, read, clearing, flying⟩ o next)
      else none
    | _ => none
  | .finish i, s =>
    match s.threads[i]? with
    | some ⟨_, .ret _, _, _, _, _, _⟩ => some { s with threads := s.threads.eraseIdx i }
    | _ => none
  | .drop i, s =>
    match s.threads[i]? with
    | some ⟨call, .op o next, since, basis, read, clearing, flying⟩ =>
      if o.awaits then
        some (s.dropAt i ⟨call, .op o next, since, basis, read, clearing, flying⟩ o)
      else none
    | _ => none

/-- A pod that has looked nothing up yet. -/
def fresh (checkEvery : Option Nat) (orgs : List Org) (hosts : List OrgHost) : State where
  pod := {
    checkEvery, now := 0, orgs, hosts
    writes := 0, written := fun _ => 0
    maps := fun _ _ => [], ticks := fun _ => 0
    polls := fun _ => none, breakers := fun _ => none
    flights := fun _ _ => none, nextFlight := 0, held := []
    floor := fun _ _ => 0, settled := fun _ => 0 }
  threads := []

/-- No stale tenant in a state. -/
structure NoStale (s : State) : Prop where
  /-- A lookup returns no row read before a write that an invalidation or a poll of its cache,
  finished before the lookup started, covers. -/
  returned : ∀ th ∈ s.threads, ∀ l org, th.call = .lookup l → th.prog = .ret (some (some org)) →
    ∃ read, th.read = some read ∧ th.since l.cache ≤ read
  /-- An invalidation, or a poll that recorded a fingerprint, leaves no entry of its caches that was
  read before a write it covers. -/
  cleared : ∀ c side, ∀ ke ∈ s.pod.maps c side, s.pod.settled c ≤ ke.2.read

/-- An operation the promise rests on: no answer is stored that was read before a write its map was
cleared for or a recorded fingerprint covers; a poll with no fingerprint to compare finds no entry
older than the one it read; and none is claimed while another has still to clear what it found
changed. -/
def Sound (s : State) (th : Thread) : Op → Prop
  | .insert c side _ _ _ => s.pod.floor c side ≤ th.readAt s.pod
  | .record t none current =>
    ∀ c ∈ t.caches, ∀ side ∈ [Side.hits, .misses], ∀ ke ∈ s.pod.maps c side, current ≤ ke.2.read
  | .claim t interval => s.pod.due t interval = true → ∀ u ∈ s.threads, u.clearing ≠ some t
  | _ => True

instance (s : State) (th : Thread) (o : Op) : Decidable (Sound s th o) :=
  match o with
  | .insert c side _ _ _ => inferInstanceAs (Decidable (s.pod.floor c side ≤ th.readAt s.pod))
  | .record t none current =>
    inferInstanceAs (Decidable (∀ c ∈ t.caches, ∀ side ∈ [Side.hits, .misses],
      ∀ ke ∈ s.pod.maps c side, current ≤ ke.2.read))
  | .claim t interval =>
    inferInstanceAs (Decidable (s.pod.due t interval = true → ∀ u ∈ s.threads, u.clearing ≠ some t))
  | .record _ (some _) _ | .lookup _ _ _ | .remove _ _ _ | .clear _ _ | .flight _ _ | .lock _
  | .unlist _ _ _ | .unlock _ | .generation _ | .settle _ | .isOpen _ _ | .openBreaker _
  | .closeBreaker _ | .findOrg _ | .findHost _ => isTrue trivial

/-- Every operation that is taken is sound. -/
def Allowed : Event → State → Prop
  | .step i _, s => ∀ th ∈ s.threads[i]?, ∀ o ∈ th.prog.op?, Sound s th o
  | _, _ => True

instance (e : Event) (s : State) : Decidable (Allowed e s) :=
  match e with
  | .step i _ => inferInstanceAs (Decidable (∀ th ∈ s.threads[i]?, ∀ o ∈ th.prog.op?, Sound s th o))
  | .tick _ | .writeOrgs _ | .writeHosts _ | .call _ | .finish _ | .drop _ => isTrue trivial

end Rustango.Resolver
