import Mathlib.Data.List.Nodup
import Mathlib.Logic.Function.Basic
import Rustango.Lib.Runs

/-!
# The idempotency layer

The requests of one key digest, each a program whose steps are its accesses to the shared cache,
and the steps of the whole: any request may move, be dropped, or have its markers cleaned up.
The cache never fails and no entry expires, so renewing a marker changes nothing here.
-/

namespace Rustango.Idempotency

open Function Rustango.Runs

/-- The two cache keys of a digest. -/
inductive Key where
  | current
  /-- The 0.63 key of a tenant entry. -/
  | legacy
deriving DecidableEq, Repr

structure EntryKeys where
  key : Key
  legacy : Option Key
deriving DecidableEq, Repr

structure Request where
  requestSha256 : String
  /-- A 0.63 process, which uses the old key only. -/
  legacyOnly : Bool
deriving DecidableEq, Repr

def Request.keys (q : Request) : EntryKeys :=
  if q.legacyOnly then ⟨.legacy, none⟩ else ⟨.current, some .legacy⟩

/-- Where an answer is looked for and stored, this release's key first. -/
def Request.entries (q : Request) : List Key := q.keys.key :: q.keys.legacy.toList

/-- The markers to hold, the 0.63 marker first. -/
def Request.markers (q : Request) : List Key := q.keys.legacy.toList ++ [q.keys.key]

structure StoredResponse (A : Type) where
  requestSha256 : String
  response : A
deriving DecidableEq, Repr

/-- `<body sha>:<nonce>`; the nonce is the request's own. -/
structure Token (R : Type) where
  sha : String
  nonce : R
deriving DecidableEq, Repr

structure Cache (R A : Type) where
  stored : Key → Option (StoredResponse A)
  marker : Key → Option (Token R)

inductive Answer (A : Type) where
  /-- What the request's own run of the handler answered. -/
  | ran (response : A)
  /-- The `500` of a response body that could not be read. -/
  | broken
  | replayed (stored : StoredResponse A)
  /-- `422`. -/
  | keyReused
  /-- `409`. -/
  | inProgress
deriving DecidableEq, Repr

variable {R A : Type}

def replay (stored : StoredResponse A) (requestSha256 : String) : Answer A :=
  if stored.requestSha256 ≠ requestSha256 then .keyReused else .replayed stored

/-- The answer next to the holder of the marker, if it still has one. -/
def busy (holder : Option (Token R)) (requestSha256 : String) : Answer A :=
  match holder with
  | none => .inProgress
  | some t => if t.sha ≠ requestSha256 then .keyReused else .inProgress

/-- What a handler's run comes to. -/
inductive Handled (A : Type) where
  /-- `storable` when the status is cacheable, no cookie is set and the body is within the cap. -/
  | response (response : A) (storable : Bool)
  | broken
deriving DecidableEq, Repr

/-- Why the stored answer is read. -/
inductive Reading where
  | arrival
  /-- The marker was taken. -/
  | lost (marker : Key)
  /-- Every marker is held. -/
  | owning
deriving DecidableEq, Repr

/-- What follows the release of the markers. -/
inductive After (A : Type) where
  | lost (marker : Key)
  | answer (a : Answer A)
deriving DecidableEq, Repr

/-- How far `handle` has come for a request. -/
inductive Progress (A : Type) where
  | absent
  /-- In `read_stored`, with the keys not read yet. -/
  | reading (why : Reading) (left held : List Key)
  | adding (left held : List Key)
  | asking (marker : Key)
  | running (held : List Key)
  /-- Between the writes of the answer, with the keys not written yet. -/
  | storing (response : A) (left held : List Key)
  /-- In `release_all`; `owner` once the first marker was found to be this request's. -/
  | releasing (held : List Key) (owner : Bool) (after : After A)
  | ended (a : Answer A)
  /-- Gone, with the markers its clean-up tasks have to check and those found to be its own. -/
  | dropped (checking deleting : List Key)
deriving DecidableEq, Repr

/-- The markers a request has put down and not removed. -/
def Progress.held : Progress A → List Key
  | .reading _ _ held | .adding _ held | .running held | .storing _ _ held
  | .releasing held _ _ => held
  | .dropped checking deleting => checking ++ deleting
  | .absent | .asking _ | .ended _ => []

/-- The handler is running. -/
def Progress.isRunning : Progress A → Bool
  | .running _ => true
  | _ => false

/-- Nothing is left to do for the request, its clean-up tasks included. -/
def Progress.isEnded : Progress A → Bool
  | .absent | .ended _ | .dropped [] [] => true
  | _ => false

variable [DecidableEq R]

/-- The next step of a request that is not waiting for its handler. -/
def proceed (q : Request) (token : Token R) (c : Cache R A) :
    Progress A → Option (Cache R A × Progress A)
  | .absent => some (c, .reading .arrival q.entries [])
  | .reading why (k :: left) held =>
    match c.stored k with
    | some st => some (c, .releasing held false (.answer (replay st q.requestSha256)))
    | none => some (c, .reading why left held)
  | .reading .arrival [] held => some (c, .adding q.markers held)
  | .reading (.lost m) [] _ => some (c, .asking m)
  | .reading .owning [] held => some (c, .running held)
  | .adding (m :: left) held =>
    match c.marker m with
    | none => some ({ c with marker := update c.marker m (some token) }, .adding left (held ++ [m]))
    | some _ => some (c, .releasing held false (.lost m))
  | .adding [] held => some (c, .reading .owning q.entries held)
  | .asking m => some (c, .ended (busy (c.marker m) q.requestSha256))
  | .running _ => none
  | .storing a (k :: left) held =>
    some ({ c with stored := update c.stored k (some ⟨q.requestSha256, a⟩) }, .storing a left held)
  | .storing a [] held => some (c, .releasing held false (.answer (.ran a)))
  | .releasing (m :: held) false after =>
    if c.marker m = some token then some (c, .releasing (m :: held) true after)
    else some (c, .releasing held false after)
  | .releasing (m :: held) true after =>
    some ({ c with marker := update c.marker m none }, .releasing held false after)
  | .releasing [] _ (.lost m) => some (c, .reading (.lost m) q.entries [])
  | .releasing [] _ (.answer a) => some (c, .ended a)
  | .ended _ | .dropped _ _ => none

/-- The handler returns. -/
def respond (q : Request) (handled : Handled A) : Progress A → Option (Progress A)
  | .running held =>
    match handled with
    | .response a true => some (.storing a q.entries held)
    | .response a false => some (.releasing held false (.answer (.ran a)))
    | .broken => some (.releasing held false (.answer .broken))
  | _ => none

/-- The request is dropped or panics: each marker it holds is left to a clean-up task. -/
def dropped : Progress A → Option (Progress A)
  | .absent | .ended _ | .dropped _ _ => none
  | p => some (.dropped p.held [])

/-- The next step of the clean-up task for the marker `m`. -/
def cleanUp (token : Token R) (m : Key) (c : Cache R A) :
    Progress A → Option (Cache R A × Progress A)
  | .dropped checking deleting =>
    if m ∈ checking then
      if c.marker m = some token then some (c, .dropped (checking.erase m) (m :: deleting))
      else some (c, .dropped (checking.erase m) deleting)
    else if m ∈ deleting then
      some ({ c with marker := update c.marker m none }, .dropped checking (deleting.erase m))
    else none
  | _ => none

/-- The cache and every request of the digest. -/
structure World (R A : Type) where
  cache : Cache R A
  progress : R → Progress A

inductive Event (R A : Type) where
  | proceed (r : R)
  | respond (r : R) (handled : Handled A)
  | drop (r : R)
  | cleanUp (r : R) (m : Key)

def World.initial : World R A := ⟨⟨fun _ => none, fun _ => none⟩, fun _ => .absent⟩

def World.set (w : World R A) (r : R) (next : Cache R A × Progress A) : World R A :=
  ⟨next.1, update w.progress r next.2⟩

variable (req : R → Request)

def token (r : R) : Token R := ⟨(req r).requestSha256, r⟩

/-- One step of one request. -/
def step : Event R A → World R A → Option (World R A)
  | .proceed r, w => (proceed (req r) (token req r) w.cache (w.progress r)).map (w.set r)
  | .respond r handled, w =>
    (respond (req r) handled (w.progress r)).map fun p => w.set r (w.cache, p)
  | .drop r, w => (dropped (w.progress r)).map fun p => w.set r (w.cache, p)
  | .cleanUp r m, w => (cleanUp (token req r) m w.cache (w.progress r)).map (w.set r)

end Rustango.Idempotency
