import Mathlib

/-!
# A flat cache

One map from keys to values with an expiry, and the operations every backend answers.
-/

namespace Rustango.Cache

inductive CacheError where
  | connection (message : String)
  | serialization (message : String)
  | refused (message : String)
deriving DecidableEq, Repr

/-- A value and the time it expires at. -/
structure Entry where
  value : String
  expiresAt : Option Nat
deriving DecidableEq, Repr

/-- An entry that has not expired by `now`. -/
def live (now : Nat) (slot : Option Entry) : Option Entry :=
  slot.filter fun e => e.expiresAt.all (now ≤ ·)

/-- A stored counter: only the text that `i64::to_string` writes. -/
def counterValue (stored : String) : Option Int :=
  stored.toInt?.filter fun n => toString n = stored ∧ -2 ^ 63 ≤ n ∧ n < 2 ^ 63

/-- The operations on one key; a `ttl` counts from now. -/
inductive KeyOp where
  | get
  | exists_
  | set (value : String) (ttl : Option Nat)
  | setForever (value : String)
  | add (value : String) (ttl : Option Nat)
  | incr (by_ : Int) (ttl : Option Nat)
  | touch (ttl : Option Nat)
  | delete
deriving DecidableEq, Repr

inductive Reply where
  | done
  | value (v : Option String)
  | flag (b : Bool)
  | count (n : Int)
  | values (found : List (String × String))
  | error (e : CacheError)
deriving DecidableEq, Repr

/-- Every backend refuses a NUL in a text value. -/
def checkText (value : String) (slot : Option Entry) (write : Reply × Option Entry) :
    Reply × Option Entry :=
  if '\x00' ∈ value.toList then
    (.error (.serialization "a cache value cannot contain a NUL character; use `set_bytes`"), slot)
  else write

/-- What an operation answers, and what it leaves under its key. -/
def KeyOp.run (now : Nat) (op : KeyOp) (slot : Option Entry) : Reply × Option Entry :=
  let until_ (ttl : Option Nat) : Option Nat := ttl.map (now + ·)
  match op with
  | .get => (.value ((live now slot).map (·.value)), slot)
  | .exists_ => (.flag (live now slot).isSome, slot)
  | .set value ttl => checkText value slot (.done, some ⟨value, until_ ttl⟩)
  | .setForever value => checkText value slot (.done, some ⟨value, none⟩)
  | .add value ttl =>
    checkText value slot
      (if (live now slot).isSome then (.flag false, slot) else (.flag true, some ⟨value, until_ ttl⟩))
  | .incr by_ ttl =>
    let new := ((live now slot).bind fun e => counterValue e.value).getD 0 + by_
    if -2 ^ 63 ≤ new ∧ new < 2 ^ 63 then
      -- a live counter keeps its expiry unless a ttl is passed
      let expiresAt := match live now slot, ttl with
        | some e, none => e.expiresAt
        | _, _ => until_ ttl
      (.count new, some ⟨toString new, expiresAt⟩)
    else (.error (.connection "incr: integer out of range (i64 overflow)"), slot)
  | .touch ttl =>
    match live now slot with
    | none => (.flag false, slot)
    | some e => (.flag true, some { e with expiresAt := until_ ttl })
  | .delete => (.done, none)

/-- What the cache holds. -/
abbrev Store := String → Option Entry

def runOne (now : Nat) (op : KeyOp) (key : String) (s : Store) : Reply × Store :=
  let told := op.run now (s key)
  (told.1, Function.update s key told.2)

/-- The keys that are there with their values, each once. -/
def getMany (now : Nat) (keys : List String) (s : Store) : List (String × String) :=
  keys.dedup.filterMap fun k => (live now (s k)).map fun e => (k, e.value)

/-- Stops at the first value that is refused. -/
def setMany (now : Nat) (ttl : Option Nat) : List (String × String) → Store → Reply × Store
  | [], s => (.done, s)
  | (key, value) :: entries, s =>
    let told := runOne now (.set value ttl) key s
    match told.1 with
    | .error e => (.error e, told.2)
    | _ => setMany now ttl entries told.2

def deleteMany (keys : List String) (s : Store) : Store :=
  keys.foldl (fun s k => Function.update s k none) s

/-- Every key that starts with `p`. -/
def deletePrefix (p : String) (s : Store) : Store :=
  fun k => if p.toList <+: k.toList then none else s k

def deletePrefixes (ps : List String) (s : Store) : Store := ps.foldl (fun s p => deletePrefix p s) s

/-- A call on a cache. -/
inductive CacheOp where
  | one (op : KeyOp) (key : String)
  | getMany (keys : List String)
  | setMany (entries : List (String × String)) (ttl : Option Nat)
  | deleteMany (keys : List String)
  | clear
  | deletePrefix (p : String)
  | deletePrefixes (ps : List String)
deriving DecidableEq, Repr

/-- The call on the flat cache itself. -/
def CacheOp.run (now : Nat) (op : CacheOp) (s : Store) : Reply × Store :=
  match op with
  | .one op key => runOne now op key s
  | .getMany keys => (.values (Cache.getMany now keys s), s)
  | .setMany entries ttl => Cache.setMany now ttl entries s
  | .deleteMany keys => (.done, Cache.deleteMany keys s)
  | .clear => (.done, fun _ => none)
  | .deletePrefix p => (.done, Cache.deletePrefix p s)
  | .deletePrefixes ps => (.done, Cache.deletePrefixes ps s)

end Rustango.Cache
