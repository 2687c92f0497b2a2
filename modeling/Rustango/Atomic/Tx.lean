import Mathlib.Logic.Function.Basic
import Rustango.Lib.Runs
import Rustango.Lib.Savepoints

/-!
# The transaction of an `atomic` block

One outermost block with everything that runs on its connection: nested blocks, ORM writes joined
to a block, the retry steps of `get_or_create` and `update_or_create`, and the callbacks queued by
`on_commit`. The futures of a block interleave, any of them may be dropped at an `await`, and the
savepoints of nested blocks are opened and finished in tasks of their own. A step is what happens
between two moments at which another future or task can act on the transaction.
-/

namespace Rustango.Atomic

open Function Savepoints

/-- `rustango_sp_{depth}` and `rustango_rp_{n}`. -/
inductive Name where
  | sp (depth : Nat)
  | rp (n : Nat)
deriving DecidableEq, Repr

inductive Kind where
  | block
  /-- A `JoinedWrite`. -/
  | write
  /-- A `RetryPoint`. -/
  | step (n : Nat)
deriving DecidableEq, Repr

/-- A future that keeps its writes or undoes them. -/
structure Scope where
  id : Nat
  kind : Kind
  /-- The scopes around it and itself, innermost first. -/
  path : List Nat
  /-- Those of `path` that are a nested block or a joined write. -/
  savepoints : List Nat
  /-- The innermost block, itself for a block. -/
  block : Nat
  /-- The block around it. -/
  parent : Nat
deriving DecidableEq, Repr

/-- The savepoint depth its writes are made at. -/
def Scope.depth (s : Scope) : Nat := s.savepoints.length

def root : Scope := ⟨0, .block, [0], [], 0, 0⟩

def Scope.nested (p : Scope) (id : Nat) : Scope :=
  ⟨id, .block, id :: p.path, id :: p.savepoints, id, p.block⟩

def Scope.joined (p : Scope) (id : Nat) : Scope :=
  ⟨id, .write, id :: p.path, id :: p.savepoints, p.block, p.block⟩

def Scope.step (p : Scope) (id n : Nat) : Scope :=
  ⟨id, .step n, id :: p.path, p.savepoints, p.block, p.block⟩

/-- A write, and the scopes it was made in. -/
structure Write where
  id : Nat
  path : List Nat
deriving DecidableEq, Repr

/-- Who holds the lock of the transaction. -/
inductive Holder where
  /-- A `TxGuard` of the block with these savepoints. -/
  | guard (savepoints : List Nat)
  | joined (w : Scope)
  /-- The task that opens a nested block's savepoint. -/
  | opening (s : Scope) (abandoned : Bool)
  /-- The task that finishes it; `claimed` while its caller waits. -/
  | finishing (s : Scope) (keep claimed : Bool)
deriving DecidableEq, Repr

/-- `guards` or `claims` is not zero. -/
def Holder.busy : Holder → Bool
  | .guard _ | .joined _ => true
  | .opening _ abandoned => !abandoned
  | .finishing _ _ claimed => claimed

/-- The scopes the holder is in. -/
def Holder.path : Holder → List Nat
  | .guard savepoints => savepoints
  | .joined s | .opening s _ | .finishing s _ _ => s.path

structure Slot where
  /-- The connection. -/
  log : Log Name Write
  /-- Which of the savepoint statements to come the server accepts. -/
  answers : Nat → Bool
  depth : Nat
  poisoned : Bool
  retryPoints : Nat
  /-- Shallowest savepoint whose scope was dropped (0 = none). -/
  cancelled : Nat
  /-- Earliest retry point dropped before its end: its number and depth. -/
  cancelledPoint : Option (Nat × Nat)
  fatal : Bool
  lock : Option Holder

inductive Verb where
  | savepoint
  | rollbackTo
  | release

def Verb.apply : Verb → Name → Log Name Write → Option (Log Name Write)
  | .savepoint, name, log => some (Savepoints.savepoint name log)
  | .rollbackTo, name, log => Savepoints.rollbackTo name log
  | .release, name, log => Savepoints.release name log

/-- An error carries the slot it leaves behind. -/
def Slot.namedSavepoint (verb : Verb) (name : Name) (slot : Slot) : Except Slot Slot :=
  let slot' := { slot with answers := fun i => slot.answers (i + 1) }
  match verb.apply name slot.log with
  | some log =>
    if slot.answers 0 then .ok { slot' with log } else .error { slot' with poisoned := true }
  | none => .error { slot' with poisoned := true }

/-- The future is dropped with the statement sent, and the server may run it or not. -/
def Slot.cutOff (ran : Bool) (verb : Verb) (name : Name) (slot : Slot) : Slot :=
  match ran, verb.apply name slot.log with
  | true, some log => { slot with log }
  | _, _ => slot

def Slot.rollbackTo (depth : Nat) (slot : Slot) : Except Slot Slot := do
  let slot ← slot.namedSavepoint .rollbackTo (.sp depth)
  let slot ← slot.namedSavepoint .release (.sp depth)
  return { slot with depth := depth - 1 }

/-- Rolls back to a retry point and forgets it. -/
def Slot.undoPoint (n : Nat) (slot : Slot) : Except Slot Slot := do
  let slot ← slot.namedSavepoint .rollbackTo (.rp n)
  slot.namedSavepoint .release (.rp n)

/-- The first half of `settle`: a dropped block or joined write is rolled back. -/
def Slot.settleCancelled (slot : Slot) : Except Slot Slot :=
  let d := slot.cancelled
  let slot := { slot with cancelled := 0 }
  if d ≠ 0 ∧ d ≤ slot.depth then slot.rollbackTo d else .ok slot

/-- The second half: a dropped retry step, once no later savepoint is open. -/
def Slot.settlePoint (slot : Slot) : Except Slot Slot :=
  match slot.cancelledPoint with
  | none => .ok slot
  | some (n, depth) =>
    if depth > slot.depth then .ok { slot with cancelledPoint := none }
    else if depth = slot.depth then { slot with cancelledPoint := none }.undoPoint n
    else .ok slot

/-- A scope dropped while the statements of `settle` run leaves its mark to the next one. -/
def Slot.settle (slot : Slot) : Except Slot Slot :=
  if slot.poisoned ∨ slot.fatal then .error slot
  else slot.settleCancelled >>= Slot.settlePoint

def Slot.markCancelled (depth : Nat) (slot : Slot) : Slot :=
  { slot with cancelled := if slot.cancelled = 0 then depth else min slot.cancelled depth }

/-- `RetryPoint::drop`. -/
def Slot.markPoint (n depth : Nat) (slot : Slot) : Slot :=
  { slot with cancelledPoint := match slot.cancelledPoint with
      | none => some (n, depth)
      | some point => if n < point.1 then some (n, depth) else some point }

structure Scopes where
  /-- Every scope so far, newest first. -/
  all : List Scope
  /-- The scopes whose code may run. -/
  live : List Scope
  /-- The scopes that ended with an error or were dropped. -/
  failed : List Scope

def Scopes.next (scopes : Scopes) : Nat := scopes.all.length

def Scopes.remove (scopes : Scopes) (s : Scope) : Scopes :=
  { scopes with live := scopes.live.filter (· ≠ s) }

def Scopes.keep (scopes : Scopes) (s : Scope) (kept : Bool) : Scopes :=
  { scopes.remove s with failed := if kept then scopes.failed else s :: scopes.failed }

def Scopes.add (scopes : Scopes) (s : Scope) : Scopes :=
  { scopes with all := s :: scopes.all, live := s :: scopes.live }

/-- The callbacks are numbered as they are registered. -/
structure Hooks where
  /-- Queued in each block. -/
  callbacks : Nat → List Nat
  /-- The scopes they were registered in. -/
  registered : List Scope
  /-- Taken from the outermost block after the commit, not called yet. -/
  firing : List Nat
  ran : List Nat

/-- The end of a nested block hands its callbacks to the block around it. -/
def Hooks.handOver (hooks : Hooks) (s : Scope) : Hooks :=
  { hooks with
    callbacks := update (update hooks.callbacks s.id []) s.parent
      (hooks.callbacks s.parent ++ hooks.callbacks s.id) }

/-- The committed outermost block takes its callbacks. -/
def Hooks.taken (hooks : Hooks) : Hooks :=
  { hooks with callbacks := update hooks.callbacks 0 [], firing := hooks.callbacks 0 }

inductive Ending where
  /-- With the writes that were committed and the number of callbacks registered until then. -/
  | committed (writes : List Write) (registered : Nat)
  | failed

structure Tx where
  slot : Slot
  scopes : Scopes
  hooks : Hooks
  /-- Every write the server took, newest first. -/
  made : List Write
  /-- How the outermost block ended. -/
  outcome : Option Ending

def Tx.initial (answers : Nat → Bool) : Tx where
  slot := ⟨[], answers, 0, false, 0, 0, none, false, none⟩
  scopes := ⟨[root], [root], []⟩
  hooks := ⟨fun _ => [], [], [], []⟩
  made := []
  outcome := none

/-- Nothing inside the scope runs any more, and none of it waits for a task. -/
def Tx.over (tx : Tx) (s : Scope) : Bool :=
  tx.scopes.live.all (fun q => s.id ∉ q.path ∨ q = s) &&
    tx.slot.lock.all fun h => !h.busy || s.id ∉ h.path

inductive Sent where
  | awaited
  /-- The future was dropped while the statement was under way; `ran` when the server ran it. -/
  | cut (ran : Bool)
deriving DecidableEq, Repr

/-- `p` is the innermost scope of the transaction around the call. -/
inductive Event where
  /-- `AtomicTx::lock` -/
  | lock (p : Scope)
  | unlock
  | write (p : Scope)
  /-- `join` opens a `JoinedWrite`, `release` keeps it. -/
  | join (p : Scope) (sent : Sent)
  | release (sent : Sent)
  /-- `retry_point` opens a step, `endPoint` is `RetryPoint::end`. -/
  | retryPoint (p : Scope) (sent : Sent)
  | endPoint (s : Scope) (keep : Bool) (sent : Sent)
  /-- `atomic` in a block on the same pool. -/
  | enter (p : Scope)
  | opened
  /-- The closure of a nested block returned. -/
  | leave (s : Scope) (ok : Bool)
  | finished
  /-- The future of a scope is dropped. -/
  | drop (s : Scope)
  /-- The future that waits for a task is dropped. -/
  | abandon
  | onCommit (p : Scope)
  /-- The server ended the transaction. -/
  | fatal
  /-- The closure of the outermost block returned; `commits` when the server commits if asked to. -/
  | outermost (ok commits : Bool)
  /-- The next callback is called. -/
  | fire (panics : Bool)

/-- `acquire`, with what follows it. A lock held by another is not waited for or waited for until
it is free, and the transaction stays as it is. -/
def Tx.acquire (tx : Tx) (error ok : Tx → Option Tx) : Option Tx :=
  match tx.slot.lock with
  | some _ => none
  | none =>
    match tx.slot.settle with
    | .error slot => error { tx with slot }
    | .ok slot => ok { tx with slot }

def Tx.wrote (tx : Tx) (p : Scope) : Tx :=
  let w : Write := ⟨tx.made.length, p.path⟩
  { tx with slot := { tx.slot with log := .write w :: tx.slot.log }, made := w :: tx.made }

/-- A dropped scope leaves a mark for the next use of the transaction. -/
def Tx.dropped (tx : Tx) (s : Scope) : Tx :=
  { tx with
    slot := match s.kind with
      | .block | .write => tx.slot.markCancelled s.depth
      | .step n => tx.slot.markPoint n s.depth
    scopes := tx.scopes.keep s false }

def Tx.unlocked (tx : Tx) : Tx := { tx with slot := { tx.slot with lock := none } }

def Tx.lockedBy (tx : Tx) (h : Holder) : Tx := { tx with slot := { tx.slot with lock := some h } }

/-- `AtomicTx::lock`; `p.depth` is the depth of the block around `p`. -/
def lock (tx : Tx) (p : Scope) : Option Tx :=
  tx.acquire some fun tx =>
    if tx.slot.depth ≠ p.depth then some tx else some (tx.lockedBy (.guard p.savepoints))

/-- The scope's code has the transaction to itself, and `gate` lets its statement pass. -/
def Tx.mayWrite (tx : Tx) (p : Scope) : Bool :=
  !tx.slot.fatal && match tx.slot.lock with
    | some (.guard savepoints) => savepoints = p.savepoints
    | some (.joined w) => w = p
    | _ => false

/-- A statement of the user or of the ORM that writes. -/
def write (tx : Tx) (p : Scope) : Option Tx := if tx.mayWrite p then some (tx.wrote p) else none

/-- `JoinedWrite::open` -/
def join (tx : Tx) (p : Scope) (sent : Sent) : Option Tx :=
  tx.acquire some fun tx =>
    if tx.slot.depth ≠ p.depth then some tx
    else
      let w := p.joined tx.scopes.next
      match sent with
      | .cut ran =>
        some { tx with slot := (tx.slot.cutOff ran .savepoint (.sp w.depth)).markCancelled w.depth }
      | .awaited =>
        match tx.slot.namedSavepoint .savepoint (.sp w.depth) with
        | .error slot => some { tx with slot := slot.markCancelled w.depth }
        | .ok slot =>
          some { tx with
            slot := { slot with depth := w.depth, lock := some (.joined w) }
            scopes := tx.scopes.add w }

/-- `JoinedWrite::release` -/
def release (tx : Tx) (sent : Sent) : Option Tx :=
  match tx.slot.lock with
  | some (.joined w) =>
    match sent with
    | .cut ran =>
      some ({ tx with slot := tx.slot.cutOff ran .release (.sp w.depth) }.dropped w).unlocked
    | .awaited =>
      match tx.slot.namedSavepoint .release (.sp w.depth) with
      | .error slot => some ({ tx with slot }.dropped w).unlocked
      | .ok slot =>
        some { tx with
          slot := { slot with depth := w.depth - 1, lock := none }
          scopes := tx.scopes.keep w true }
  | _ => none

/-- `RetryPoint::open`; without a point the step is no scope. -/
def retryPoint (tx : Tx) (p : Scope) (sent : Sent) : Option Tx :=
  tx.acquire some fun tx =>
    if tx.slot.depth ≠ p.depth then some tx
    else
      let n := tx.slot.retryPoints + 1
      let slot := { tx.slot with retryPoints := n }
      match sent with
      | .cut ran => some { tx with slot := slot.cutOff ran .savepoint (.rp n) }
      | .awaited =>
        match slot.namedSavepoint .savepoint (.rp n) with
        | .error slot => some { tx with slot }
        | .ok slot => some { tx with slot, scopes := tx.scopes.add (p.step tx.scopes.next n) }

/-- `RetryPoint::end` while the transaction is not the step's to use. -/
def deferPoint (tx : Tx) (s : Scope) (keep : Bool) : Tx :=
  if keep then { tx with scopes := tx.scopes.keep s true } else tx.dropped s

/-- The last statement of `RetryPoint::end`. -/
def releasePoint (tx : Tx) (s : Scope) (n : Nat) (keep : Bool) (sent : Sent) : Option Tx :=
  match sent with
  | .cut ran => some ({ tx with slot := tx.slot.cutOff ran .release (.rp n) }.dropped s)
  | .awaited =>
    match tx.slot.namedSavepoint .release (.rp n) with
    | .error slot => some ({ tx with slot }.dropped s)
    | .ok slot => some { tx with slot, scopes := tx.scopes.keep s keep }

/-- `RetryPoint::end` -/
def endPoint (tx : Tx) (s : Scope) (n : Nat) (keep : Bool) (sent : Sent) : Option Tx :=
  match tx.slot.lock with
  | some h => if h.busy then some (deferPoint tx s keep) else none
  | none =>
    tx.acquire (fun tx => some (tx.dropped s)) fun tx =>
      if tx.slot.depth ≠ s.depth then some (deferPoint tx s keep)
      else
        match if keep then .ok tx.slot else tx.slot.namedSavepoint .rollbackTo (.rp n) with
        | .error slot => some ({ tx with slot }.dropped s)
        | .ok slot => releasePoint { tx with slot } s n keep sent

/-- The beginning of `nested`. -/
def enter (tx : Tx) (p : Scope) : Option Tx :=
  tx.acquire some fun tx =>
    if tx.slot.depth ≠ p.depth then some tx
    else
      let s := p.nested tx.scopes.next
      some ({ tx with scopes := { tx.scopes with all := s :: tx.scopes.all } }.lockedBy
        (.opening s false))

/-- The task that opens the savepoint; its caller may have gone. -/
def openSavepoint (tx : Tx) : Option Tx :=
  match tx.slot.lock with
  | some (.opening s abandoned) =>
    match tx.slot.namedSavepoint .savepoint (.sp s.depth) with
    | .error slot => some { tx with slot }.unlocked
    | .ok slot =>
      let tx := { tx with slot := { slot with depth := s.depth } }.unlocked
      if abandoned then some { tx with slot := tx.slot.markCancelled s.depth }
      else some { tx with scopes := { tx.scopes with live := s :: tx.scopes.live } }
  | _ => none

/-- The end of `nested`, up to the task that finishes its savepoint. -/
def leave (tx : Tx) (s : Scope) (ok : Bool) : Option Tx :=
  match tx.slot.lock with
  | some h => if h.busy then some (tx.dropped s) else none
  | none =>
    tx.acquire (fun tx => some (tx.dropped s)) fun tx =>
      some ({ tx with scopes := tx.scopes.keep s ok }.lockedBy (.finishing s ok true))

/-- The task that finishes the savepoint. -/
def finishSavepoint (tx : Tx) : Option Tx :=
  match tx.slot.lock with
  | some (.finishing s keep _) =>
    if tx.slot.depth ≠ s.depth then
      some { tx with slot := { tx.slot with poisoned := true } }.unlocked
    else if keep then
      match tx.slot.namedSavepoint .release (.sp s.depth) with
      | .error slot => some { tx with slot }.unlocked
      | .ok slot =>
        some { tx with
          slot := { slot with depth := s.depth - 1 }
          hooks := tx.hooks.handOver s }.unlocked
    else
      match tx.slot.rollbackTo s.depth with
      | .error slot | .ok slot => some { tx with slot }.unlocked
  | _ => none

def abandon (tx : Tx) : Option Tx :=
  match tx.slot.lock with
  | some (.opening s false) =>
    some ({ tx with scopes := { tx.scopes with failed := s :: tx.scopes.failed } }.lockedBy
      (.opening s true))
  | some (.finishing s keep true) => some (tx.lockedBy (.finishing s keep false))
  | _ => none

/-- The future of the outermost block, of a nested one, of a joined write or of a retry step is
dropped, after those of the scopes inside it. -/
def drop (tx : Tx) (s : Scope) : Option Tx :=
  match s.kind with
  | .write => if tx.slot.lock = some (.joined s) then some (tx.dropped s).unlocked else none
  | _ =>
    if !tx.over s then none
    else if s = root then some { tx with outcome := some .failed }
    else some (tx.dropped s)

/-- The end of `outermost`; the closure's `COMMIT` and the check before it may fail. -/
def outermost (tx : Tx) (ok commits : Bool) : Option Tx :=
  match tx.slot.lock with
  | some _ => none
  | none =>
    match tx.slot.settle with
    | .error slot => some { tx with slot, outcome := some .failed }
    | .ok slot =>
      if slot.depth = 0 ∧ ok ∧ commits then
        some { tx with
          slot
          hooks := tx.hooks.taken
          outcome := some (.committed (writes slot.log) tx.hooks.registered.length) }
      else some { tx with slot, outcome := some .failed }

/-- `on_commit` in a block whose commit is ahead. -/
def onCommit (hooks : Hooks) (p : Scope) : Hooks :=
  { hooks with
    callbacks := update hooks.callbacks p.block
      (hooks.callbacks p.block ++ [hooks.registered.length])
    registered := hooks.registered ++ [p] }

/-- `on_commit` in a callback: the commit is done, and the callback runs at once. -/
def onCommitted (hooks : Hooks) : Hooks :=
  { hooks with
    registered := hooks.registered ++ [root], ran := hooks.ran ++ [hooks.registered.length] }

/-- One turn of the loop over the callbacks; `catch_unwind` keeps a panic inside the turn. -/
def fire (hooks : Hooks) (panics : Bool) : Option (Hooks × Bool) :=
  match hooks.firing with
  | [] => none
  | callback :: rest => some ({ hooks with firing := rest, ran := hooks.ran ++ [callback] }, panics)

/-- A step before the outermost block ended. -/
def running (tx : Tx) : Event → Option Tx
  | .lock p => if p ∈ tx.scopes.live then lock tx p else none
  | .unlock =>
    match tx.slot.lock with
    | some (.guard _) => some tx.unlocked
    | _ => none
  | .write p => if p ∈ tx.scopes.live then write tx p else none
  | .join p sent => if p ∈ tx.scopes.live ∧ p.kind ≠ .write then join tx p sent else none
  | .release sent => release tx sent
  | .retryPoint p sent =>
    if p ∈ tx.scopes.live ∧ p.kind ≠ .write then retryPoint tx p sent else none
  | .endPoint s keep sent =>
    match s.kind with
    | .step n => if s ∈ tx.scopes.live ∧ tx.over s then endPoint tx s n keep sent else none
    | _ => none
  | .enter p => if p ∈ tx.scopes.live ∧ p.kind ≠ .write then enter tx p else none
  | .opened => openSavepoint tx
  | .leave s ok =>
    if s ∈ tx.scopes.live ∧ s.kind = .block ∧ s ≠ root ∧ tx.over s then leave tx s ok else none
  | .finished => finishSavepoint tx
  | .drop s => if s ∈ tx.scopes.live then drop tx s else none
  | .abandon => abandon tx
  | .onCommit p =>
    if p ∈ tx.scopes.live ∧ p.kind ≠ .write then some { tx with hooks := onCommit tx.hooks p }
    else none
  | .fatal => some { tx with slot := { tx.slot with fatal := true, log := [] } }
  | .outermost ok commits => if tx.over root then outermost tx ok commits else none
  | .fire _ => none

/-- A step after it. -/
def ended (tx : Tx) : Ending → Event → Option Tx
  | .committed _ _, .fire panics =>
    (fire tx.hooks panics).map fun next => { tx with hooks := next.1 }
  | .committed _ _, .onCommit _ => some { tx with hooks := onCommitted tx.hooks }
  | _, _ => none

def step (e : Event) (tx : Tx) : Option Tx :=
  match tx.outcome with
  | none => running tx e
  | some outcome => ended tx outcome e

end Rustango.Atomic
