import Rustango.Lib.Threads

/-!
# Distributed locks

A lock is a cache key that holds its taker's token until a TTL ends. The calls are programs of
single cache operations; the body that a lock guards is the two operations that start and end it.
-/

namespace Rustango.DistributedLock

open Rustango.Threads

/-- A lock name of one job: the plain `name`, held while a body runs, and `name@window`. -/
inductive LockName where
  | plain
  | at_ (window : Nat)
deriving DecidableEq, Repr

/-- The cache key of a name, or the one it had in release 0.63. -/
structure Key where
  name : LockName
  legacy : Bool
deriving DecidableEq, Repr

/-- A process id and the nanoseconds at which the lock was asked for. -/
structure Token where
  process : Nat
  nanos : Nat
deriving DecidableEq, Repr

/-- How a body ended. -/
inductive Ending where
  | ok
  | err
  | panic
deriving DecidableEq, Repr

/-- One cache operation, or the start or the end of a body. -/
inductive Op where
  | add (key : Key) (token : Token) (ttl : Nat)
  | get (key : Key)
  | delete (key : Key)
  | enter
  | leave
deriving DecidableEq, Repr

/-- What an operation answers. -/
@[reducible] def Op.Answer : Op → Type
  | .add _ _ _ => Bool
  | .get _ => Option Token
  | .delete _ => Unit
  | .enter => Unit
  | .leave => Ending

abbrev LockProg := Prog Op Op.Answer

def add (key : Key) (token : Token) (ttl : Nat) : LockProg Bool := Prog.call (Op.add key token ttl)
def get (key : Key) : LockProg (Option Token) := Prog.call (Op.get key)
def delete (key : Key) : LockProg Unit := Prog.call (Op.delete key)
def enter : LockProg Unit := Prog.call Op.enter
def leave : LockProg Ending := Prog.call Op.leave

/-- A lock taken; `legacy` when its 0.63 key is held too. -/
structure Guard where
  name : LockName
  legacy : Bool
  token : Token
deriving DecidableEq, Repr

/-- Deletes a key only if the stored value is still the token. -/
def Guard.releaseKey (g : Guard) (legacy : Bool) : LockProg Unit := do
  let stored ← get ⟨g.name, legacy⟩
  if stored = some g.token then delete ⟨g.name, legacy⟩ else pure ()

/-- Releases the 0.63 key where there is one. -/
def Guard.releaseLegacy (g : Guard) : LockProg Unit :=
  if g.legacy then g.releaseKey true else pure ()

def Guard.release (g : Guard) : LockProg Unit := do
  g.releaseKey false
  g.releaseLegacy

/-- The second half of `try_acquire`, the 0.63 key being held. -/
def acquireKey (g : Guard) (ttl : Nat) : LockProg (Option Guard) := do
  if ← add ⟨g.name, false⟩ g.token ttl then pure (some g)
  else do
    g.releaseLegacy
    pure none

/-- Tries to take `name` for `ttl`: the 0.63 key first, where there is one. -/
def tryAcquire (legacy : Bool) (name : LockName) (token : Token) (ttl : Nat) :
    LockProg (Option Guard) :=
  if legacy then do
    if ← add ⟨name, true⟩ token ttl then acquireKey ⟨name, true, token⟩ ttl else pure none
  else acquireKey ⟨name, false, token⟩ ttl

/-- Pods that share a cache. `period` is already at least 1 ms, and any two clocks differ by less. -/
structure Fleet where
  Pod : Type
  period : Nat
  positive : 1 ≤ period
  legacy : Bool
  offset : Pod → Int
  skew : ∀ p q, offset p < offset q + period

variable (F : Fleet)

/-- What the clock of a pod shows; before the Unix epoch, 0. -/
def Fleet.clock (p : F.Pod) (now : Nat) : Nat := (now + F.offset p).toNat

/-- The window a pod is in. -/
def Fleet.window (p : F.Pod) (now : Nat) : Nat := F.clock p now / F.period

/-- A call of `once_per_period`, and the tokens of its two locks. -/
structure Call where
  pod : F.Pod
  window : Nat
  windowToken : Token
  runToken : Token

variable {F}

def Call.windowGuard (c : Call F) : Guard := ⟨.at_ c.window, F.legacy, c.windowToken⟩
def Call.runGuard (c : Call F) : Guard := ⟨.plain, F.legacy, c.runToken⟩

/-- Drops the keys of the window two windows back. -/
def dropOld (legacy : Bool) (window : Nat) : LockProg Unit :=
  if 2 ≤ window then do
    delete ⟨.at_ (window - 2), false⟩
    if legacy then delete ⟨.at_ (window - 2), true⟩ else pure ()
  else pure ()

/-- The body, both locks being held, and what follows it. -/
def runBody (guard running : Guard) : LockProg (Option Ending) := do
  enter
  let ending ← leave
  running.release
  match ending with
  | .ok => pure (some .ok)
  | .err => do
    guard.release
    pure (some .err)
  | .panic => do
    guard.release
    pure (some .panic)

/-- Runs the body if the window's lock and the job's lock are free. -/
def Call.onceInWindow (c : Call F) : LockProg (Option Ending) := do
  match ← tryAcquire F.legacy (.at_ c.window) c.windowToken (2 * F.period) with
  | none => pure none
  | some guard => do
    dropOld F.legacy c.window
    match ← tryAcquire F.legacy .plain c.runToken F.period with
    | none => do
      guard.release
      pure none
    | some running => runBody guard running

/-- What `ReleaseOnDrop` spawns when a run is dropped. -/
def Call.cleanup (c : Call F) : LockProg (Option Ending) := do
  c.runGuard.release
  c.windowGuard.release
  pure none

end Rustango.DistributedLock
