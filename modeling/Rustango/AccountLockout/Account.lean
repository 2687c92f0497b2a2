import Mathlib
import Rustango.Lib.Threads

/-!
# The account lockout

What the cache holds of one account, and the calls on it as programs of single cache operations. A
window is named by the time it was opened at; nothing expires here.
-/

namespace Rustango.AccountLockout

open Rustango.Threads

/-- A window's start in microseconds. -/
abbrev Id := Int

/-- The keys of one account: the lock, the current window, and the counters of every window. -/
structure Account where
  locked : Bool
  window : Option Id
  attempts : Id → Option Int
  failures : Id → Option Int

/-- Why an attempts counter is changed. The cache does not see it, nor whether an attempt that failed
was counted. -/
inductive Why where
  | reserve
  | failure
  | giveBack
  | undo
deriving DecidableEq, Repr

/-- One cache operation, or a look at the clock. -/
inductive CacheOp where
  | existsLock
  | setLock
  | deleteLock
  | getWindow
  | now
  | addWindow (id : Id)
  | deleteWindow
  | incrAttempts (id : Id) (why : Why)
  | incrFailures (id : Id) (counted : Bool)
  | getFailures (id : Id)
  | deleteAttempts (id : Id)
  | deleteFailures (id : Id)
deriving DecidableEq, Repr

/-- What an operation answers. -/
@[reducible] def CacheOp.Answer : CacheOp → Type
  | .existsLock => Bool
  | .getWindow => Option Id
  | .now => Id
  | .addWindow _ => Bool
  | .incrAttempts _ _ => Int
  | .incrFailures _ _ => Int
  | .getFailures _ => Option Int
  | _ => Unit

abbrev CacheProg := Prog CacheOp CacheOp.Answer

/-- How much a counter is changed by. -/
def Why.by_ : Why → Int
  | .giveBack => -1
  | _ => 1

/-- One operation on the account; `clock` is what a look at the clock shows. -/
def CacheOp.run (clock : Id) (a : Account) : (o : CacheOp) → o.Answer × Account
  | .existsLock => (a.locked, a)
  | .setLock => ((), { a with locked := true })
  | .deleteLock => ((), { a with locked := false })
  | .getWindow => (a.window, a)
  | .now => (clock, a)
  | .addWindow id =>
    if a.window.isSome then (false, a) else (true, { a with window := some id })
  | .deleteWindow => ((), { a with window := none })
  | .incrAttempts id why =>
    let n := (a.attempts id).getD 0 + why.by_
    (n, { a with attempts := Function.update a.attempts id (some n) })
  | .incrFailures id _ =>
    let n := (a.failures id).getD 0 + 1
    (n, { a with failures := Function.update a.failures id (some n) })
  | .getFailures id => (a.failures id, a)
  | .deleteAttempts id => ((), { a with attempts := Function.update a.attempts id none })
  | .deleteFailures id => ((), { a with failures := Function.update a.failures id none })

def existsLock : CacheProg Bool := Prog.call CacheOp.existsLock
def setLock : CacheProg Unit := Prog.call CacheOp.setLock
def deleteLock : CacheProg Unit := Prog.call CacheOp.deleteLock
def getWindow : CacheProg (Option Id) := Prog.call CacheOp.getWindow
def now : CacheProg Id := Prog.call CacheOp.now
def addWindow (id : Id) : CacheProg Bool := Prog.call (CacheOp.addWindow id)
def deleteWindow : CacheProg Unit := Prog.call CacheOp.deleteWindow
def incrAttempts (id : Id) (why : Why) : CacheProg Int := Prog.call (CacheOp.incrAttempts id why)
def incrFailures (id : Id) (counted : Bool) : CacheProg Int := Prog.call (CacheOp.incrFailures id counted)
def getFailures (id : Id) : CacheProg (Option Int) := Prog.call (CacheOp.getFailures id)
def deleteAttempts (id : Id) : CacheProg Unit := Prog.call (CacheOp.deleteAttempts id)
def deleteFailures (id : Id) : CacheProg Unit := Prog.call (CacheOp.deleteFailures id)

/-- The rounds of `window`: it reads, and opens a window where there is none, twice at most. -/
def windowRounds (open_ : Bool) : Nat → CacheProg (Option Id)
  | 0 => pure none
  | rounds + 1 => do
    match ← getWindow with
    | some id => pure (some id)
    | none =>
      if open_ then do
        let id ← now
        if ← addWindow id then pure (some id) else windowRounds open_ rounds
      else pure none

/-- The id of the account's current window; `open_` starts one when there is none. -/
def window (open_ : Bool) : CacheProg (Option Id) := windowRounds open_ 2

def isLocked : CacheProg Bool := existsLock

/-- Takes one off the counter, undone below 0. -/
def decrement (id : Id) : CacheProg Unit := do
  let n ← incrAttempts id .giveBack
  if n < 0 then do
    let _ ← incrAttempts id .undo
    pure ()
  else pure ()

/-- Drops the current window and its counters. -/
def clearWindow : CacheProg Unit := do
  match ← window false with
  | some id => do
    deleteAttempts id
    deleteFailures id
    deleteWindow
  | none => deleteWindow

/-- `u32::try_from`. -/
def toU32? (n : Int) : Option Nat := if 0 ≤ n ∧ n < 2 ^ 32 then some n.toNat else none

/-- `None` when no window could be opened. -/
def countFailure : CacheProg (Option Int) := do
  match ← window true with
  | none => pure none
  | some id => do
    let n ← incrAttempts id .failure
    pure (some n)

/-- The tracker's threshold, a `u32` that `max_attempts` keeps from being 0. -/
structure Lockout where
  maxAttempts : Nat
  atLeastOne : 1 ≤ maxAttempts
  fits : maxAttempts < 2 ^ 32

/-- `DEFAULT_MAX_ATTEMPTS`. -/
def Lockout.new : Lockout := ⟨5, by decide, by decide⟩

/-- Overrides the attempts threshold. -/
def Lockout.withMaxAttempts (_ : Lockout) (n : Nat) (h : n < 2 ^ 32) : Lockout :=
  ⟨max n 1, Nat.le_max_right n 1, Nat.max_lt.mpr ⟨h, by decide⟩⟩

namespace Lockout
variable (l : Lockout)

/-- Records a failed login attempt and returns the new count. -/
def recordFailure : CacheProg Nat := do
  if ← isLocked then pure l.maxAttempts
  else do
    let counted ← countFailure
    let next := (toU32? (counted.getD 0)).getD (2 ^ 32 - 1)
    if l.maxAttempts ≤ next then do
      setLock
      clearWindow
      pure next
    else pure next

end Lockout

/-- What `reserve` did with an attempt; a counted one names the window it was counted in. -/
inductive Reservation where
  | counted (slot : Option Id)
  | locked
  | full
deriving DecidableEq, Repr

namespace Lockout
variable (l : Lockout)

/-- Counts an attempt before its password is checked. -/
def reserve : CacheProg Reservation := do
  if ← isLocked then pure .locked
  else do
    match ← window true with
    | none => pure (.counted none)
    | some id => do
      let n ← incrAttempts id .reserve
      if (l.maxAttempts : Int) < n then do
        decrement id
        pure .full
      else if ← isLocked then do
        decrement id
        pure .locked
      else pure (.counted (some id))

/-- What `reserved_failed` does with the window of its slot. -/
def failIn (counted : Bool) (id : Id) : CacheProg Unit := do
  let failures ← incrFailures id counted
  if (l.maxAttempts : Int) ≤ failures then do
    setLock
    clearWindow
  else pure ()

/-- A reserved attempt failed. -/
def reservedFailed : Option Id → CacheProg Unit
  | some id => l.failIn true id
  | none => do
    match ← window true with
    | some id => l.failIn false id
    | none => pure ()

end Lockout

/-- Gives back a reserved attempt that proved nothing. -/
def release : Option Id → CacheProg Unit
  | some id => decrement id
  | none => pure ()

/-- Failures counted in the current window; 0 when nothing readable is stored. -/
def failureCount : CacheProg Nat := do
  match ← window false with
  | none => pure 0
  | some id => do
    let stored ← getFailures id
    pure ((stored.bind toU32?).getD 0)

/-- A reserved attempt passed: clears the window's failures, or gives the slot back. -/
def reservedSucceeded (slot : Option Id) : CacheProg Unit := do
  let failures ← failureCount
  if 0 < failures then clearWindow else release slot

/-- Clears the failure counter and any active lock. -/
def clear : CacheProg Unit := do
  clearWindow
  deleteLock

end Rustango.AccountLockout
