import Mathlib.Logic.Function.Basic
import Rustango.Lib.Runs
import Rustango.AccountLockout.Account

/-!
# Calls on one account that interleave

Any number of calls are in progress and take their operations one at a time, in any order. Beside
the account stand the slots that were handed out and not reported yet, and books on what was
reported in each window.
-/

namespace Rustango.AccountLockout

open Function Rustango.Threads

/-- A call on the account; a report carries the slot it is about. -/
inductive Call where
  | reserve
  | reservedFailed (slot : Option Id)
  | reservedSucceeded (slot : Option Id)
  | release (slot : Option Id)
  | recordFailure
  | clear
deriving DecidableEq, Repr

/-- What a call returns. -/
inductive Outcome where
  | reserved (r : Reservation)
  | recorded (n : Nat)
  | done
deriving DecidableEq, Repr

/-- The program of a call. -/
def Lockout.prog (l : Lockout) : Call → CacheProg Outcome
  | .reserve => do
    let r ← l.reserve
    pure (.reserved r)
  | .reservedFailed slot => do
    l.reservedFailed slot
    pure .done
  | .reservedSucceeded slot => do
    reservedSucceeded slot
    pure .done
  | .release slot => do
    release slot
    pure .done
  | .recordFailure => do
    let n ← l.recordFailure
    pure (.recorded n)
  | .clear => do
    clear
    pure .done

/-- The slot a call reports. -/
def Call.slot? : Call → Option (Option Id)
  | .reservedFailed slot | .reservedSucceeded slot | .release slot => some slot
  | .reserve | .recordFailure | .clear => none

/-- A call in progress: what is left of it, and whether it started after a lock that lasts since. -/
structure Thread where
  shut : Bool
  prog : CacheProg Outcome

/-- What happened in each window: whether it was opened, whether its attempts were deleted, the
failures that `record_failure` and `reserved_failed` counted in it, and whether these demand a lock
that nothing lifted since. -/
structure Books where
  opened : Id → Bool
  wiped : Id → Bool
  recorded : Id → Nat
  failed : Id → Nat
  owed : Id → Bool

/-- The account, the slots nobody reported yet by the window they were counted in, those counted in
none, and the calls in progress. -/
structure State where
  account : Account
  books : Books
  slots : Id → Nat
  uncounted : Nat
  threads : List Thread

def Books.reported (b : Books) (w : Id) : Nat := b.recorded w + b.failed w

/-- A window that was not cleared demands a lock at `max_attempts` failures. -/
def Books.demand (l : Lockout) (b : Books) (w : Id) : Books :=
  if b.wiped w = false ∧ l.maxAttempts ≤ b.reported w then { b with owed := update b.owed w true }
  else b

/-- What an operation adds to the books. -/
def Books.note (l : Lockout) (a : Account) (b : Books) : CacheOp → Books
  | .deleteLock => { b with owed := fun _ => false }
  | .addWindow id => if a.window.isSome then b else { b with opened := update b.opened id true }
  | .incrAttempts id .failure =>
    Books.demand l { b with recorded := update b.recorded id (b.recorded id + 1) } id
  | .incrFailures id _ =>
    Books.demand l { b with failed := update b.failed id (b.failed id + 1) } id
  | .deleteAttempts id => { b with wiped := update b.wiped id true }
  | _ => b

inductive Event where
  | call (c : Call)
  | step (i : Nat) (clock : Id)
  | finish (i : Nat)
deriving DecidableEq, Repr

/-- Takes a slot out of those nobody reported; `none` when there is none to report. -/
def State.report (s : State) : Option Id → Option State
  | some w => if s.slots w = 0 then none else some { s with slots := update s.slots w (s.slots w - 1) }
  | none => if s.uncounted = 0 then none else some { s with uncounted := s.uncounted - 1 }

/-- A call starts. -/
def State.start (l : Lockout) (s : State) (c : Call) : State :=
  { s with threads := s.threads ++ [⟨s.account.locked, l.prog c⟩] }

/-- The operation lifts the lock. -/
def CacheOp.lifts : CacheOp → Bool
  | .deleteLock => true
  | _ => false

/-- Threads after an operation: where the lock is lifted, no thread counts as shut out any more. -/
def relieve (o : CacheOp) (threads : List Thread) : List Thread :=
  if o.lifts then threads.map fun th => { th with shut := false } else threads

/-- The call at `i` takes an operation. -/
def State.act (l : Lockout) (s : State) (i : Nat) (clock : Id) (th : Thread) (o : CacheOp)
    (next : o.Answer → CacheProg Outcome) : State :=
  { s with
    account := (o.run clock s.account).2
    books := s.books.note l s.account o
    threads := relieve o (s.threads.set i { th with prog := next (o.run clock s.account).1 }) }

/-- A call returns: a counted slot is handed out. -/
def State.hand (s : State) : Outcome → State
  | .reserved (.counted (some w)) => { s with slots := update s.slots w (s.slots w + 1) }
  | .reserved (.counted none) => { s with uncounted := s.uncounted + 1 }
  | _ => s

def step (l : Lockout) : Event → State → Option State
  | .call c, s =>
    match c.slot? with
    | some slot => (s.report slot).map (State.start l · c)
    | none => some (s.start l c)
  | .step i clock, s =>
    match s.threads[i]? with
    | some ⟨shut, .op o next⟩ => some (s.act l i clock ⟨shut, .op o next⟩ o next)
    | _ => none
  | .finish i, s =>
    match s.threads[i]? with
    | some ⟨_, .ret out⟩ => some (({ s with threads := s.threads.eraseIdx i } : State).hand out)
    | _ => none

/-- An account nobody called on. -/
def fresh : State where
  account := ⟨false, none, fun _ => none, fun _ => none⟩
  books := ⟨fun _ => false, fun _ => false, fun _ => 0, fun _ => 0, fun _ => false⟩
  slots := fun _ => 0
  uncounted := 0
  threads := []

/-- What the tracker promises of a state. -/
structure Bounded (l : Lockout) (s : State) : Prop where
  /-- The slots of a window never exceed the threshold. -/
  slots : ∀ w, s.slots w ≤ l.maxAttempts
  /-- With no call in progress the current window's counter is its failures and its slots. -/
  counter : s.threads = [] → ∀ w, s.account.window = some w →
    (s.account.attempts w).getD 0 = s.books.reported w + s.slots w
  /-- With no call in progress an account that owes a lock has it. -/
  locks : s.threads = [] → ∀ w, s.books.owed w = true → s.account.locked = true
  /-- No call that started after a lock returns a counted slot while the lock lasts. -/
  shut : ∀ th ∈ s.threads, th.shut = true → ∀ slot, th.prog ≠ .ret (.reserved (.counted slot))

/-- A step the promise rests on: no slot is counted in a window whose counter was deleted, no window
is opened twice, and in a window that was not cleared no failure is reported for an attempt that was
never counted, nor one that brings both kinds of failures to `max_attempts` but not its own. -/
def Sound (l : Lockout) (s : State) : CacheOp → Prop
  | .incrAttempts w .reserve => s.books.wiped w = false
  | .addWindow w => s.account.window = none → s.books.opened w = false
  | .incrFailures w counted => s.books.wiped w = false →
    counted = true ∧ (l.maxAttempts ≤ s.books.reported w + 1 → l.maxAttempts ≤ s.books.failed w + 1)
  | _ => True

instance (l : Lockout) (s : State) (o : CacheOp) : Decidable (Sound l s o) :=
  match o with
  | .incrAttempts w .reserve => inferInstanceAs (Decidable (s.books.wiped w = false))
  | .addWindow w => inferInstanceAs (Decidable (s.account.window = none → s.books.opened w = false))
  | .incrFailures w counted => inferInstanceAs (Decidable (s.books.wiped w = false → counted = true ∧
      (l.maxAttempts ≤ s.books.reported w + 1 → l.maxAttempts ≤ s.books.failed w + 1)))
  | .incrAttempts _ .failure | .incrAttempts _ .giveBack | .incrAttempts _ .undo | .existsLock
  | .setLock | .deleteLock | .getWindow | .now | .deleteWindow | .getFailures _ | .deleteAttempts _
  | .deleteFailures _ => isTrue trivial

/-- Every step but those of an operation that is not sound. -/
def Allowed (l : Lockout) : Event → State → Prop
  | .step i _, s =>
    match s.threads[i]? with
    | some ⟨_, .op o _⟩ => Sound l s o
    | _ => True
  | _, _ => True

instance (l : Lockout) (e : Event) (s : State) : Decidable (Allowed l e s) :=
  match e with
  | .step i _ =>
    match h : s.threads[i]? with
    | some ⟨_, .op o _⟩ => decidable_of_iff (Sound l s o) (by simp [Allowed, h])
    | some ⟨_, .ret _⟩ => isTrue (by simp [Allowed, h])
    | none => isTrue (by simp [Allowed, h])
  | .call _ | .finish _ => isTrue trivial

end Rustango.AccountLockout
