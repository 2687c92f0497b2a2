import Mathlib.Logic.Function.Basic
import Rustango.Lib.Runs
import Rustango.DistributedLock.Lock

/-!
# Pods that share a lock

Any number of calls of `once_per_period` on one name take their operations one at a time while time
goes on. A call may be dropped between any two of them.
-/

namespace Rustango.DistributedLock

open Function Rustango.Threads

variable {F : Fleet}

/-- A stored value and the moment it expires. -/
structure Entry where
  token : Token
  expires : Nat
deriving DecidableEq, Repr

abbrev Cache := Key → Option Entry

/-- The entry of a key, unless it expired. -/
def Cache.live (c : Cache) (now : Nat) (key : Key) : Option Entry :=
  (c key).filter fun e => now < e.expires

/-- What an operation answers and makes of the cache; a body ends as it will. -/
def Op.run (now : Nat) (ending : Ending) (c : Cache) : (o : Op) → o.Answer × Cache
  | .add key token ttl =>
    if (c.live now key).isSome then (false, c)
    else (true, update c key (some ⟨token, now + ttl⟩))
  | .get key => ((c.live now key).map (·.token), c)
  | .delete key => ((), update c key none)
  | .enter => ((), c)
  | .leave => (ending, c)

/-- A call in progress, or the task that releases its locks after it was dropped. `running` while its
body runs; `runUntil` is when the job's lock, once taken, expires. -/
structure Thread (F : Fleet) where
  call : Call F
  running : Bool
  runUntil : Nat
  prog : LockProg (Option Ending)

/-- `oks` are the calls whose body ended with `Ok`. -/
structure State (F : Fleet) where
  now : Nat
  cache : Cache
  threads : List (Thread F)
  oks : List (Call F)

inductive Event (F : Fleet) where
  | tick (now : Nat)
  | call (pod : F.Pod) (windowToken runToken : Token)
  | step (i : Nat) (ending : Ending)
  | finish (i : Nat)
  | drop (i : Nat)

/-- What an operation means to the thread that takes it. -/
def Thread.after (now : Nat) (th : Thread F) : (o : Op) → o.Answer → Thread F
  | .add ⟨.plain, false⟩ _ ttl, true => { th with runUntil := now + ttl }
  | .enter, _ => { th with running := true }
  | .leave, _ => { th with running := false }
  | _, _ => th

/-- A body that ends with `Ok` is noted. -/
def noteOk (c : Call F) (oks : List (Call F)) : (o : Op) → o.Answer → List (Call F)
  | .leave, .ok => c :: oks
  | _, _ => oks

/-- The thread at `i` takes an operation. -/
def State.act (s : State F) (i : Nat) (ending : Ending) (th : Thread F) (o : Op)
    (next : o.Answer → LockProg (Option Ending)) : State F :=
  let ans := (o.run s.now ending s.cache).1
  { s with
    cache := (o.run s.now ending s.cache).2
    threads := s.threads.set i { th.after s.now o ans with prog := next ans }
    oks := noteOk th.call s.oks o ans }

/-- A call is dropped: in its body, a task releases its locks. -/
def State.dropAt (s : State F) (i : Nat) (th : Thread F) : State F :=
  if th.running then
    { s with threads := s.threads.set i { th with running := false, prog := th.call.cleanup } }
  else { s with threads := s.threads.eraseIdx i }

def step : Event F → State F → Option (State F)
  | .tick now, s => if s.now ≤ now then some { s with now := now } else none
  | .call pod windowToken runToken, s =>
    let c : Call F := ⟨pod, F.window pod s.now, windowToken, runToken⟩
    some { s with threads := s.threads ++ [⟨c, false, 0, c.onceInWindow⟩] }
  | .step i ending, s =>
    match s.threads[i]? with
    | some ⟨call, running, runUntil, .op o next⟩ =>
      some (s.act i ending ⟨call, running, runUntil, .op o next⟩ o next)
    | _ => none
  | .finish i, s =>
    match s.threads[i]? with
    | some ⟨_, _, _, .ret _⟩ => some { s with threads := s.threads.eraseIdx i }
    | _ => none
  | .drop i, s => (s.threads[i]?).map (s.dropAt i)

/-- A name nobody called yet. -/
def fresh : State F := ⟨0, fun _ => none, [], []⟩

/-- The two keys of a window. -/
def windowKey (window : Nat) (legacy : Bool) : Key := ⟨.at_ window, legacy⟩

/-- The key of the job's lock. -/
def runKey : Key := ⟨.plain, false⟩

/-- What `once_per_period` promises of a state. -/
structure Once (s : State F) : Prop where
  /-- At most one body of a window ends with `Ok`. -/
  once : (s.oks.map (·.window)).Nodup
  /-- No two bodies run at the same time. -/
  alone : ∀ (i j : Nat) (th th' : Thread F), s.threads[i]? = some th → s.threads[j]? = some th' →
    th.running = true → th'.running = true → i = j
  /-- A window's lock is held by a call at work, or by one whose body ended with `Ok`. -/
  kept : ∀ window legacy e, s.cache.live s.now (windowKey window legacy) = some e →
    ∃ c : Call F, c.window = window ∧ c.windowToken = e.token ∧
      (c ∈ s.oks ∨ ∃ th ∈ s.threads, th.call = c)

/-- The clock of a pod, not before the epoch, is in a window. -/
def Fleet.InWindow (F : Fleet) (p : F.Pod) (now window : Nat) : Prop :=
  (window * F.period : Int) ≤ now + F.offset p ∧ now + F.offset p < (window + 1) * F.period

instance (p : F.Pod) (now window : Nat) : Decidable (F.InWindow p now window) :=
  inferInstanceAs (Decidable (_ ∧ _))

/-- An operation the promise rests on: a window's lock is taken while the pod's clock shows that
window, a body starts before the job's lock expires, and the job's lock is not released once it
expired and another call took it. -/
def Sound (s : State F) (th : Thread F) : Op → Prop
  | .add ⟨.at_ window, false⟩ _ _ => F.InWindow th.call.pod s.now window
  | .enter => s.now < th.runUntil
  | .delete ⟨.plain, false⟩ => ∀ e ∈ s.cache.live s.now runKey, e.token = th.call.runToken
  | _ => True

instance (s : State F) (th : Thread F) (o : Op) : Decidable (Sound s th o) :=
  match o with
  | .add ⟨.at_ window, false⟩ _ _ =>
    inferInstanceAs (Decidable (F.InWindow th.call.pod s.now window))
  | .enter => inferInstanceAs (Decidable (s.now < th.runUntil))
  | .delete ⟨.plain, false⟩ =>
    inferInstanceAs (Decidable (∀ e ∈ s.cache.live s.now runKey, e.token = th.call.runToken))
  | .add ⟨.at_ _, true⟩ _ _ | .add ⟨.plain, _⟩ _ _ | .get _ | .delete ⟨.at_ _, _⟩
  | .delete ⟨.plain, true⟩ | .leave => isTrue trivial

/-- The keys of its window hold the token of a call. -/
def HoldsWindow (s : State F) (c : Call F) : Prop :=
  ∃ legacy : Bool, ∃ e ∈ s.cache.live s.now (windowKey c.window legacy), e.token = c.windowToken

instance (s : State F) (c : Call F) : Decidable (HoldsWindow s c) :=
  decidable_of_iff (∃ legacy ∈ [true, false],
    ∃ e ∈ s.cache.live s.now (windowKey c.window legacy), e.token = c.windowToken)
    ⟨fun ⟨l, _, h⟩ => ⟨l, h⟩, fun ⟨l, h⟩ => ⟨l, by cases l <;> simp, h⟩⟩

/-- A step the promise rests on: time does not take a body past the job's lock, no two calls at work
have the same token, and no call is dropped while it holds its window's lock, but in its body or
after it ended with `Ok`. -/
def Allowed : Event F → State F → Prop
  | .tick now, s => ∀ th ∈ s.threads, th.running = true → now < th.runUntil
  | .call _ _ runToken, s => ∀ th ∈ s.threads, th.call.runToken ≠ runToken
  | .step i _, s => ∀ th ∈ s.threads[i]?, ∀ o ∈ th.prog.op?, Sound s th o
  | .finish _, _ => True
  | .drop i, s => ∀ th ∈ s.threads[i]?, th.running = true ∨ th.call ∈ s.oks ∨
      ¬ HoldsWindow s th.call

instance [DecidableEq F.Pod] : DecidableEq (Call F) := fun c d =>
  decidable_of_iff (c.pod = d.pod ∧ c.window = d.window ∧ c.windowToken = d.windowToken ∧
    c.runToken = d.runToken) (by cases c; cases d; simp)

instance [DecidableEq F.Pod] (e : Event F) (s : State F) : Decidable (Allowed e s) :=
  match e with
  | .tick _ | .call _ _ _ | .step _ _ | .drop _ => by unfold Allowed; infer_instance
  | .finish _ => isTrue trivial

end Rustango.DistributedLock
