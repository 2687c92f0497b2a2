import Mathlib.Logic.Function.Basic
import Rustango.Lib.Runs

/-!
# The database job queue

The table `rustango_jobs`, the workers and the reclaim sweeps that share it, and a log of what was
done to each job. A step is one SQL statement or one move of a worker between two statements; a
clock reading comes with the step that makes it, so clocks may disagree.
-/

namespace Rustango.Jobs

open Function

variable {W S : Type}

/-- A row of `rustango_jobs`. The times are in milliseconds. -/
structure Row (W : Type) where
  name : String
  payload : String
  attempt : Int
  maxAttempts : Int
  runAt : Int
  lockedAt : Option Int
  lockedBy : Option W
  lastError : Option String
  queueName : Option String
deriving DecidableEq, Repr

/-- What a worker knows of the row it picked. -/
structure PickedJob where
  id : Nat
  name : String
  payload : String
  attempt : Int
  maxAttempts : Int
deriving DecidableEq, Repr

/-- Which rows a queue claims. -/
inductive QueueFilter where
  /-- A table without `queue_name`. -/
  | all
  | unnamed
  | named (name : String)
deriving DecidableEq, Repr

def QueueFilter.admits : QueueFilter → Option String → Bool
  | .all, _ => true
  | .unnamed, queueName => queueName.isNone
  | .named name, queueName => queueName = some name

inductive JobError where
  | retryable (message : String)
  | fatal (message : String)
  | queue (message : String)
deriving DecidableEq, Repr

/-- The error as it is displayed. -/
def JobError.text : JobError → String
  | .retryable message => "retryable: " ++ message
  | .fatal message => "fatal: " ++ message
  | .queue message => "queue error: " ++ message

/-- One run's result, and the wait before its retry should it fail. -/
structure Ran where
  result : Except JobError Unit
  retryIn : Nat

/-- A finished run's next step. -/
inductive Next where
  | done
  | retry (wait : Nat) (error : String)
  | deadLetter (error : String)
deriving DecidableEq, Repr

/-- `runs` finished runs leave no attempt for another. -/
def attemptsSpent (runs maxAttempts : Nat) : Bool := runs ≥ max maxAttempts 1

/-- `runs` counts this run. -/
def Ran.next (ran : Ran) (runs maxAttempts : Nat) : Next :=
  match ran.result with
  | .ok () => .done
  | .error (.retryable error) =>
    if !attemptsSpent runs maxAttempts then .retry ran.retryIn error else .deadLetter error
  | .error e => .deadLetter e.text

/-- How far a worker has come. -/
inductive Phase where
  | stopped
  | idle
  | picked (job : PickedJob)
  | unpicking (job : PickedJob)
  | givingBack (job : PickedJob)
  /-- The handler runs; `leaseGone` once a heartbeat found the row taken. -/
  | running (job : PickedJob) (leaseGone : Bool)
  | finishing (job : PickedJob)
  | retrying (job : PickedJob) (nextRun : Int) (error : String)
  /-- In `handle_dead_letter`, before the lease is confirmed. -/
  | confirming (job : PickedJob) (error : String)
  | confirmed (job : PickedJob) (error : String)
  /-- The callback was called; the row is deleted after it returns. -/
  | calledBack (job : PickedJob)
  | aborted
  | crashed
deriving DecidableEq, Repr

/-- The job a worker has in hand. -/
def Phase.job? : Phase → Option PickedJob
  | .picked job | .unpicking job | .givingBack job | .running job _ | .finishing job
  | .retrying job _ _ | .confirming job _ | .confirmed job _ | .calledBack job => some job
  | .stopped | .idle | .aborted | .crashed => none

/-- What was done to a job. -/
inductive Entry (W : Type) where
  | dispatched (id : Nat) (maxAttempts : Int)
  | picked (id : Nat) (x : W)
  | refunded (id : Nat)
  /-- A handler was started, in this attempt. -/
  | started (id : Nat) (attempt : Int)
  /-- A run returned `Ok`; `held` when the row was still the worker's. -/
  | returnedOk (id : Nat) (x : W) (held : Bool)
  /-- The job was dead-lettered; `called` when a callback is set. -/
  | deadLettered (id : Nat) (x : W) (called : Bool)
deriving DecidableEq, Repr

/-- A reclaim sweep between its `SELECT` and its last `UPDATE`. -/
structure Sweep where
  cutoff : Int
  ids : List Nat
deriving DecidableEq, Repr

structure World (W S : Type) where
  rows : Nat → Option (Row W)
  /-- The id of the next row inserted. -/
  next : Nat
  phase : W → Phase
  stop : W → Bool
  sweep : S → Option Sweep
  /-- Latest first. -/
  log : List (Entry W)

def World.initial : World W S :=
  ⟨fun _ => none, 0, fun _ => .stopped, fun _ => false, fun _ => none, []⟩

/-- What a producer stores. -/
structure Dispatch where
  name : String
  payload : String
  maxAttempts : Int
  runAt : Int
  queueName : Option String
deriving DecidableEq, Repr

def Dispatch.row (d : Dispatch) : Row W :=
  ⟨d.name, d.payload, 0, d.maxAttempts, d.runAt, none, none, none, d.queueName⟩

variable [DecidableEq W]

/-- The row is locked by the worker. -/
def World.holds (w : World W S) (x : W) (id : Nat) : Bool :=
  (w.rows id).any fun r => r.lockedBy = some x

/-- A write `… WHERE id = <id> AND locked_by = <x>`; `none` deletes the row. -/
def World.writeHeld (w : World W S) (x : W) (id : Nat) (f : Row W → Option (Row W)) : World W S :=
  { w with rows := fun i => (w.rows i).bind fun r =>
      if i = id ∧ r.lockedBy = some x then f r else some r }

def World.setPhase (w : World W S) (x : W) (p : Phase) : World W S :=
  { w with phase := update w.phase x p }

def World.note (w : World W S) (e : Entry W) : World W S := { w with log := e :: w.log }

def Row.unlock (r : Row W) : Row W := { r with lockedAt := none, lockedBy := none }

/-- The longest prefix of at most `n` bytes. -/
def clipChars : List Char → Nat → List Char
  | [], _ => []
  | c :: cs, n => if c.utf8Size ≤ n then c :: clipChars cs (n - c.utf8Size) else []

def clip (s : String) (n : Nat) : String := String.ofList (clipChars s.toList n)

/-- What MySQL's `TEXT` holds. -/
def lastErrorMaxBytes : Nat := 65535

/-- `pick_one` takes this row; it may have skipped others locked by a pickup in progress. -/
def pick (w : World W S) (x : W) (filter : QueueFilter) (id : Nat) (now : Int) :
    Option (PickedJob × World W S) :=
  match w.rows id with
  | none => none
  | some r =>
    if r.lockedAt = none ∧ r.runAt ≤ now ∧ filter.admits r.queueName then
      let row := { r with lockedAt := some now, lockedBy := some x, attempt := r.attempt + 1 }
      some (⟨id, r.name, r.payload, row.attempt, r.maxAttempts⟩,
        { w with rows := update w.rows id (some row) }.note (.picked id x))
    else none

/-- From the pickup to the handler: the stop signal, the registry and the attempts are looked at. -/
def look (w : World W S) (x : W) (registered : Bool) (job : PickedJob) : World W S :=
  if w.stop x then w.setPhase x (.unpicking job)
  else if !registered then w.setPhase x (.givingBack job)
  else if attemptsSpent (job.attempt.toNat - 1) job.maxAttempts.toNat then
    w.setPhase x (.confirming job "no attempts left: an earlier run stopped without finishing")
  else (w.setPhase x (.running job false)).note (.started job.id job.attempt)

/-- The handler returns. -/
def returned (w : World W S) (x : W) (now : Int) (ran : Ran) (job : PickedJob) (leaseGone : Bool) :
    World W S :=
  let w := match ran.result with
    | .ok () => w.note (.returnedOk job.id x (w.holds x job.id))
    | .error _ => w
  if leaseGone then w.setPhase x .idle
  else match ran.next job.attempt.toNat job.maxAttempts.toNat with
    | .done => w.setPhase x (.finishing job)
    | .retry wait error => w.setPhase x (.retrying job (now + wait) error)
    | .deadLetter error => w.setPhase x (.confirming job error)

/-- The statement a worker is at, at the time `now`; none of it is done when it fails. -/
def statement (w : World W S) (x : W) (now : Int) (ok : Bool) : Option (World W S) :=
  match w.phase x with
  | .unpicking job =>
    some ((if ok then refund job fun r => { r.unlock with attempt := r.attempt - 1 } else w).setPhase
      x .idle)
  | .givingBack job =>
    some ((if ok then refund job fun r => { r with attempt := r.attempt - 1 } else w).setPhase
      x .idle)
  | .finishing job | .calledBack job =>
    some ((if ok then w.writeHeld x job.id fun _ => none else w).setPhase x .idle)
  | .retrying job nextRun error =>
    some ((if ok then w.writeHeld x job.id fun r =>
      some { r.unlock with
        runAt := nextRun, lastError := some (clip error lastErrorMaxBytes) } else w).setPhase x .idle)
  | .confirming job error =>
    if ok && !w.holds x job.id then some (w.setPhase x .idle)
    else some ((if ok then w.writeHeld x job.id fun r => some { r with lockedAt := some now }
      else w).setPhase x (.confirmed job error))
  | _ => none
where
  refund (job : PickedJob) (f : Row W → Row W) : World W S :=
    if w.holds x job.id then (w.writeHeld x job.id (some ∘ f)).note (.refunded job.id) else w

/-- The heartbeat task of the worker, which may outlive its run by a statement. -/
def beat (w : World W S) (x : W) (id : Nat) (now : Int) : World W S :=
  let w' := w.writeHeld x id fun r => some { r with lockedAt := some now }
  match w.phase x with
  | .running job _ => if job.id = id ∧ !w.holds x id then w'.setPhase x (.running job true) else w'
  | _ => w'

/-- `release_worker_rows`. -/
def releaseRows (w : World W S) (x : W) : World W S :=
  { w with rows := fun id => (w.rows id).map fun r => if r.lockedBy = some x then r.unlock else r }

inductive Event (W S : Type) where
  | dispatch (d : Dispatch)
  | start (x : W)
  /-- The stop signal reaches the worker. -/
  | stop (x : W)
  | leave (x : W)
  /-- `kept` is false when the row is picked and the worker does not get it. -/
  | pick (x : W) (id : Nat) (now : Int) (kept : Bool)
  | look (x : W) (registered : Bool)
  | returned (x : W) (now : Int) (ran : Ran)
  | statement (x : W) (now : Int) (ok : Bool)
  | callBack (x : W) (called : Bool)
  | beat (x : W) (id : Nat) (now : Int)
  /-- The shutdown's grace is over. -/
  | abort (x : W)
  | release (x : W) (ok : Bool)
  | crash (x : W)
  | select (s : S) (now : Int)
  | reclaim (s : S) (ok : Bool)
  | endSweep (s : S)

/-- The settings of the workers and of the sweeps. -/
structure Config (W S : Type) where
  queue : W → QueueFilter
  olderThan : S → Int

variable [DecidableEq S]

/-- The ids a sweep selects. -/
def stale (w : World W S) (cutoff : Int) : List Nat :=
  (List.range w.next).filter fun id =>
    (w.rows id).any fun r => r.lockedAt.any fun lockedAt => lockedAt < cutoff

/-- The guarded `UPDATE` of a sweep. -/
def reclaimRow (w : World W S) (cutoff : Int) (id : Nat) : World W S :=
  { w with rows := fun i => (w.rows i).map fun r =>
      if i = id ∧ (r.lockedAt.any fun lockedAt => lockedAt < cutoff) then r.unlock else r }

def step (cfg : Config W S) : Event W S → World W S → Option (World W S)
  | .dispatch d, w =>
    some ({ w with rows := update w.rows w.next (some d.row), next := w.next + 1 }.note
      (.dispatched w.next d.maxAttempts))
  | .start x, w =>
    if w.phase x = .stopped then some { w.setPhase x .idle with stop := update w.stop x false }
    else none
  | .stop x, w => some { w with stop := update w.stop x true }
  | .leave x, w => if w.phase x = .idle ∧ w.stop x then some (w.setPhase x .stopped) else none
  | .pick x id now kept, w =>
    if w.phase x = .idle then
      (pick w x (cfg.queue x) id now).map fun next =>
        if kept then next.2.setPhase x (.picked next.1) else next.2
    else none
  | .look x registered, w =>
    match w.phase x with
    | .picked job => some (look w x registered job)
    | _ => none
  | .returned x now ran, w =>
    match w.phase x with
    | .running job leaseGone => some (returned w x now ran job leaseGone)
    | _ => none
  | .statement x now ok, w => statement w x now ok
  | .callBack x called, w =>
    match w.phase x with
    | .confirmed job _ =>
      some ((w.setPhase x (.calledBack job)).note (.deadLettered job.id x called))
    | _ => none
  | .beat x id now, w => some (beat w x id now)
  | .abort x, w =>
    if w.phase x = .stopped ∨ w.phase x = .crashed then none else some (w.setPhase x .aborted)
  | .release x ok, w =>
    if w.phase x = .aborted then
      some ((if ok then releaseRows w x else w).setPhase x .stopped)
    else none
  | .crash x, w => some (w.setPhase x .crashed)
  | .select s now, w =>
    let cutoff := now - cfg.olderThan s
    some { w with sweep := update w.sweep s (some ⟨cutoff, stale w cutoff⟩) }
  | .reclaim s ok, w =>
    match w.sweep s with
    | some ⟨cutoff, id :: ids⟩ =>
      some { (if ok then reclaimRow w cutoff id else w) with
        sweep := update w.sweep s (if ok then some ⟨cutoff, ids⟩ else none) }
    | _ => none
  | .endSweep s, w => some { w with sweep := update w.sweep s none }

end Rustango.Jobs
