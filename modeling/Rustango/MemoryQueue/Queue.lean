import Rustango.Lib.Runs
import Rustango.Jobs.Queue

/-!
# The in-memory job queue

A channel, the workers of one run with the job each has in its slot, and the timers of parked jobs.
A step is what a task does between two of its awaits. A job counts as dispatched when it is
enqueued; inside an `atomic` block that is at the commit.
-/

namespace Rustango.MemoryQueue

open Rustango.Jobs (Ran Next JobError attemptsSpent)

/-- A job as it is queued. -/
structure JobEnvelope where
  name : String
  id : Nat
  payload : String
  attempt : Nat
  maxAttempts : Nat
  /-- A parked retry's due time. -/
  notBefore : Option Nat
deriving DecidableEq, Repr

/-- One registered job type: its payload as this release writes it. -/
structure Registered where
  currentShape : String → String

structure JobDeadLetter where
  name : String
  payload : String
  attempts : Nat
  error : String
deriving DecidableEq, Repr

/-- Where a worker awaits. -/
inductive Await where
  /-- The stop signal or the next job. -/
  | selecting
  /-- The registry, to find the handler. -/
  | lookingUp (job : JobEnvelope)
  | running (entry : Registered) (job : JobEnvelope)
  /-- The registry, for the dead letter of a job whose attempts are spent. -/
  | spent (job : JobEnvelope)
  /-- The callback's lock. -/
  | lettering (job : JobEnvelope) (letter : JobDeadLetter)
  | inCallback (job : JobEnvelope)
  | returned
  | aborted
  /-- Its task panicked. -/
  | dead

/-- A worker and its `current` slot. -/
structure Worker where
  at_ : Await
  current : Option JobEnvelope

/-- How far `shutdown` has come. -/
inductive Stage where
  | live
  /-- The stop signal is set. -/
  | stopping
deriving DecidableEq, Repr

structure Run where
  stage : Stage
  workers : List Worker

/-- The queue, and a log: the jobs dispatched, those done, those handed to the dead-letter path (for
spent attempts, or not), the handlers started, the runs that returned `Ok` and the dead letters whose
callback ended or that had none. -/
structure State where
  now : Nat
  channel : List JobEnvelope
  registry : String → Option Registered
  callback : Bool
  timers : List JobEnvelope
  run : Option Run
  pending : Int
  dispatched : List JobEnvelope
  done : List JobEnvelope
  handed : List (JobEnvelope × Bool)
  started : List Nat
  okRuns : List Nat
  delivered : List Nat

def State.initial : State where
  now := 0
  channel := []
  registry := fun _ => none
  callback := false
  timers := []
  run := none
  pending := 0
  dispatched := []
  done := []
  handed := []
  started := []
  okRuns := []
  delivered := []

/-- Counts the job pending and queues it. -/
def State.enqueue (s : State) (job : JobEnvelope) : State :=
  { s with pending := s.pending + 1, channel := s.channel ++ [job] }

/-- Holds the job until its time. -/
def State.park (s : State) (job : JobEnvelope) (until_ : Nat) : State :=
  { s with timers := s.timers ++ [{ job with notBefore := some until_ }] }

def State.setWorker (s : State) (i : Nat) (w : Worker) : State :=
  { s with run := s.run.map fun run => { run with workers := run.workers.set i w } }

/-- The job leaves the queue for the dead-letter path. -/
def State.hand (s : State) (job : JobEnvelope) (spent : Bool) : State :=
  { s with pending := s.pending - 1, handed := (job, spent) :: s.handed }

/-- The job is done. -/
def State.finish (s : State) (job : JobEnvelope) : State :=
  { s with pending := s.pending - 1, done := job :: s.done }

/-- A run that returned `Ok` is noted. -/
def State.noteRun (s : State) (job : JobEnvelope) (ran : Ran) : State :=
  if ran.result.isOk then { s with okRuns := job.id :: s.okRuns } else s

def Registered.deadLetter (entry : Registered) (job : JobEnvelope) (attempts : Nat)
    (error : String) : JobDeadLetter :=
  ⟨job.name, entry.currentShape job.payload, attempts, error⟩

/-- `dead_letter_job`, as far as the callback's lock. -/
def letter (entry : Option Registered) (job : JobEnvelope) (attempts : Nat) (error : String) :
    JobDeadLetter :=
  match entry with
  | some entry => entry.deadLetter job attempts error
  | none => ⟨job.name, job.payload, attempts, error⟩

/-- A worker takes a job: it is parked again, dead-lettered or looked up. -/
def State.receive (s : State) (i : Nat) (job : JobEnvelope) (rest : List JobEnvelope) : State :=
  let s := { s with channel := rest }
  match job.notBefore.filter fun t => s.now < t with
  | some until_ => (s.park job until_).setWorker i ⟨.selecting, none⟩
  | none =>
    if attemptsSpent job.attempt job.maxAttempts then
      (s.hand job true).setWorker i ⟨.spent job, none⟩
    else s.setWorker i ⟨.lookingUp job, some job⟩

/-- The handler is started, where there is one. -/
def State.found (s : State) (i : Nat) (job : JobEnvelope) : State :=
  match s.registry job.name with
  | none =>
    (s.hand job false).setWorker i
      ⟨.lettering job (letter none job job.attempt "no handler registered"), none⟩
  | some entry =>
    { s with started := job.id :: s.started }.setWorker i ⟨.running entry job, some job⟩

/-- A handler ended. -/
def State.ended (s : State) (i : Nat) (entry : Registered) (job : JobEnvelope) (ran : Ran) : State :=
  let runs := job.attempt + 1
  match ran.next runs job.maxAttempts with
  | .done => (s.finish job).setWorker i ⟨.selecting, none⟩
  | .retry backoff _ =>
    (s.park { job with attempt := runs } (s.now + backoff)).setWorker i ⟨.selecting, none⟩
  | .deadLetter error =>
    (s.hand job false).setWorker i ⟨.lettering job (letter (some entry) job runs error), none⟩

/-- The dead letter is delivered, or logged where there is no callback. -/
def State.deliver (s : State) (i : Nat) (job : JobEnvelope) : State :=
  { s with delivered := job.id :: s.delivered }.setWorker i ⟨.selecting, none⟩

/-- What a worker does up to its next await; `ran` is what a handler returns. -/
def State.work (s : State) (i : Nat) (w : Worker) (stopped : Bool) (ran : Ran) : Option State :=
  match w.at_ with
  | .selecting =>
    if stopped then some (s.setWorker i ⟨.returned, none⟩)
    else match s.channel with
      | [] => none
      | job :: rest => some (s.receive i job rest)
  | .lookingUp job => some (s.found i job)
  | .running entry job => some ((s.noteRun job ran).ended i entry job ran)
  | .spent job =>
    some (s.setWorker i ⟨.lettering job (letter (s.registry job.name) job job.attempt
      "attempts spent by runs aborted at shutdown"), none⟩)
  | .lettering job _ =>
    if s.callback then some (s.setWorker i ⟨.inCallback job, none⟩) else some (s.deliver i job)
  | .inCallback job => some (s.deliver i job)
  | .returned | .aborted | .dead => none

inductive Event where
  | tick (now : Nat)
  | register (name : String) (entry : Registered)
  | onDeadLetter
  | dispatch (job : JobEnvelope)
  | start
  | work (worker : Nat) (ran : Ran)
  /-- A backoff hook panics, or a handler's closure does before it returns its future: neither is caught. -/
  | die (worker : Nat)
  | fire (timer : Nat)
  | shutdown
  | abort (worker : Nat)
  | requeue (worker : Nat)
  | close

/-- The worker's task has ended. -/
def Await.ended : Await → Bool
  | .returned | .aborted | .dead => true
  | _ => false

/-- The slot of an aborted worker that was not emptied yet. -/
def Worker.left (w : Worker) : Option JobEnvelope :=
  match w.at_ with
  | .aborted => w.current
  | _ => none

def State.stopped (s : State) : Bool := s.run.any fun run => run.stage = .stopping

def State.worker? (s : State) (i : Nat) : Option Worker := s.run.bind fun run => run.workers[i]?

/-- `shutdown_grace` may be anything, so a worker may be aborted any time after the signal; jobs
dispatched have an id of their own. -/
def step (workerCount : Nat) : Event → State → Option State
  | .tick now, s => if s.now ≤ now then some { s with now := now } else none
  | .register name entry, s =>
    some { s with registry := fun n => if n = name then some entry else s.registry n }
  | .onDeadLetter, s => some { s with callback := true }
  | .dispatch job, s =>
    if (s.registry job.name).isSome ∧ job.attempt = 0 ∧ job.notBefore = none ∧
        job.id ∉ s.dispatched.map (·.id) then
      some { s.enqueue job with dispatched := job :: s.dispatched }
    else none
  | .start, s =>
    if s.run.isSome then some s
    else some { s with run := some ⟨.live, List.replicate workerCount ⟨.selecting, none⟩⟩ }
  | .work i ran, s => (s.worker? i).bind fun w => s.work i w s.stopped ran
  | .die i, s =>
    match s.worker? i with
    | some ⟨.running _ _, current⟩ => some (s.setWorker i ⟨.dead, current⟩)
    | _ => none
  | .fire i, s =>
    (s.timers[i]?).bind fun job =>
      if job.notBefore.all (· ≤ s.now) ∨ s.stopped then
        some { s with timers := s.timers.eraseIdx i, channel := s.channel ++ [job] }
      else none
  | .shutdown, s => s.run.map fun run => { s with run := some { run with stage := .stopping } }
  | .abort i, s =>
    (s.worker? i).bind fun w =>
      if s.stopped ∧ !w.at_.ended then some (s.setWorker i ⟨.aborted, w.current⟩) else none
  | .requeue i, s =>
    s.run.bind fun run =>
      if run.workers.all (·.at_.ended) then
        (run.workers[i]?).bind fun w => w.left.map fun job =>
          ({ s with channel := s.channel ++ [{ job with attempt := job.attempt + 1 }] } :
            State).setWorker i ⟨.aborted, none⟩
      else none
  | .close, s =>
    s.run.bind fun run =>
      if run.stage = .stopping ∧ run.workers.all (fun w => w.at_.ended ∧ w.left.isNone) ∧
          s.timers = [] then some { s with run := none }
      else none

def State.workers (s : State) : List Worker := s.run.elim [] (·.workers)

/-- The jobs in slots. -/
def State.held (s : State) : List JobEnvelope := s.workers.filterMap (·.current)

/-- The owner of every job: the channel, a slot, a timer, or it is done or handed over. -/
def State.owned (s : State) : List Nat :=
  s.channel.map (·.id) ++ s.held.map (·.id) ++ s.timers.map (·.id) ++ s.done.map (·.id) ++
    s.handed.map (·.1.id)

/-- The job whose dead letter a worker is about to deliver. -/
def Worker.delivers (w : Worker) : Option Nat :=
  match w.at_ with
  | .spent job | .lettering job _ | .inCallback job => some job.id
  | _ => none

structure Conserved (s : State) : Prop where
  /-- Each job dispatched has one owner, and no other job has one. -/
  one : ∀ job ∈ s.dispatched, s.owned.count job.id = 1
  only : ∀ id ∈ s.owned, id ∈ s.dispatched.map (·.id)
  pending : s.pending = s.channel.length + s.held.length + s.timers.length
  /-- A job is done only by a run that returned `Ok`. -/
  done : ∀ job ∈ s.done, job.id ∈ s.okRuns
  /-- A job handed over had its dead letter delivered, or a worker is about to. -/
  delivered : ∀ p ∈ s.handed, p.1.id ∈ s.delivered ∨ ∃ w ∈ s.workers, w.delivers = some p.1.id
  /-- A handler is started once for each attempt at most. -/
  attempts : ∀ job ∈ s.dispatched, s.started.count job.id ≤ max 1 job.maxAttempts
  /-- A job whose attempts are spent was started. -/
  once : ∀ p ∈ s.handed, p.2 = true → p.1.id ∈ s.started

/-- A worker may be aborted where its job is safe: not on the way to the dead-letter callback, and
while it looks up a handler only if that does not spend the last attempt of a job never started. -/
def AbortSafe (s : State) (w : Worker) : Prop :=
  match w.at_ with
  | .spent _ | .lettering _ _ | .inCallback _ => False
  | .lookingUp job => attemptsSpent (job.attempt + 1) job.maxAttempts → job.id ∈ s.started
  | _ => True

instance (s : State) (w : Worker) : Decidable (AbortSafe s w) := by
  unfold AbortSafe
  split <;> infer_instance

/-- The steps the promise rests on: aborts that are safe, and no task that panics in a hook. -/
def Allowed : Event → State → Prop
  | .die _, _ => False
  | .abort i, s => ∀ w ∈ s.worker? i, AbortSafe s w
  | _, _ => True

instance (e : Event) (s : State) : Decidable (Allowed e s) :=
  match e with
  | .die _ => isFalse id
  | .abort i => inferInstanceAs (Decidable (∀ w ∈ s.worker? i, AbortSafe s w))
  | .tick _ | .register _ _ | .onDeadLetter | .dispatch _ | .start | .work _ _ | .fire _
  | .shutdown | .requeue _ | .close => isTrue trivial

end Rustango.MemoryQueue
