import Mathlib.Algebra.BigOperators.Group.Multiset.Basic
import Rustango.MemoryQueue.Queue

/-!
# Where the jobs are

Every job of the queue stands in one place. The ledger says of all places at once that they hold what
was dispatched, that `pending` counts those not left yet, and how often each job was started.
-/

namespace Rustango.MemoryQueue

open Rustango.Jobs (attemptsSpent)

/-- What owns a job. -/
inductive Place where
  | queued
  /-- A worker's slot. -/
  | slot (at_ : Await)
  | parked
  | done
  | handed (spent : Bool)

/-- A job and its owner. -/
abbrev Holding := Place × JobEnvelope

/-- The job is not done and not handed over. -/
def Place.waits : Place → Bool
  | .queued | .slot _ | .parked => true
  | .done | .handed _ => false

/-- One for a job that waits. -/
def Place.weight (p : Place) : Int := if p.waits then 1 else 0

def Worker.holding (w : Worker) : Option Holding := w.current.map fun job => (.slot w.at_, job)

/-- The jobs in slots. -/
def slots (workers : List Worker) : List Holding := workers.filterMap Worker.holding

/-- The jobs that are in no slot. -/
def State.stock (s : State) : Multiset Holding :=
  ↑(s.channel.map (Prod.mk Place.queued)) + ↑(s.timers.map (Prod.mk Place.parked)) +
    ↑(s.done.map (Prod.mk Place.done)) + ↑(s.handed.map fun p => (Place.handed p.2, p.1))

/-- Every job and its owner. -/
def State.places (s : State) : Multiset Holding := ↑(slots s.workers) + s.stock

/-- What never changes of a job. -/
def JobEnvelope.tag (job : JobEnvelope) : Nat × Nat := (job.id, job.maxAttempts)

/-- The most runs a job may have. -/
def JobEnvelope.cap (job : JobEnvelope) : Nat := max job.maxAttempts 1

theorem attemptsSpent_iff {job : JobEnvelope} {runs : Nat} :
    attemptsSpent runs job.maxAttempts = true ↔ job.cap ≤ runs := by
  simp [attemptsSpent, JobEnvelope.cap]

theorem not_attemptsSpent_iff {job : JobEnvelope} {runs : Nat} :
    attemptsSpent runs job.maxAttempts = false ↔ runs < job.cap := by
  rw [← Bool.not_eq_true, attemptsSpent_iff]
  omega

/-- How often a job was started, by where it is: at most once for each attempt it spent, never more
than its attempts, and at least once where its attempts are spent. -/
def Good (started : List Nat) : Place → JobEnvelope → Prop
  | .queued, job | .parked, job =>
    started.count job.id ≤ job.attempt ∧ started.count job.id ≤ job.cap ∧
      (job.cap ≤ job.attempt → job.id ∈ started)
  | .slot (.lookingUp _), job => started.count job.id ≤ job.attempt ∧ job.attempt < job.cap
  | .slot (.running _ _), job =>
    started.count job.id ≤ job.attempt + 1 ∧ job.attempt < job.cap ∧ job.id ∈ started
  | .slot _, job =>
    started.count job.id ≤ job.attempt + 1 ∧ job.attempt < job.cap ∧
      (job.cap ≤ job.attempt + 1 → job.id ∈ started)
  | .done, job => started.count job.id ≤ job.cap
  | .handed spent, job => started.count job.id ≤ job.cap ∧ (spent = true → job.id ∈ started)

theorem Good.le_cap {started : List Nat} {p : Place} {job : JobEnvelope} (h : Good started p job) :
    started.count job.id ≤ job.cap := by
  cases p with
  | queued => exact h.2.1
  | parked => exact h.2.1
  | done => exact h
  | handed spent => exact h.1
  | slot a =>
    cases a with
    | lookingUp j => exact h.1.trans h.2.le
    | _ => exact h.1.trans h.2.1

/-- The books of all places. -/
structure Ledger (places : Multiset Holding) (dispatched : List JobEnvelope) (started : List Nat)
    (pending : Int) : Prop where
  own : places.map (·.2.tag) = ↑(dispatched.map JobEnvelope.tag)
  ids : (dispatched.map (·.id)).Nodup
  pending : pending = (places.map (·.1.weight)).sum
  good : ∀ h ∈ places, Good started h.1 h.2
  known : ∀ id ∈ started, id ∈ dispatched.map (·.id)

variable {places rest : Multiset Holding} {dispatched : List JobEnvelope} {started : List Nat}
  {pending : Int} {p p' : Place} {job job' : JobEnvelope}

theorem Ledger.ids_nodup (h : Ledger places dispatched started pending) :
    (places.map (·.2.id)).Nodup := by
  have hids : places.map (·.2.id) = (places.map (·.2.tag)).map Prod.fst := by
    rw [Multiset.map_map]
    rfl
  rw [hids, h.own, Multiset.map_coe, List.map_map]
  exact Multiset.coe_nodup.mpr h.ids

theorem Ledger.mem_dispatched (h : Ledger places dispatched started pending) {x : Holding}
    (hx : x ∈ places) : x.2.id ∈ dispatched.map (·.id) := by
  have htag : x.2.tag ∈ places.map (·.2.tag) := Multiset.mem_map_of_mem _ hx
  rw [h.own] at htag
  obtain ⟨d, hd, heq⟩ := List.mem_map.mp (Multiset.mem_coe.mp htag)
  exact List.mem_map.mpr ⟨d, hd, congrArg Prod.fst heq⟩

/-- A job moves from one place to another. -/
theorem Ledger.move {pending' : Int}
    (h : Ledger ((p, job) ::ₘ rest) dispatched started pending) (htag : job'.tag = job.tag)
    (hpending : pending' = pending - p.weight + p'.weight) (hgood : Good started p' job') :
    Ledger ((p', job') ::ₘ rest) dispatched started pending' where
  own := by
    have hown := h.own
    rw [Multiset.map_cons] at hown ⊢
    rw [← hown]
    exact congrArg (· ::ₘ _) htag
  ids := h.ids
  pending := by
    have hold := h.pending
    rw [Multiset.map_cons, Multiset.sum_cons] at hold ⊢
    dsimp only at hold ⊢
    omega
  good x hx := by
    rcases Multiset.mem_cons.mp hx with rfl | hmem
    · exact hgood
    · exact h.good x (Multiset.mem_cons_of_mem hmem)
  known := h.known

theorem Good.other {id : Nat} (h : Good started p job) (hne : job.id ≠ id) :
    Good (id :: started) p job := by
  have hcount : (id :: started).count job.id = started.count job.id :=
    List.count_cons_of_ne (fun heq => hne heq.symm)
  have hmem : job.id ∈ started → job.id ∈ id :: started := List.mem_cons_of_mem _
  cases p with
  | queued => exact ⟨hcount ▸ h.1, hcount ▸ h.2.1, fun hs => hmem (h.2.2 hs)⟩
  | parked => exact ⟨hcount ▸ h.1, hcount ▸ h.2.1, fun hs => hmem (h.2.2 hs)⟩
  | done => exact hcount.le.trans h
  | handed spent => exact ⟨hcount ▸ h.1, fun hs => hmem (h.2 hs)⟩
  | slot at_ =>
    cases at_ with
    | lookingUp j => exact ⟨hcount ▸ h.1, h.2⟩
    | running e j => exact ⟨hcount ▸ h.1, h.2.1, hmem h.2.2⟩
    | _ => exact ⟨hcount ▸ h.1, h.2.1, fun hs => hmem (h.2.2 hs)⟩

/-- The handler of a job that was looked up is started. -/
theorem Ledger.start {entry : Registered}
    (h : Ledger ((.slot (.lookingUp job), job) ::ₘ rest) dispatched started pending) :
    Ledger ((.slot (.running entry job), job) ::ₘ rest) dispatched (job.id :: started) pending where
  own := by
    have hown := h.own
    rw [Multiset.map_cons] at hown ⊢
    exact hown
  ids := h.ids
  pending := by
    have hold := h.pending
    rw [Multiset.map_cons, Multiset.sum_cons] at hold ⊢
    exact hold
  good x hx := by
    rcases Multiset.mem_cons.mp hx with rfl | hmem
    · have hlook : started.count job.id ≤ job.attempt ∧ job.attempt < job.cap :=
        h.good _ (Multiset.mem_cons_self _ _)
      refine ⟨?_, hlook.2, List.mem_cons_self⟩
      change (job.id :: started).count job.id ≤ job.attempt + 1
      rw [List.count_cons_self]
      omega
    · have hnodup := h.ids_nodup
      rw [Multiset.map_cons, Multiset.nodup_cons] at hnodup
      apply (h.good x (Multiset.mem_cons_of_mem hmem)).other
      intro heq
      exact hnodup.1 (heq ▸ Multiset.mem_map_of_mem _ hmem)
  known id hid := by
    rcases List.mem_cons.mp hid with rfl | hmem
    · exact h.mem_dispatched (Multiset.mem_cons_self _ _)
    · exact h.known id hmem

/-- A job is dispatched. -/
theorem Ledger.dispatch (h : Ledger places dispatched started pending)
    (hnew : job.id ∉ dispatched.map (·.id)) (hfirst : job.attempt = 0) :
    Ledger ((.queued, job) ::ₘ places) (job :: dispatched) started (pending + 1) where
  own := by
    rw [Multiset.map_cons, h.own]
    rfl
  ids := List.nodup_cons.mpr ⟨hnew, h.ids⟩
  pending := by
    have hone : Place.queued.weight = 1 := rfl
    rw [Multiset.map_cons, Multiset.sum_cons, hone, h.pending, Int.add_comm]
  good x hx := by
    rcases Multiset.mem_cons.mp hx with rfl | hmem
    · have hnone : job.id ∉ started := fun hmem => hnew (h.known _ hmem)
      have hzero : started.count job.id = 0 := List.count_eq_zero.mpr hnone
      have hcap : 1 ≤ job.cap := Nat.le_max_right _ _
      refine ⟨?_, ?_, ?_⟩
      · exact hzero.le.trans (Nat.zero_le _)
      · exact hzero.le.trans (Nat.zero_le _)
      · intro hspent
        change job.cap ≤ job.attempt at hspent
        omega
    · exact h.good x hmem
  known id hid := List.mem_cons_of_mem _ (h.known id hid)

end Rustango.MemoryQueue
