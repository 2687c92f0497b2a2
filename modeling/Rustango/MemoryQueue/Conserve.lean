import Mathlib.Tactic.Abel
import Mathlib.Tactic.Ring
import Rustango.MemoryQueue.Places

/-!
# The queue conserves jobs

Along every run in which no worker is aborted on its way to the dead-letter callback: each job
dispatched stands in one place, `pending` counts the jobs that wait, and a job leaves only done by a
run that returned `Ok`, or with its dead letter delivered.
-/

namespace Rustango.MemoryQueue

open Rustango.Jobs (Ran Next attemptsSpent)
open Rustango.Runs

variable {s s' : State} {i : Nat} {w w' : Worker} {job : JobEnvelope}

private theorem slots_cons (w : Worker) (ws : List Worker) :
    (↑(slots (w :: ws)) : Multiset Holding) = ↑w.holding.toList + ↑(slots ws) := by
  unfold slots
  cases hw : w.holding with
  | none => rw [List.filterMap_cons_none hw, Option.toList_none, Multiset.coe_nil, zero_add]
  | some x => rw [List.filterMap_cons_some hw, Option.toList_some]; rfl

private theorem slots_at {ws : List Worker} (h : ws[i]? = some w) :
    (↑(slots ws) : Multiset Holding) = ↑w.holding.toList + ↑(slots (ws.eraseIdx i)) := by
  induction ws generalizing i with
  | nil => cases h
  | cons u us ih =>
    cases i with
    | zero =>
      obtain rfl : u = w := Option.some.inj h
      exact slots_cons u us
    | succ i =>
      rw [slots_cons, ih h, List.eraseIdx_cons_succ, slots_cons]
      exact add_left_comm _ _ _

private theorem slots_set {ws : List Worker} (h : ws[i]? = some w) :
    (↑(slots (ws.set i w')) : Multiset Holding) = ↑w'.holding.toList + ↑(slots (ws.eraseIdx i)) := by
  have hlt : i < ws.length := (List.getElem?_eq_some_iff.mp h).1
  have hat : (ws.set i w')[i]? = some w' := List.getElem?_set_self hlt
  rw [slots_at hat, List.eraseIdx_set_eq]

@[simp] theorem workers_setWorker : (s.setWorker i w').workers = s.workers.set i w' := by
  unfold State.workers State.setWorker
  cases s.run <;> simp

@[simp] theorem stock_setWorker : (s.setWorker i w').stock = s.stock := rfl

private theorem worker?_eq : s.worker? i = s.workers[i]? := by
  unfold State.worker? State.workers
  cases s.run <;> simp

/-- The jobs that one worker does not have. -/
def State.others (s : State) (i : Nat) : Multiset Holding :=
  ↑(slots (s.workers.eraseIdx i)) + s.stock

private theorem places_eq (h : s.workers[i]? = some w) : s.places = ↑w.holding.toList + s.others i := by
  rw [State.places, slots_at h, State.others, add_assoc]

private theorem places_setWorker (h : s.workers[i]? = some w) :
    (s.setWorker i w').places = ↑w'.holding.toList + s.others i := by
  rw [State.places, workers_setWorker, slots_set h, stock_setWorker, State.others, add_assoc]

/-- A worker's slot holds the job it looks up or runs, and no other. -/
def Worker.Ok (w : Worker) : Prop :=
  match w.at_ with
  | .lookingUp job | .running _ job => w.current = some job
  | .aborted => True
  | .dead => False
  | .selecting | .spent _ | .lettering _ _ | .inCallback _ | .returned => w.current = none

structure Inv (s : State) : Prop where
  ledger : Ledger s.places s.dispatched s.started s.pending
  workers : ∀ w ∈ s.workers, w.Ok
  delivering : ∀ p ∈ s.handed, p.1.id ∈ s.delivered ∨ ∃ w ∈ s.workers, w.delivers = some p.1.id
  done : ∀ job ∈ s.done, job.id ∈ s.okRuns

/-- A worker that moves on, and what it says of jobs that leave. -/
structure Moves (s s' : State) (i : Nat) (w w' : Worker) : Prop where
  workers : s'.workers = s.workers.set i w'
  ok : w'.Ok
  delivers : ∀ id, w.delivers = some id → w'.delivers = some id ∨ id ∈ s'.delivered
  delivered : ∀ id ∈ s.delivered, id ∈ s'.delivered
  handed : ∀ p ∈ s'.handed, p ∈ s.handed ∨ w'.delivers = some p.1.id
  done : ∀ job ∈ s'.done, job ∈ s.done ∨ job.id ∈ s'.okRuns
  okRuns : ∀ id ∈ s.okRuns, id ∈ s'.okRuns

theorem Inv.moves (h : Inv s) (hi : s.workers[i]? = some w) (hm : Moves s s' i w w')
    (hledger : Ledger s'.places s'.dispatched s'.started s'.pending) : Inv s' where
  ledger := hledger
  workers u hu := by
    rw [hm.workers] at hu
    rcases List.mem_or_eq_of_mem_set hu with hmem | rfl
    · exact h.workers u hmem
    · exact hm.ok
  delivering p hp := by
    have hlt : i < s.workers.length := (List.getElem?_eq_some_iff.mp hi).1
    have hself : w' ∈ s'.workers := by
      rw [hm.workers]
      exact List.mem_set hlt w'
    rcases hm.handed p hp with hold | hnew
    · rcases h.delivering p hold with hdone | ⟨u, hu, hdel⟩
      · exact .inl (hm.delivered _ hdone)
      · obtain ⟨j, hj⟩ := List.mem_iff_getElem?.mp hu
        by_cases hij : i = j
        · subst hij
          obtain rfl : w = u := Option.some.inj (hi.symm.trans hj)
          rcases hm.delivers _ hdel with hstill | hdone
          · exact .inr ⟨w', hself, hstill⟩
          · exact .inl hdone
        · refine .inr ⟨u, ?_, hdel⟩
          rw [hm.workers]
          exact List.mem_iff_getElem?.mpr ⟨j, (List.getElem?_set_ne hij).trans hj⟩
    · exact .inr ⟨w', hself, hnew⟩
  done job hjob := (hm.done job hjob).elim (fun hold => hm.okRuns _ (h.done job hold)) id

theorem Moves.stay (hworkers : s'.workers = s.workers.set i w') (hok : w'.Ok)
    (hdel : w.delivers = none ∨ w'.delivers = w.delivers) (hdelivered : s'.delivered = s.delivered)
    (hhanded : s'.handed = s.handed) (hdone : s'.done = s.done)
    (hruns : ∀ id ∈ s.okRuns, id ∈ s'.okRuns) : Moves s s' i w w' where
  workers := hworkers
  ok := hok
  delivers id hid := by
    rcases hdel with hnone | hsame
    · cases hnone.symm.trans hid
    · exact .inl (hsame.trans hid)
  delivered _ hid := hdelivered ▸ hid
  handed _ hp := .inl (hhanded ▸ hp)
  done _ hjob := .inl (hdone ▸ hjob)
  okRuns := hruns

theorem Moves.hand {spent : Bool} (hworkers : s'.workers = s.workers.set i w') (hok : w'.Ok)
    (hdel : w.delivers = none) (hdel' : w'.delivers = some job.id)
    (hdelivered : s'.delivered = s.delivered) (hhanded : s'.handed = (job, spent) :: s.handed)
    (hdone : s'.done = s.done) (hruns : ∀ id ∈ s.okRuns, id ∈ s'.okRuns) : Moves s s' i w w' where
  workers := hworkers
  ok := hok
  delivers id hid := nomatch hdel.symm.trans hid
  delivered _ hid := hdelivered ▸ hid
  handed p hp := by
    rw [hhanded] at hp
    rcases List.mem_cons.mp hp with rfl | hmem
    · exact .inr hdel'
    · exact .inl hmem
  done _ hjob := .inl (hdone ▸ hjob)
  okRuns := hruns

private theorem others_cons {x : Holding} (hw : s'.workers = s.workers) (hs : s'.stock = x ::ₘ s.stock) :
    s'.others i = x ::ₘ s.others i := by
  rw [State.others, State.others, hw, hs, Multiset.add_cons]

private theorem coe_append_singleton (l : List Holding) (x : Holding) :
    (↑(l ++ [x]) : Multiset Holding) = x ::ₘ ↑l := by
  rw [← Multiset.coe_add, Multiset.coe_singleton, add_comm, Multiset.singleton_add]

private theorem stock_receive {rest : List JobEnvelope} (h : s.channel = job :: rest) :
    s.stock = (.queued, job) ::ₘ ({ s with channel := rest } : State).stock := by
  simp only [State.stock, h, List.map_cons, ← Multiset.cons_coe, Multiset.cons_add]

private theorem stock_send :
    ({ s with channel := s.channel ++ [job] } : State).stock = (.queued, job) ::ₘ s.stock := by
  simp only [State.stock, List.map_append, List.map_cons, List.map_nil, coe_append_singleton,
    Multiset.cons_add]

private theorem stock_park (until_ : Nat) :
    (s.park job until_).stock = (.parked, { job with notBefore := some until_ }) ::ₘ s.stock := by
  simp only [State.stock, State.park, List.map_append, List.map_cons, List.map_nil,
    coe_append_singleton, Multiset.cons_add, Multiset.add_cons]

private theorem stock_hand (spent : Bool) :
    (s.hand job spent).stock = (.handed spent, job) ::ₘ s.stock := by
  simp only [State.stock, State.hand, List.map_cons, ← Multiset.cons_coe, Multiset.add_cons]

private theorem stock_finish : (s.finish job).stock = (.done, job) ::ₘ s.stock := by
  simp only [State.stock, State.finish, List.map_cons, ← Multiset.cons_coe, Multiset.add_cons, Multiset.cons_add]

private theorem others_park (until_ : Nat) : (s.park job until_).others i =
    (.parked, { job with notBefore := some until_ }) ::ₘ s.others i :=
  others_cons rfl (stock_park until_)

private theorem others_finish : (s.finish job).others i = (.done, job) ::ₘ s.others i :=
  others_cons rfl stock_finish

private theorem others_hand (spent : Bool) :
    (s.hand job spent).others i = (.handed spent, job) ::ₘ s.others i :=
  others_cons rfl (stock_hand spent)

private theorem places_idle (h : s.workers[i]? = some w) (hc : w.current = none) : s.places = s.others i := by
  rw [places_eq h, Worker.holding, hc]
  exact zero_add _

private theorem places_held (h : s.workers[i]? = some w) (hc : w.current = some job) :
    s.places = (.slot w.at_, job) ::ₘ s.others i := by
  rw [places_eq h, Worker.holding, hc]
  exact Multiset.singleton_add _ _

private theorem places_set_idle {a : Await} (h : s.workers[i]? = some w) :
    (s.setWorker i ⟨a, none⟩).places = s.others i := by
  rw [places_setWorker h]
  exact zero_add _

private theorem places_set_held {a : Await} (h : s.workers[i]? = some w) :
    (s.setWorker i ⟨a, some job⟩).places = (.slot a, job) ::ₘ s.others i := by
  rw [places_setWorker h]
  exact Multiset.singleton_add _ _

theorem Inv.idle (h : Inv s) (hi : s.workers[i]? = some w) (hc : w.current = none) {a : Await}
    (hok : Worker.Ok ⟨a, none⟩)
    (hdel : w.delivers = none ∨ (⟨a, none⟩ : Worker).delivers = w.delivers) :
    Inv (s.setWorker i ⟨a, none⟩) := by
  refine h.moves hi (.stay workers_setWorker hok hdel rfl rfl rfl fun _ hid => hid) ?_
  rw [places_set_idle hi, ← places_idle hi hc]
  exact h.ledger

theorem Inv.receive (h : Inv s) (hi : s.workers[i]? = some w) (hw : w.at_ = .selecting)
    {rest : List JobEnvelope} (hchannel : s.channel = job :: rest) : Inv (s.receive i job rest) := by
  have hok := h.workers w (List.mem_of_getElem? hi)
  have hc : w.current = none := by
    rw [Worker.Ok, hw] at hok
    exact hok
  have hdel : w.delivers = none := by
    rw [Worker.delivers, hw]
  let t : State := { s with channel := rest }
  have hplaces : s.places = (.queued, job) ::ₘ t.others i := by
    rw [places_idle hi hc]
    exact others_cons rfl (stock_receive hchannel)
  have hledger := h.ledger
  rw [hplaces] at hledger
  have hqueued : Good s.started .queued job := hledger.good _ (Multiset.mem_cons_self _ _)
  unfold State.receive
  dsimp only
  split
  · rename_i until_ _
    refine h.moves hi (.stay workers_setWorker rfl (.inl hdel) rfl rfl rfl fun _ hid => hid) ?_
    have hi' : (t.park job until_).workers[i]? = some w := hi
    rw [places_set_idle hi', others_park]
    exact hledger.move rfl (by simp [Place.weight, Place.waits, State.setWorker, State.park]) hqueued
  · split
    · rename_i hspent
      refine h.moves hi (.hand workers_setWorker rfl hdel rfl rfl rfl rfl fun _ hid => hid) ?_
      have hi' : (t.hand job true).workers[i]? = some w := hi
      rw [places_set_idle hi', others_hand]
      refine hledger.move rfl ?_ ⟨hqueued.2.1, fun _ => hqueued.2.2 (attemptsSpent_iff.mp hspent)⟩
      simp [Place.weight, Place.waits, State.setWorker, State.hand]
    · rename_i hspent
      have hroom : job.attempt < job.cap := not_attemptsSpent_iff.mp (by simpa using hspent)
      refine h.moves hi (.stay workers_setWorker rfl (.inl hdel) rfl rfl rfl fun _ hid => hid) ?_
      have hi' : t.workers[i]? = some w := hi
      rw [places_set_held hi']
      exact hledger.move rfl (by simp [Place.weight, Place.waits, State.setWorker])
        ⟨hqueued.1, hroom⟩

theorem Inv.found (h : Inv s) (hi : s.workers[i]? = some w) (hw : w.at_ = .lookingUp job) :
    Inv (s.found i job) := by
  have hok := h.workers w (List.mem_of_getElem? hi)
  have hc : w.current = some job := by
    rw [Worker.Ok, hw] at hok
    exact hok
  have hdel : w.delivers = none := by
    rw [Worker.delivers, hw]
  have hledger := h.ledger
  rw [places_held hi hc, hw] at hledger
  have hgood : s.started.count job.id ≤ job.attempt ∧ job.attempt < job.cap :=
    hledger.good _ (Multiset.mem_cons_self _ _)
  unfold State.found
  split
  · refine h.moves hi (.hand workers_setWorker rfl hdel rfl rfl rfl rfl fun _ hid => hid) ?_
    have hi' : (s.hand job false).workers[i]? = some w := hi
    rw [places_set_idle hi', others_hand]
    refine hledger.move rfl ?_ ⟨hgood.1.trans hgood.2.le, nofun⟩
    simp [Place.weight, Place.waits, State.setWorker, State.hand]
  · rename_i entry _
    refine h.moves hi (.stay workers_setWorker rfl (.inl hdel) rfl rfl rfl fun _ hid => hid) ?_
    let t : State := { s with started := job.id :: s.started }
    have hi' : t.workers[i]? = some w := hi
    rw [places_set_held hi']
    exact hledger.start

private theorem isOk_of_next_done {ran : Ran} {runs maxAttempts : Nat} (h : ran.next runs maxAttempts = .done) :
    ran.result.isOk = true := by
  unfold Ran.next at h
  split at h
  · rename_i hr
    rw [hr]
    rfl
  · split at h <;> cases h
  · cases h

private theorem room_of_next_retry {ran : Ran} {runs maxAttempts wait : Nat} {error : String}
    (h : ran.next runs maxAttempts = .retry wait error) : attemptsSpent runs maxAttempts = false := by
  unfold Ran.next at h
  split at h
  · cases h
  · split at h
    · rename_i hspent
      simpa using hspent
    · cases h
  · cases h

theorem Inv.noteRun (h : Inv s) (job : JobEnvelope) (ran : Ran) : Inv (s.noteRun job ran) := by
  unfold State.noteRun
  split
  · exact ⟨h.ledger, h.workers, h.delivering, fun j hj => List.mem_cons_of_mem _ (h.done j hj)⟩
  · exact h

@[simp] theorem workers_noteRun (ran : Ran) : (s.noteRun job ran).workers = s.workers := by
  unfold State.noteRun
  split <;> rfl

private theorem mem_noteRun {ran : Ran} (h : ran.result.isOk = true) :
    job.id ∈ (s.noteRun job ran).okRuns := by
  rw [State.noteRun, if_pos h]
  exact List.mem_cons_self

theorem Inv.ended (h : Inv s) {entry : Registered} (hi : s.workers[i]? = some w)
    (hw : w.at_ = .running entry job) {ran : Ran} (hran : ran.result.isOk = true → job.id ∈ s.okRuns) :
    Inv (s.ended i entry job ran) := by
  have hok := h.workers w (List.mem_of_getElem? hi)
  have hc : w.current = some job := by
    rw [Worker.Ok, hw] at hok
    exact hok
  have hdel : w.delivers = none := by
    rw [Worker.delivers, hw]
  have hledger := h.ledger
  rw [places_held hi hc, hw] at hledger
  have hgood : s.started.count job.id ≤ job.attempt + 1 ∧ job.attempt < job.cap ∧
      job.id ∈ s.started := hledger.good _ (Multiset.mem_cons_self _ _)
  have hcap : s.started.count job.id ≤ job.cap := by omega
  unfold State.ended
  dsimp only
  split
  · rename_i hnext
    have hdone := hran (isOk_of_next_done hnext)
    refine h.moves hi ⟨workers_setWorker, rfl, ?_, ?_, ?_, ?_, ?_⟩ ?_
    · exact fun id hid => nomatch hdel.symm.trans hid
    · exact fun _ hid => hid
    · exact fun _ hp => .inl hp
    · intro j hj
      rcases List.mem_cons.mp hj with rfl | hmem
      · exact .inr hdone
      · exact .inl hmem
    · exact fun _ hid => hid
    · have hi' : (s.finish job).workers[i]? = some w := hi
      rw [places_set_idle hi', others_finish]
      refine hledger.move rfl ?_ hcap
      simp [Place.weight, Place.waits, State.setWorker, State.finish]
  · rename_i backoff _ hnext
    have hroom := room_of_next_retry hnext
    refine h.moves hi (.stay workers_setWorker rfl (.inl hdel) rfl rfl rfl fun _ hid => hid) ?_
    have hi' : (s.park { job with attempt := job.attempt + 1 } (s.now + backoff)).workers[i]? =
        some w := hi
    rw [places_set_idle hi', others_park]
    refine hledger.move rfl ?_ ⟨hgood.1, hcap, fun _ => hgood.2.2⟩
    simp [Place.weight, Place.waits, State.setWorker, State.park]
  · refine h.moves hi (.hand workers_setWorker rfl hdel rfl rfl rfl rfl fun _ hid => hid) ?_
    have hi' : (s.hand job false).workers[i]? = some w := hi
    rw [places_set_idle hi', others_hand]
    refine hledger.move rfl ?_ ⟨hcap, nofun⟩
    simp [Place.weight, Place.waits, State.setWorker, State.hand]

theorem Inv.deliver (h : Inv s) (hi : s.workers[i]? = some w) (hc : w.current = none)
    (hdel : w.delivers = some job.id) : Inv (s.deliver i job) := by
  refine h.moves hi ⟨workers_setWorker, rfl, ?_, ?_, ?_, ?_, ?_⟩ ?_
  · intro id hid
    obtain rfl : job.id = id := Option.some.inj (hdel.symm.trans hid)
    exact .inr List.mem_cons_self
  · exact fun _ hid => List.mem_cons_of_mem _ hid
  · exact fun _ hp => .inl hp
  · exact fun _ hjob => .inl hjob
  · exact fun _ hid => hid
  · let t : State := { s with delivered := job.id :: s.delivered }
    have hi' : t.workers[i]? = some w := hi
    have hledger := h.ledger
    rw [places_idle hi hc] at hledger
    change Ledger (t.setWorker i ⟨.selecting, none⟩).places _ _ _
    rw [places_set_idle hi']
    exact hledger

theorem Inv.work (h : Inv s) (hi : s.workers[i]? = some w) {stopped : Bool} {ran : Ran}
    (hwork : s.work i w stopped ran = some s') : Inv s' := by
  have hok := h.workers w (List.mem_of_getElem? hi)
  unfold State.work at hwork
  split at hwork
  all_goals rename_i hat
  all_goals rw [Worker.Ok, hat] at hok
  · split at hwork
    · obtain rfl := Option.some.inj hwork
      exact h.idle hi hok rfl (.inl (by rw [Worker.delivers, hat]))
    · split at hwork
      · cases hwork
      · rename_i hchannel
        obtain rfl := Option.some.inj hwork
        exact h.receive hi hat hchannel
  · obtain rfl := Option.some.inj hwork
    exact h.found hi hat
  · obtain rfl := Option.some.inj hwork
    refine (h.noteRun _ ran).ended ?_ hat mem_noteRun
    rw [workers_noteRun]
    exact hi
  · obtain rfl := Option.some.inj hwork
    exact h.idle hi hok rfl (.inr (by rw [Worker.delivers, Worker.delivers, hat]))
  · rename_i job _
    have hdel : w.delivers = some job.id := by rw [Worker.delivers, hat]
    split at hwork
    · obtain rfl := Option.some.inj hwork
      exact h.idle hi hok rfl (.inr hdel.symm)
    · obtain rfl := Option.some.inj hwork
      exact h.deliver hi hok hdel
  · rename_i job
    have hdel : w.delivers = some job.id := by rw [Worker.delivers, hat]
    obtain rfl := Option.some.inj hwork
    exact h.deliver hi hok hdel
  · cases hwork
  · cases hwork
  · cases hwork

theorem Inv.same (h : Inv s) (hworkers : s'.workers = s.workers) (hstock : s'.stock = s.stock)
    (hdispatched : s'.dispatched = s.dispatched) (hstarted : s'.started = s.started)
    (hpending : s'.pending = s.pending) (hhanded : s'.handed = s.handed)
    (hdelivered : s'.delivered = s.delivered) (hdone : s'.done = s.done)
    (hruns : s'.okRuns = s.okRuns) : Inv s' where
  ledger := by
    rw [State.places, hworkers, hstock, hdispatched, hstarted, hpending]
    exact h.ledger
  workers := by
    rw [hworkers]
    exact h.workers
  delivering := by
    rw [hworkers, hhanded, hdelivered]
    exact h.delivering
  done := by
    rw [hdone, hruns]
    exact h.done

private theorem slots_replicate (n : Nat) : slots (List.replicate n ⟨.selecting, none⟩) = [] := by
  induction n with
  | zero => rfl
  | succ n ih => exact ih

theorem Inv.start (h : Inv s) (hrun : s.run = none) (n : Nat) :
    Inv { s with run := some ⟨.live, List.replicate n ⟨.selecting, none⟩⟩ } where
  ledger := by
    have hledger := h.ledger
    rw [State.places, State.workers, hrun] at hledger
    change Ledger (↑(slots (List.replicate n _)) + s.stock) _ _ _
    rw [slots_replicate]
    exact hledger
  workers w hw := by
    obtain rfl := List.eq_of_mem_replicate hw
    rfl
  delivering p hp := by
    rcases h.delivering p hp with hdone | ⟨w, hw, -⟩
    · exact .inl hdone
    · rw [State.workers, hrun] at hw
      cases hw
  done := h.done

theorem Inv.dispatch (h : Inv s) (hfirst : job.attempt = 0)
    (hnew : job.id ∉ s.dispatched.map (·.id)) :
    Inv { s.enqueue job with dispatched := job :: s.dispatched } where
  ledger := by
    change Ledger (↑(slots s.workers) + (s.enqueue job).stock) _ _ _
    have hstock : (s.enqueue job).stock = (.queued, job) ::ₘ s.stock := stock_send
    rw [hstock, Multiset.add_cons]
    exact h.ledger.dispatch hnew hfirst
  workers := h.workers
  delivering := h.delivering
  done := h.done

private theorem coe_eraseIdx {α : Type} {l : List α} {x : α} (h : l[i]? = some x) :
    (↑l : Multiset α) = x ::ₘ ↑(l.eraseIdx i) := by
  induction l generalizing i with
  | nil => cases h
  | cons y ys ih =>
    cases i with
    | zero =>
      obtain rfl : y = x := Option.some.inj h
      rfl
    | succ i =>
      rw [List.eraseIdx_cons_succ, ← Multiset.cons_coe, ← Multiset.cons_coe, ih h,
        Multiset.cons_swap]

/-- A timer sends its job. -/
theorem Inv.fire (h : Inv s) (hi : s.timers[i]? = some job) :
    Inv { s with timers := s.timers.eraseIdx i, channel := s.channel ++ [job] } where
  ledger := by
    let t : State := { s with timers := s.timers.eraseIdx i }
    have htimer : (↑(s.timers.map (Prod.mk Place.parked)) : Multiset Holding) =
        (.parked, job) ::ₘ ↑((s.timers.eraseIdx i).map (Prod.mk Place.parked)) := by
      rw [← Multiset.map_coe, coe_eraseIdx hi, Multiset.map_cons, Multiset.map_coe]
    have hold : s.places = (.parked, job) ::ₘ t.places := by
      simp only [State.places, State.stock, htimer, Multiset.add_cons, Multiset.cons_add]
      rfl
    have hnew : ({ t with channel := s.channel ++ [job] } : State).places =
        (.queued, job) ::ₘ t.places := by
      have hstock : ({ t with channel := s.channel ++ [job] } : State).stock =
          (.queued, job) ::ₘ t.stock := stock_send
      rw [State.places, hstock, Multiset.add_cons]
      rfl
    have hledger := h.ledger
    rw [hold] at hledger
    change Ledger ({ t with channel := s.channel ++ [job] } : State).places _ _ _
    rw [hnew]
    have hparked : Good s.started .parked job := hledger.good _ (Multiset.mem_cons_self _ _)
    exact hledger.move rfl (by simp [Place.weight, Place.waits]) hparked
  workers := h.workers
  delivering := h.delivering
  done := h.done

/-- An aborted worker keeps the job in its slot. -/
theorem Inv.abort (h : Inv s) (hi : s.workers[i]? = some w) (hended : w.at_.ended = false)
    (hsafe : AbortSafe s w) : Inv (s.setWorker i ⟨.aborted, w.current⟩) := by
  have hok := h.workers w (List.mem_of_getElem? hi)
  obtain ⟨a, current⟩ := w
  have hstay : (⟨a, current⟩ : Worker).delivers = none →
      Moves s (s.setWorker i ⟨.aborted, current⟩) i ⟨a, current⟩ ⟨.aborted, current⟩ :=
    fun hdel => .stay workers_setWorker trivial (.inl hdel) rfl rfl rfl fun _ hid => hid
  have hledger := h.ledger
  cases a with
  | selecting =>
    obtain rfl : current = none := hok
    refine h.moves hi (hstay rfl) ?_
    rw [places_set_idle hi, ← places_idle hi rfl]
    exact hledger
  | lookingUp job =>
    obtain rfl : current = some job := hok
    refine h.moves hi (hstay rfl) ?_
    rw [places_held hi rfl] at hledger
    have hgood : s.started.count job.id ≤ job.attempt ∧ job.attempt < job.cap :=
      hledger.good _ (Multiset.mem_cons_self _ _)
    rw [places_set_held hi]
    refine hledger.move rfl (by simp [Place.weight, Place.waits, State.setWorker]) ?_
    exact ⟨by omega, hgood.2, fun hspent => hsafe (attemptsSpent_iff.mpr hspent)⟩
  | running entry job =>
    obtain rfl : current = some job := hok
    refine h.moves hi (hstay rfl) ?_
    rw [places_held hi rfl] at hledger
    have hgood : s.started.count job.id ≤ job.attempt + 1 ∧ job.attempt < job.cap ∧
        job.id ∈ s.started := hledger.good _ (Multiset.mem_cons_self _ _)
    rw [places_set_held hi]
    refine hledger.move rfl (by simp [Place.weight, Place.waits, State.setWorker]) ?_
    exact ⟨hgood.1, hgood.2.1, fun _ => hgood.2.2⟩
  | spent job => exact hsafe.elim
  | lettering job letter => exact hsafe.elim
  | inCallback job => exact hsafe.elim
  | returned => cases hended
  | aborted => cases hended
  | dead => cases hended

/-- The job of an aborted worker is queued again, with one more attempt spent. -/
theorem Inv.requeue (h : Inv s) (hi : s.workers[i]? = some w) (hleft : w.left = some job) :
    Inv (({ s with channel := s.channel ++ [{ job with attempt := job.attempt + 1 }] } :
      State).setWorker i ⟨.aborted, none⟩) := by
  obtain ⟨a, current⟩ := w
  cases a with
  | aborted =>
    obtain rfl : current = some job := hleft
    let t : State := { s with channel := s.channel ++ [{ job with attempt := job.attempt + 1 }] }
    refine h.moves hi (.stay workers_setWorker trivial (.inl rfl) rfl rfl rfl fun _ hid => hid) ?_
    have hledger := h.ledger
    rw [places_held hi rfl] at hledger
    have hgood : s.started.count job.id ≤ job.attempt + 1 ∧ job.attempt < job.cap ∧
        (job.cap ≤ job.attempt + 1 → job.id ∈ s.started) :=
      hledger.good _ (Multiset.mem_cons_self _ _)
    have hi' : t.workers[i]? = some ⟨.aborted, some job⟩ := hi
    have hothers : t.others i =
        (.queued, { job with attempt := job.attempt + 1 }) ::ₘ s.others i :=
      others_cons rfl stock_send
    rw [places_set_idle hi', hothers]
    refine hledger.move rfl (by simp [Place.weight, Place.waits, State.setWorker]) ?_
    refine ⟨hgood.1, ?_, hgood.2.2⟩
    change s.started.count job.id ≤ job.cap
    omega
  | _ => cases hleft

/-- Once the last slot is empty the workers may go. -/
theorem Inv.close (h : Inv s) (hall : ∀ w ∈ s.workers, w.at_.ended = true ∧ w.left = none) :
    Inv { s with run := none } where
  ledger := by
    have hempty : slots s.workers = [] := by
      apply List.filterMap_eq_nil_iff.mpr
      intro w hw
      obtain ⟨hended, hleft⟩ := hall w hw
      have hok := h.workers w hw
      obtain ⟨a, current⟩ := w
      have hnone : current = none := by
        cases a with
        | returned => exact hok
        | aborted => exact hleft
        | dead => exact hok.elim
        | _ => cases hended
      rw [hnone]
      rfl
    have hledger := h.ledger
    rw [State.places, hempty] at hledger
    exact hledger
  workers _ hw := nomatch hw
  delivering p hp := by
    rcases h.delivering p hp with hdone | ⟨w, hw, hdel⟩
    · exact .inl hdone
    · have hended := (hall w hw).1
      unfold Worker.delivers at hdel
      split at hdel
      all_goals rename_i hat
      all_goals first | cases hdel | (rw [hat] at hended; cases hended)
  done := h.done

private theorem inv_initial : Inv State.initial where
  ledger := by
    constructor
    · rfl
    · exact List.nodup_nil
    · rfl
    · intro x hx
      simp [State.places, State.initial, State.workers, State.stock, slots] at hx
    · exact fun _ hid => nomatch hid
  workers _ hw := nomatch hw
  delivering _ hp := nomatch hp
  done _ hjob := nomatch hjob

theorem Inv.next (h : Inv s) {n : Nat} {e : Event} (hok : Allowed e s)
    (hstep : step n e s = some s') : Inv s' := by
  cases e with
  | tick now =>
    simp only [step] at hstep
    split at hstep
    · obtain rfl := Option.some.inj hstep
      exact h.same rfl rfl rfl rfl rfl rfl rfl rfl rfl
    · cases hstep
  | register name entry =>
    obtain rfl := Option.some.inj hstep
    exact h.same rfl rfl rfl rfl rfl rfl rfl rfl rfl
  | onDeadLetter =>
    obtain rfl := Option.some.inj hstep
    exact h.same rfl rfl rfl rfl rfl rfl rfl rfl rfl
  | dispatch job =>
    simp only [step] at hstep
    split at hstep
    · rename_i hnew
      obtain rfl := Option.some.inj hstep
      exact h.dispatch hnew.2.1 hnew.2.2.2
    · cases hstep
  | start =>
    simp only [step] at hstep
    split at hstep
    · obtain rfl := Option.some.inj hstep
      exact h
    · rename_i hrun
      obtain rfl := Option.some.inj hstep
      exact h.start (by simpa using hrun) n
  | work i ran =>
    obtain ⟨w, hw, hwork⟩ := Option.bind_eq_some_iff.mp hstep
    exact h.work (worker?_eq ▸ hw) hwork
  | die i => exact hok.elim
  | fire i =>
    obtain ⟨job, hjob, hfire⟩ := Option.bind_eq_some_iff.mp hstep
    split at hfire
    · obtain rfl := Option.some.inj hfire
      exact h.fire hjob
    · cases hfire
  | shutdown =>
    obtain ⟨run, hrun, rfl⟩ := Option.map_eq_some_iff.mp hstep
    refine h.same ?_ rfl rfl rfl rfl rfl rfl rfl rfl
    rw [State.workers, State.workers, hrun]
    rfl
  | abort i =>
    obtain ⟨w, hw, habort⟩ := Option.bind_eq_some_iff.mp hstep
    split at habort
    · rename_i hcan
      obtain rfl := Option.some.inj habort
      exact h.abort (worker?_eq ▸ hw) (by simpa using hcan.2) (hok w hw)
    · cases habort
  | requeue i =>
    obtain ⟨run, hrun, hrest⟩ := Option.bind_eq_some_iff.mp hstep
    split at hrest
    · obtain ⟨w, hw, hmap⟩ := Option.bind_eq_some_iff.mp hrest
      obtain ⟨job, hleft, rfl⟩ := Option.map_eq_some_iff.mp hmap
      have hi : s.workers[i]? = some w := by
        rw [State.workers, hrun]
        exact hw
      exact h.requeue hi hleft
    · cases hrest
  | close =>
    obtain ⟨run, hrun, hrest⟩ := Option.bind_eq_some_iff.mp hstep
    split at hrest
    · rename_i hall
      obtain rfl := Option.some.inj hrest
      apply h.close
      intro w hw
      rw [State.workers, hrun] at hw
      have hone := List.all_eq_true.mp hall.2.1 w hw
      simpa using hone
    · cases hrest

private theorem slots_jobs (ws : List Worker) :
    (slots ws).map Prod.snd = ws.filterMap (·.current) := by
  unfold slots
  rw [List.map_filterMap]
  congr 1
  funext w
  simp [Worker.holding, Function.comp_def]

private theorem owned_eq : s.places.map (·.2.id) = ↑s.owned := by
  have hslots : (slots s.workers).map (fun x => x.2.id) = s.held.map (·.id) := by
    rw [State.held, ← slots_jobs, List.map_map]
    rfl
  have hsum : s.places.map (·.2.id) = ↑(s.held.map (·.id)) + (↑(s.channel.map (·.id)) +
      ↑(s.timers.map (·.id)) + ↑(s.done.map (·.id)) + ↑(s.handed.map (·.1.id))) := by
    simp only [State.places, State.stock, Multiset.map_add, Multiset.map_coe, hslots, List.map_map]
    rfl
  rw [hsum, State.owned]
  simp only [← Multiset.coe_add]
  abel

private theorem weight_slots (ws : List Worker) :
    ((slots ws).map (·.1.weight)).sum = (ws.filterMap (·.current)).length := by
  rw [← slots_jobs, List.length_map]
  unfold slots
  induction ws with
  | nil => rfl
  | cons w ws ih =>
    cases hw : w.holding with
    | none => rw [List.filterMap_cons_none hw]; exact ih
    | some x =>
      have hone : x.1.weight = 1 := by
        obtain ⟨job, -, rfl⟩ := Option.map_eq_some_iff.mp hw
        rfl
      rw [List.filterMap_cons_some hw, List.map_cons, List.sum_cons, ih, hone, List.length_cons]
      push_cast
      omega

private theorem weight_const {p : Place} {α : Type} (f : α → Holding) (l : List α)
    (h : ∀ x, (f x).1.weight = p.weight) :
    ((l.map f).map (·.1.weight)).sum = l.length * p.weight := by
  induction l with
  | nil => simp
  | cons x xs ih =>
    rw [List.map_cons, List.map_cons, List.sum_cons, ih, h, List.length_cons]
    push_cast
    ring

private theorem pending_eq : (s.places.map (·.1.weight)).sum =
    s.channel.length + s.held.length + s.timers.length := by
  have hqueued := weight_const (p := .queued) (Prod.mk Place.queued) s.channel fun _ => rfl
  have hparked := weight_const (p := .queued) (Prod.mk Place.parked) s.timers fun _ => rfl
  have hdone := weight_const (p := .done) (Prod.mk Place.done) s.done fun _ => rfl
  have hhanded := weight_const (p := .done) (fun x : JobEnvelope × Bool => (Place.handed x.2, x.1))
    s.handed fun _ => rfl
  have hslots := weight_slots s.workers
  have hone : Place.queued.weight = 1 := rfl
  have hzero : Place.done.weight = 0 := rfl
  simp only [State.places, State.stock, Multiset.map_add, Multiset.map_coe, Multiset.sum_add,
    Multiset.sum_coe]
  rw [hqueued, hparked, hdone, hhanded, hslots, hone, hzero, State.held]
  ring

theorem Inv.conserved (h : Inv s) : Conserved s where
  one job hjob := by
    have hnodup := h.ledger.ids_nodup
    rw [owned_eq] at hnodup
    refine List.count_eq_one_of_mem (Multiset.coe_nodup.mp hnodup) ?_
    have htag : job.tag ∈ s.places.map (·.2.tag) := by
      rw [h.ledger.own]
      exact Multiset.mem_coe.mpr (List.mem_map_of_mem hjob)
    obtain ⟨x, hx, heq⟩ := Multiset.mem_map.mp htag
    have hid : x.2.id = job.id := congrArg Prod.fst heq
    have hmem : x.2.id ∈ s.places.map (·.2.id) := Multiset.mem_map_of_mem _ hx
    rw [owned_eq, hid] at hmem
    exact Multiset.mem_coe.mp hmem
  only id hid := by
    have hmem : id ∈ s.places.map (·.2.id) := by
      rw [owned_eq]
      exact Multiset.mem_coe.mpr hid
    obtain ⟨x, hx, rfl⟩ := Multiset.mem_map.mp hmem
    exact h.ledger.mem_dispatched hx
  pending := h.ledger.pending.trans pending_eq
  done := h.done
  delivered := h.delivering
  attempts job hjob := by
    have htag : job.tag ∈ s.places.map (·.2.tag) := by
      rw [h.ledger.own]
      exact Multiset.mem_coe.mpr (List.mem_map_of_mem hjob)
    obtain ⟨x, hx, heq⟩ := Multiset.mem_map.mp htag
    have hid : x.2.id = job.id := congrArg Prod.fst heq
    have hmax : x.2.maxAttempts = job.maxAttempts := congrArg Prod.snd heq
    have hcap := (h.ledger.good x hx).le_cap
    rw [hid, JobEnvelope.cap, hmax, Nat.max_comm] at hcap
    exact hcap
  once p hp hspent := by
    have hx : ((.handed p.2, p.1) : Holding) ∈ s.places := by
      refine Multiset.mem_add.mpr (.inr (Multiset.mem_add.mpr (.inr ?_)))
      exact Multiset.mem_coe.mpr (List.mem_map_of_mem (f := fun p => (Place.handed p.2, p.1)) hp)
    have hgood : s.started.count p.1.id ≤ p.1.cap ∧ (p.2 = true → p.1.id ∈ s.started) :=
      h.ledger.good _ hx
    exact hgood.2 hspent

/-- Where every abort is safe and no hook panics, the queue conserves its jobs. -/
theorem jobs_conserved (n : Nat) (s : State) (h : Reach (step n) Allowed .initial s) :
    Conserved s := by
  have hinv : Inv s := by
    apply h.invariant inv_initial
    intro e x y hok hstep hx
    exact hx.next hok hstep
  exact hinv.conserved

/-- A job that fails for good. -/
private def mail : JobEnvelope := ⟨"mail", 7, "", 0, 1, none⟩

private def mailHandler : Registered := ⟨fun payload => payload⟩

private def fatalRun : Ran := ⟨.error (.fatal "no"), 0⟩

/-- The job is dispatched, picked and run, and its handler fails. -/
private def mailFails : List Event :=
  [.register "mail" mailHandler, .onDeadLetter, .dispatch mail, .start, .work 0 fatalRun,
    .work 0 fatalRun, .work 0 fatalRun, .work 0 fatalRun]

/-- Its dead letter is delivered. -/
theorem mail_conserved :
    ∃ s, Reach (step 1) Allowed .initial s ∧ s.delivered = [7] ∧ Conserved s := by
  have hrun : (steps (guarded (step 1) Allowed) (mailFails ++ [.work 0 fatalRun])
      .initial).map (·.delivered) = some [7] := by rfl
  obtain ⟨s, hs, hdelivered⟩ := Option.map_eq_some_iff.mp hrun
  have hreach : Reach (step 1) Allowed .initial s := .of_guarded hs
  exact ⟨s, hreach, hdelivered, jobs_conserved 1 s hreach⟩

/-- A shutdown aborts the worker in the callback: the job is gone, its dead letter not delivered. -/
theorem mail_lost : ∃ s, steps (step 1) (mailFails ++ [.shutdown, .abort 0, .close]) .initial =
    some s ∧ ¬ Conserved s := by
  have hrun : (steps (step 1) (mailFails ++ [.shutdown, .abort 0, .close]) .initial).map
      (fun s => (s.handed.map (·.1.id), s.delivered, s.workers.length)) = some ([7], [], 0) := by
    rfl
  obtain ⟨s, hs, hobs⟩ := Option.map_eq_some_iff.mp hrun
  simp only [Prod.mk.injEq, List.length_eq_zero_iff] at hobs
  refine ⟨s, hs, fun hconserved => ?_⟩
  have hmem : 7 ∈ s.handed.map (·.1.id) := by
    rw [hobs.1]
    exact List.mem_cons_self
  obtain ⟨p, hp, hid⟩ := List.mem_map.mp hmem
  rcases hconserved.delivered p hp with hdone | ⟨w, hw, -⟩
  · rw [hobs.2.1] at hdone
    cases hdone
  · rw [hobs.2.2] at hw
    cases hw

end Rustango.MemoryQueue
