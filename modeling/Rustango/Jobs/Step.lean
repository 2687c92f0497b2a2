import Mathlib.Tactic.SplitIfs
import Rustango.Jobs.Queue

/-!
# What a step of the queue can do

Six effects: a job is dispatched, picked, started, refunded or removed, or nothing happens but that
locks are given up or refreshed and a worker moves on with the job it has.
-/

namespace Rustango.Jobs

open Function Rustango.Runs

variable {W S : Type}

/-- The job of a worker that may still start or refund it. -/
def Phase.pending? : Phase → Option PickedJob
  | .picked job | .unpicking job | .givingBack job => some job
  | _ => none

/-- A lock refreshed or given up. -/
structure LockEased (r r' : Row W) : Prop where
  owner : r'.lockedBy = r.lockedBy ∨ r'.lockedBy = none
  both : (r.lockedAt = none ↔ r.lockedBy = none) → (r'.lockedAt = none ↔ r'.lockedBy = none)

/-- The same row but for its lock. -/
structure RowEased (r r' : Row W) : Prop where
  attempt : r'.attempt = r.attempt
  maxAttempts : r'.maxAttempts = r.maxAttempts
  lock : LockEased r r'

theorem LockEased.same {r r' : Row W} (hat : r'.lockedAt = r.lockedAt)
    (hby : r'.lockedBy = r.lockedBy) : LockEased r r' :=
  ⟨.inl hby, fun h => by rw [hat, hby]; exact h⟩

theorem LockEased.unlocked {r r' : Row W} (hat : r'.lockedAt = none) (hby : r'.lockedBy = none) :
    LockEased r r' :=
  ⟨.inr hby, fun _ => iff_of_true hat hby⟩

theorem LockEased.beat {r r' : Row W} {x : W} {now : Int} (hx : r.lockedBy = some x)
    (hat : r'.lockedAt = some now) (hby : r'.lockedBy = r.lockedBy) : LockEased r r' :=
  ⟨.inl hby, fun _ => by simp [hat, hby, hx]⟩

theorem RowEased.refl (r : Row W) : RowEased r r := ⟨rfl, rfl, .same rfl rfl⟩

structure Eased (rows rows' : Nat → Option (Row W)) : Prop where
  row : ∀ id r', rows' id = some r' → ∃ r, rows id = some r ∧ RowEased r r'
  none : ∀ id, rows' id = none → rows id = none

/-- A worker goes on with the job it has, or drops it. -/
structure Phase.Keeps (p p' : Phase) : Prop where
  job : ∀ job, p'.job? = some job → p.job? = some job
  pending : ∀ job, p'.pending? = some job → p.pending? = some job

/-- The job an entry is about. -/
def Entry.id : Entry W → Nat
  | .dispatched id _ | .picked id _ | .refunded id | .started id _ | .returnedOk id _ _
  | .deadLettered id _ _ => id

/-- An entry about the end of a run. -/
def Entry.isEnd : Entry W → Bool
  | .returnedOk .. | .deadLettered .. => true
  | _ => false

/-- What led a worker to the deletion of a row. -/
def Phase.Reason (log : List (Entry W)) (x : W) : Phase → Prop
  | .finishing job => ∃ held, Entry.returnedOk job.id x held ∈ log
  | .calledBack job => ∃ called, Entry.deadLettered job.id x called ∈ log
  | _ => True

theorem Eased.refl (rows : Nat → Option (Row W)) : Eased rows rows :=
  ⟨fun _ r h => ⟨r, h, .refl r⟩, fun _ h => h⟩

private theorem map_eased {rows : Nat → Option (Row W)} {g : Nat → Row W → Row W}
    (hg : ∀ id r, RowEased r (g id r)) : Eased rows fun id => (rows id).map (g id) := by
  refine ⟨fun id r' h => ?_, fun id h => Option.map_eq_none_iff.mp h⟩
  obtain ⟨r, hr, rfl⟩ := Option.map_eq_some_iff.mp h
  exact ⟨r, hr, hg id r⟩

theorem Phase.Keeps.refl (p : Phase) : p.Keeps p := ⟨fun _ h => h, fun _ h => h⟩

theorem Phase.keeps_idle (p : Phase) : p.Keeps .idle := ⟨nofun, nofun⟩

variable [DecidableEq W]

inductive Effect (w w' : World W S) : Prop where
  | ease (rows : Eased w.rows w'.rows) (next : w'.next = w.next)
      (phase : ∀ y, (w.phase y).Keeps (w'.phase y))
      (reason : ∀ y, w'.phase y = w.phase y ∨ (w'.phase y).Reason w'.log y)
      (log : ∃ es, w'.log = es ++ w.log ∧ ∀ e ∈ es, e.isEnd = true ∧
        ∃ y job, (w.phase y).job? = some job ∧ e.id = job.id)
  | pick (x : W) (id : Nat) (r r' : Row W) (idle : w.phase x = .idle) (row : w.rows id = some r)
      (free : r.lockedAt = none) (locked : r'.lockedAt ≠ none)
      (rows : w'.rows = update w.rows id (some r')) (attempt : r'.attempt = r.attempt + 1)
      (maxAttempts : r'.maxAttempts = r.maxAttempts) (lock : r'.lockedBy = some x)
      (next : w'.next = w.next) (log : w'.log = .picked id x :: w.log) (p : Phase)
      (phase : w'.phase = update w.phase x p)
      (job : p = .idle ∨
        ∃ job, p = .picked job ∧ job.id = id ∧ job.attempt = r'.attempt ∧
          job.maxAttempts = r.maxAttempts)
  | start (x : W) (job : PickedJob) (picked : w.phase x = .picked job)
      (unspent : attemptsSpent (job.attempt.toNat - 1) job.maxAttempts.toNat = false)
      (rows : w'.rows = w.rows) (next : w'.next = w.next)
      (phase : w'.phase = update w.phase x (.running job false))
      (log : w'.log = .started job.id job.attempt :: w.log)
  | refund (x : W) (job : PickedJob) (r r' : Row W) (pending : (w.phase x).pending? = some job)
      (row : w.rows job.id = some r) (holds : r.lockedBy = some x)
      (rows : w'.rows = update w.rows job.id (some r')) (attempt : r'.attempt = r.attempt - 1)
      (maxAttempts : r'.maxAttempts = r.maxAttempts)
      (lock : LockEased r r') (next : w'.next = w.next)
      (phase : w'.phase = update w.phase x .idle) (log : w'.log = .refunded job.id :: w.log)
  | remove (x : W) (job : PickedJob) (r : Row W)
      (at_ : w.phase x = .finishing job ∨ w.phase x = .calledBack job)
      (row : w.rows job.id = some r) (holds : r.lockedBy = some x)
      (rows : w'.rows = update w.rows job.id none) (next : w'.next = w.next)
      (phase : w'.phase = update w.phase x .idle) (log : w'.log = w.log)
  | dispatch (d : Dispatch) (rows : w'.rows = update w.rows w.next (some d.row))
      (next : w'.next = w.next + 1) (phase : w'.phase = w.phase)
      (log : w'.log = .dispatched w.next d.maxAttempts :: w.log)

@[simp] theorem setPhase_self (w : World W S) (x : W) (p : Phase) : (w.setPhase x p).phase x = p :=
  update_self ..

omit [DecidableEq W] in
@[simp] theorem note_phase (w : World W S) (e : Entry W) : (w.note e).phase = w.phase := rfl

variable {w : World W S} {x : W} {id : Nat}

theorem holds_iff : w.holds x id = true ↔ ∃ r, w.rows id = some r ∧ r.lockedBy = some x := by
  simp [World.holds, Option.any_eq_true]

private theorem writeHeld_eased {f : Row W → Row W} (hf : ∀ r, r.lockedBy = some x → RowEased r (f r)) :
    Eased w.rows (w.writeHeld x id (some ∘ f)).rows := by
  have h : (w.writeHeld x id (some ∘ f)).rows = fun i => (w.rows i).map fun r =>
      if i = id ∧ r.lockedBy = some x then f r else r := by
    funext i
    cases hi : w.rows i with
    | none => simp [World.writeHeld, hi]
    | some r =>
      simp only [World.writeHeld, hi, Option.bind_some, Option.map_some, Function.comp_apply]
      split <;> rfl
  rw [h]
  refine map_eased fun i r => ?_
  split
  · exact hf r (by simp_all)
  · exact .refl r

private theorem releaseRows_eased : Eased w.rows (releaseRows w x).rows := by
  refine map_eased fun _ r => ?_
  split
  · exact ⟨rfl, rfl, .unlocked rfl rfl⟩
  · exact .refl _

omit [DecidableEq W] in
private theorem reclaimRow_eased {cutoff : Int} : Eased w.rows (reclaimRow w cutoff id).rows := by
  refine map_eased fun _ r => ?_
  split
  · exact ⟨rfl, rfl, .unlocked rfl rfl⟩
  · exact .refl _

/-- A guarded write, done or not held. -/
theorem writeHeld_cases (w : World W S) (x : W) (id : Nat) (f : Row W → Option (Row W)) :
    (w.holds x id = false ∧ w.writeHeld x id f = w) ∨
      ∃ r, w.rows id = some r ∧ r.lockedBy = some x ∧
        w.writeHeld x id f = { w with rows := update w.rows id (f r) } := by
  have hrow : ∀ i, i ≠ id → (w.writeHeld x id f).rows i = w.rows i := by
    intro i hi
    simp [World.writeHeld, hi]
  cases hh : w.holds x id with
  | true =>
    obtain ⟨r, hr, hx⟩ := holds_iff.mp hh
    refine .inr ⟨r, hr, hx, ?_⟩
    refine congrArg (fun rows => { w with rows := rows }) (funext fun i => ?_)
    by_cases hi : i = id
    · subst hi
      simp [hr, hx]
    · exact (hrow i hi).trans (update_of_ne hi ..).symm
  | false =>
    refine .inl ⟨rfl, ?_⟩
    refine congrArg (fun rows => { w with rows := rows }) (funext fun i => ?_)
    by_cases hi : i = id
    · subst hi
      cases hr : w.rows i with
      | none => rfl
      | some r =>
        have hx : r.lockedBy ≠ some x := fun hx => by
          rw [holds_iff.mpr ⟨r, hr, hx⟩] at hh
          cases hh
        simp [hx]
    · exact hrow i hi

/-- The guarded writes of a worker, done where they do not fail. -/
inductive Statement (w : World W S) (x : W) (now : Int) (ok : Bool) : World W S → Prop where
  | refund (job : PickedJob) (f : Row W → Row W) (pending : (w.phase x).pending? = some job) :
      Statement w x now ok ((if ok then statement.refund w x job f else w).setPhase x .idle)
  | write (job : PickedJob) (f : Row W → Option (Row W)) (job_ : (w.phase x).job? = some job) :
      Statement w x now ok ((if ok then w.writeHeld x job.id f else w).setPhase x .idle)
  | gone : Statement w x now ok (w.setPhase x .idle)
  | confirm (job : PickedJob) (error : String) (confirming : w.phase x = .confirming job error)
      (held : ok = true → w.holds x job.id = true) : Statement w x now ok
        ((if ok then w.writeHeld x job.id fun r => some { r with lockedAt := some now }
          else w).setPhase x (.confirmed job error))

theorem statement_cases {now : Int} {ok : Bool} {w' : World W S}
    (h : statement w x now ok = some w') : Statement w x now ok w' := by
  unfold statement at h
  split at h
  · cases h
    exact .refund _ _ (by simp [*, Phase.pending?])
  · cases h
    exact .refund _ _ (by simp [*, Phase.pending?])
  · cases h
    exact .write _ _ (by simp [*, Phase.job?])
  · cases h
    exact .write _ _ (by simp [*, Phase.job?])
  · cases h
    exact .write _ _ (by simp [*, Phase.job?])
  · split at h <;> cases h
    · exact .gone
    · rename_i hheld
      exact .confirm _ _ ‹_› fun hok => by simpa [hok] using hheld
  · cases h

theorem refund_cases (w : World W S) (x : W) (job : PickedJob) (f : Row W → Row W) :
    statement.refund w x job f = w ∨
      statement.refund w x job f = (w.writeHeld x job.id (some ∘ f)).note (.refunded job.id) := by
  unfold statement.refund
  split
  · exact .inr rfl
  · exact .inl rfl

theorem look_rows {registered : Bool} {job : PickedJob} :
    (look w x registered job).rows = w.rows := by
  unfold look
  split_ifs <;> rfl

theorem returned_rows {now : Int} {ran : Ran} {job : PickedJob} {leaseGone : Bool} :
    (returned w x now ran job leaseGone).rows = w.rows := by
  unfold returned
  cases ran.result <;> simp only <;> split_ifs <;> first | rfl | (split <;> rfl)

theorem Ran.next_eq_done (ran : Ran) (runs maxAttempts : Nat) :
    ran.next runs maxAttempts = .done ↔ ran.result = .ok () := by
  unfold Ran.next
  split
  · simp [*]
  · split <;> simp [*]
  · simp [*]

/-- Where a worker goes on after its handler. -/
theorem returned_phase (w : World W S) (x : W) (now : Int) (ran : Ran) (job : PickedJob)
    (leaseGone : Bool) :
    ((returned w x now ran job leaseGone).phase x = .idle ∧ leaseGone = true) ∨
      leaseGone = false ∧
        (((returned w x now ran job leaseGone).phase x = .finishing job ∧ ran.result = .ok ()) ∨
          ran.result ≠ .ok () ∧
            ((∃ next error, (returned w x now ran job leaseGone).phase x = .retrying job next error) ∨
              ∃ error, (returned w x now ran job leaseGone).phase x = .confirming job error)) := by
  cases leaseGone with
  | true => exact .inl ⟨by simp [returned], rfl⟩
  | false =>
    refine .inr ⟨rfl, ?_⟩
    unfold returned
    have hdone := ran.next_eq_done job.attempt.toNat job.maxAttempts.toNat
    cases hn : ran.next job.attempt.toNat job.maxAttempts.toNat with
    | done => exact .inl ⟨by simp, hdone.mp hn⟩
    | retry wait error =>
      exact .inr ⟨fun hok => (by cases hn.symm.trans (hdone.mpr hok)),
        .inl ⟨now + wait, error, by simp⟩⟩
    | deadLetter error =>
      exact .inr ⟨fun hok => (by cases hn.symm.trans (hdone.mpr hok)), .inr ⟨error, by simp⟩⟩

theorem keeps_set {p : Phase} (h : (w.phase x).Keeps p) (y : W) :
    (w.phase y).Keeps (update w.phase x p y) := by
  by_cases hy : y = x
  · subst hy
    rwa [update_self]
  · rw [update_of_ne hy]
    exact .refl _

theorem reason_set {p : Phase} {log : List (Entry W)} (h : p = w.phase x ∨ p.Reason log x) (y : W) :
    update w.phase x p y = w.phase y ∨ (update w.phase x p y).Reason log y := by
  by_cases hy : y = x
  · subst hy
    rwa [update_self]
  · rw [update_of_ne hy]
    exact .inl rfl

theorem Effect.move {p : Phase} {w' : World W S} (rows : Eased w.rows w'.rows)
    (next : w'.next = w.next) (phase : w'.phase = update w.phase x p) (log : w'.log = w.log)
    (keeps : (w.phase x).Keeps p) (reason : p.Reason w.log x) : Effect w w' :=
  .ease rows next (phase ▸ keeps_set keeps)
    (by rw [phase, log]; exact reason_set (.inr reason)) ⟨[], log, nofun⟩

theorem Effect.still {w' : World W S} (rows : Eased w.rows w'.rows) (next : w'.next = w.next)
    (phase : w'.phase = w.phase) (log : w'.log = w.log) : Effect w w' :=
  .ease rows next (phase ▸ fun _ => .refl _) (fun y => .inl (congrFun phase y)) ⟨[], log, nofun⟩

private theorem refund_effect {job : PickedJob} {f : Row W → Row W} (hpending : (w.phase x).pending? = some job)
    (hf : ∀ r, (f r).attempt = r.attempt - 1 ∧ (f r).maxAttempts = r.maxAttempts ∧
      LockEased r (f r)) :
    Effect w ((statement.refund w x job f).setPhase x .idle) := by
  unfold statement.refund
  obtain ⟨hno, -⟩ | ⟨r, hr, hx, hwrite⟩ := writeHeld_cases w x job.id (some ∘ f)
  · rw [if_neg (by simp [hno])]
    exact .move (.refl _) rfl rfl rfl ⟨nofun, nofun⟩ trivial
  · rw [if_pos (holds_iff.mpr ⟨r, hr, hx⟩), hwrite]
    obtain ⟨hattempt, hmax, hlock⟩ := hf r
    exact .refund x job r (f r) hpending hr hx rfl hattempt hmax hlock rfl rfl rfl

private theorem remove_effect {job : PickedJob}
    (hat : w.phase x = .finishing job ∨ w.phase x = .calledBack job) :
    Effect w ((w.writeHeld x job.id fun _ => none).setPhase x .idle) := by
  obtain ⟨-, hsame⟩ | ⟨r, hr, hx, hwrite⟩ := writeHeld_cases w x job.id fun _ => none
  · rw [hsame]
    exact .move (.refl _) rfl rfl rfl ⟨nofun, nofun⟩ trivial
  · rw [hwrite]
    exact .remove x job r hat hr hx rfl rfl rfl rfl

private theorem statement_effect {now : Int} {ok : Bool} {w' : World W S}
    (h : statement w x now ok = some w') : Effect w w' := by
  have failed : Effect w (w.setPhase x .idle) :=
    .move (.refl _) rfl rfl rfl ⟨nofun, nofun⟩ trivial
  unfold statement at h
  split at h
  · cases h
    cases ok with
    | false => exact failed
    | true => exact refund_effect (by simp [*, Phase.pending?]) fun r => ⟨rfl, rfl, .unlocked rfl rfl⟩
  · cases h
    cases ok with
    | false => exact failed
    | true => exact refund_effect (by simp [*, Phase.pending?]) fun r => ⟨rfl, rfl, .same rfl rfl⟩
  · cases h
    cases ok with
    | false => exact failed
    | true => exact remove_effect (.inl ‹_›)
  · cases h
    cases ok with
    | false => exact failed
    | true => exact remove_effect (.inr ‹_›)
  · cases h
    cases ok with
    | false => exact failed
    | true =>
      exact .move (writeHeld_eased fun r _ => ⟨rfl, rfl, .unlocked rfl rfl⟩) rfl rfl rfl
        ⟨nofun, nofun⟩ trivial
  · rename_i job error hx
    have hkeeps : (w.phase x).Keeps (.confirmed job error) := by
      rw [hx]
      exact ⟨fun _ h => h, nofun⟩
    split at h <;> cases h
    · exact failed
    · cases ok with
      | false => exact .move (.refl _) rfl rfl rfl hkeeps trivial
      | true =>
        exact .move (writeHeld_eased fun r hr => ⟨rfl, rfl, .beat hr rfl rfl⟩) rfl rfl rfl hkeeps
          trivial
  · cases h

private theorem look_effect {registered : Bool} {job : PickedJob} (h : w.phase x = .picked job) :
    Effect w (look w x registered job) := by
  unfold look
  split
  · exact .move (.refl _) rfl rfl rfl (h ▸ ⟨fun _ h => h, fun _ h => h⟩) trivial
  split
  · exact .move (.refl _) rfl rfl rfl (h ▸ ⟨fun _ h => h, fun _ h => h⟩) trivial
  split
  · exact .move (.refl _) rfl rfl rfl (h ▸ ⟨fun _ h => h, nofun⟩) trivial
  · exact .start x job h (Bool.eq_false_iff.mpr ‹_›) rfl rfl rfl rfl

private theorem returned_effect {now : Int} {ran : Ran} {job : PickedJob} {leaseGone : Bool}
    (h : w.phase x = .running job leaseGone) : Effect w (returned w x now ran job leaseGone) := by
  unfold returned
  cases hr : ran.result with
  | ok _ =>
    have hlog : ∃ es, (Entry.returnedOk job.id x (w.holds x job.id) :: w.log) = es ++ w.log ∧
        ∀ e ∈ es, e.isEnd = true ∧ ∃ y job, (w.phase y).job? = some job ∧ e.id = job.id := by
      refine ⟨[_], rfl, fun e he => ?_⟩
      obtain rfl := List.mem_singleton.mp he
      exact ⟨rfl, x, job, h ▸ rfl, rfl⟩
    cases leaseGone with
    | true => exact .ease (.refl _) rfl (keeps_set ⟨nofun, nofun⟩) (reason_set (.inr trivial)) hlog
    | false =>
      rw [(ran.next_eq_done _ _).mpr hr]
      exact .ease (.refl _) rfl (keeps_set (h ▸ ⟨fun _ h => h, nofun⟩))
        (reason_set (.inr ⟨_, List.mem_cons_self⟩)) hlog
  | error error =>
    cases leaseGone with
    | true => exact .move (.refl _) rfl rfl rfl ⟨nofun, nofun⟩ trivial
    | false =>
      cases hn : ran.next job.attempt.toNat job.maxAttempts.toNat with
      | done => cases hr.symm.trans ((ran.next_eq_done _ _).mp hn)
      | retry => exact .move (.refl _) rfl rfl rfl (h ▸ ⟨fun _ h => h, nofun⟩) trivial
      | deadLetter => exact .move (.refl _) rfl rfl rfl (h ▸ ⟨fun _ h => h, nofun⟩) trivial

private theorem beat_effect {now : Int} : Effect w (beat w x id now) := by
  have hrows : Eased w.rows (w.writeHeld x id fun r => some { r with lockedAt := some now }).rows :=
    writeHeld_eased fun r hr => ⟨rfl, rfl, .beat hr rfl rfl⟩
  unfold beat
  split
  · rename_i job leaseGone hx
    simp only
    split
    · exact .move hrows rfl rfl rfl (hx ▸ ⟨fun _ h => h, nofun⟩) trivial
    · exact .still hrows rfl rfl rfl
  · exact .still hrows rfl rfl rfl

private theorem pick_effect {filter : QueueFilter} {now : Int} {kept : Bool} {job : PickedJob}
    {w₁ : World W S} (h : pick w x filter id now = some (job, w₁)) (hidle : w.phase x = .idle) :
    Effect w (if kept then w₁.setPhase x (.picked job) else w₁) := by
  unfold pick at h
  split at h
  · cases h
  · rename_i r hr
    split at h <;> cases h
    rename_i hfree
    cases kept with
    | true =>
      exact .pick x id r _ hidle hr hfree.1 (Option.some_ne_none now) rfl rfl rfl rfl rfl rfl (.picked _) rfl
        (.inr ⟨_, rfl, rfl, rfl, rfl⟩)
    | false =>
      exact .pick x id r _ hidle hr hfree.1 (Option.some_ne_none now) rfl rfl rfl rfl rfl rfl .idle
        (update_eq_self_iff.mpr hidle.symm).symm (.inl rfl)

variable [DecidableEq S]

/-- What a pickup does. -/
theorem pick_step {cfg : Config W S} {now : Int} {kept : Bool} {w' : World W S}
    (h : step cfg (.pick x id now kept) w = some w') : w.phase x = .idle ∧
      ∃ r, w.rows id = some r ∧ r.lockedAt = none ∧ w'.rows = update w.rows id (some { r with
        lockedAt := some now, lockedBy := some x, attempt := r.attempt + 1 }) ∧
        w'.log = .picked id x :: w.log ∧
        (w'.phase = w.phase ∨ ∃ job, w'.phase = update w.phase x (.picked job) ∧ job.id = id) := by
  simp only [step] at h
  split at h
  case isFalse => cases h
  case isTrue hidle =>
    obtain ⟨⟨job, w₁⟩, hpick, rfl⟩ := Option.map_eq_some_iff.mp h
    unfold pick at hpick
    split at hpick
    · cases hpick
    · rename_i r hr
      split at hpick <;> cases hpick
      rename_i hfree
      refine ⟨hidle, r, hr, hfree.1, ?_⟩
      cases kept with
      | true => exact ⟨rfl, rfl, .inr ⟨_, rfl, rfl⟩⟩
      | false => exact ⟨rfl, rfl, .inl rfl⟩

theorem step_effect {cfg : Config W S} {e : Event W S} {w' : World W S}
    (h : step cfg e w = some w') : Effect w w' := by
  cases e with
  | dispatch d =>
    cases h
    exact .dispatch d rfl rfl rfl rfl
  | start x =>
    simp only [step] at h
    split at h <;> cases h
    exact .move (.refl _) rfl rfl rfl ⟨nofun, nofun⟩ trivial
  | stop x =>
    cases h
    exact .still (.refl _) rfl rfl rfl
  | leave x =>
    simp only [step] at h
    split at h <;> cases h
    exact .move (.refl _) rfl rfl rfl ⟨nofun, nofun⟩ trivial
  | pick x id now kept =>
    simp only [step] at h
    split at h
    case isFalse => cases h
    case isTrue hidle =>
      obtain ⟨⟨job, w₁⟩, hpick, rfl⟩ := Option.map_eq_some_iff.mp h
      exact pick_effect hpick hidle
  | look x registered =>
    simp only [step] at h
    split at h <;> cases h
    exact look_effect ‹_›
  | returned x now ran =>
    simp only [step] at h
    split at h <;> cases h
    exact returned_effect ‹_›
  | statement x now ok => exact statement_effect h
  | callBack x called =>
    simp only [step] at h
    split at h <;> cases h
    rename_i job error hx
    refine .ease (.refl _) rfl (keeps_set (hx ▸ ⟨fun _ h => h, nofun⟩)) (reason_set (.inr ?_))
      ⟨[_], rfl, fun e he => ?_⟩
    · exact ⟨called, List.mem_cons_self⟩
    · obtain rfl := List.mem_singleton.mp he
      exact ⟨rfl, x, job, hx ▸ rfl, rfl⟩
  | beat x id now =>
    cases h
    exact beat_effect
  | abort x =>
    simp only [step] at h
    split at h <;> cases h
    exact .move (.refl _) rfl rfl rfl ⟨nofun, nofun⟩ trivial
  | release x ok =>
    simp only [step] at h
    split at h <;> cases h
    cases ok with
    | true => exact .move releaseRows_eased rfl rfl rfl ⟨nofun, nofun⟩ trivial
    | false => exact .move (.refl _) rfl rfl rfl ⟨nofun, nofun⟩ trivial
  | crash x =>
    cases h
    exact .move (.refl _) rfl rfl rfl ⟨nofun, nofun⟩ trivial
  | select s now =>
    cases h
    exact .still (.refl _) rfl rfl rfl
  | reclaim s ok =>
    simp only [step] at h
    split at h <;> cases h
    cases ok with
    | true => exact .still reclaimRow_eased rfl rfl rfl
    | false => exact .still (.refl _) rfl rfl rfl
  | endSweep s =>
    cases h
    exact .still (.refl _) rfl rfl rfl

end Rustango.Jobs
