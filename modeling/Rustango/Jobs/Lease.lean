import Mathlib.Data.Int.Interval
import Rustango.Jobs.Attempts

/-!
# Leases

A worker whose lease is gone changes nothing, and the books hold in every run of the queue.
-/

namespace Rustango.Jobs

open Function Rustango.Runs

variable {W S : Type}

/-- A row has a lock time and an owner, or neither. -/
def Locked (w : World W S) : Prop :=
  ∀ id r, w.rows id = some r → (r.lockedAt = none ↔ r.lockedBy = none)

/-- How many jobs a worker has taken. -/
def takes (x : W) [DecidableEq W] (log : List (Entry W)) : Nat :=
  log.countP fun
    | .picked _ y => y = x
    | _ => false

/-- The books of every run. -/
structure Kept (w : World W S) : Prop where
  books : Books w
  counts : Counts w
  attempts : Attempts w
  locked : Locked w

theorem Kept.initial : Kept (World.initial : World W S) :=
  ⟨.initial, nofun, .initial, nofun⟩

section Lease
variable [DecidableEq W] {w w' : World W S} {x : W}

/-- The job in hand of a worker is not locked by it. -/
def Lost (w : World W S) (x : W) : Prop :=
  ∀ job, (w.phase x).job? = some job → w.holds x job.id = false

theorem Locked.effect (h : Effect w w') (l : Locked w) : Locked w' := by
  intro i q hq
  cases h with
  | ease rows next phase reason log =>
    obtain ⟨r, hr, heased⟩ := rows.row i q hq
    exact heased.lock.both (l i r hr)
  | pick x id r r' idle row free locked rows attempt maxAttempts lock next log p phase job =>
    obtain ⟨-, rfl⟩ | ⟨-, hq⟩ := row_cases rows hq
    · exact iff_of_false locked (lock ▸ Option.some_ne_none x)
    · exact l i q hq
  | start x job picked unspent rows next phase log => exact l i q (rows ▸ hq)
  | refund x job r r' pending row holds rows attempt maxAttempts lock next phase log =>
    obtain ⟨-, rfl⟩ | ⟨-, hq⟩ := row_cases rows hq
    · exact lock.both (l job.id r row)
    · exact l i q hq
  | remove x job r at_ row holds rows next phase log =>
    have hne : i ≠ job.id := by
      rintro rfl
      rw [rows, update_self] at hq
      cases hq
    rw [rows, update_of_ne hne] at hq
    exact l i q hq
  | dispatch d rows next phase log =>
    obtain ⟨-, rfl⟩ | ⟨-, hq⟩ := row_cases rows hq
    · exact iff_of_true rfl rfl
    · exact l i q hq

private theorem takes_le (h : Effect w w') (x : W) : takes x w.log ≤ takes x w'.log := by
  have hsuffix : w.log <:+ w'.log := by
    cases h with
    | ease _ _ _ _ log =>
      obtain ⟨es, hlog, -⟩ := log
      exact ⟨es, hlog.symm⟩
    | remove _ _ _ _ _ _ _ _ _ log => exact log ▸ List.suffix_rfl
    | pick _ _ _ _ _ _ _ _ _ _ _ _ _ log | start _ _ _ _ _ _ _ log
    | refund _ _ _ _ _ _ _ _ _ _ _ _ _ log | dispatch _ _ _ _ log =>
      exact log ▸ List.suffix_cons _ _
  exact hsuffix.sublist.countP_le

/-- A lease that is gone stays gone while its worker takes no other job. -/
theorem Lost.effect (h : Effect w w') (b : Books w) (same : takes x w'.log = takes x w.log)
    (lost : Lost w x) : Lost w' x := by
  intro job hjob
  by_contra hheld
  obtain ⟨q, hq, hqx⟩ := holds_iff.mp (Bool.eq_true_of_not_eq_false hheld)
  -- the row was this worker's before the step, or the step is a pickup of it
  suffices hbefore : (w.phase x).job? = some job ∧ ∃ r, w.rows job.id = some r ∧ r.lockedBy = some x by
    have hno := lost job hbefore.1
    rw [holds_iff.mpr hbefore.2] at hno
    cases hno
  cases h with
  | ease rows next phase reason log =>
    obtain ⟨r, hr, heased⟩ := rows.row job.id q hq
    refine ⟨(phase x).job job hjob, r, hr, ?_⟩
    obtain hl | hl := heased.lock.owner
    · exact hl.symm.trans hqx
    · cases hl.symm.trans hqx
  | pick y id r r' idle row free locked rows attempt maxAttempts lock next log p phase hp =>
    have hyx : x ≠ y := by
      rintro rfl
      rw [log] at same
      simp [takes] at same
    refine ⟨by rwa [phase, update_of_ne hyx] at hjob, ?_⟩
    obtain ⟨-, rfl⟩ | ⟨-, hq⟩ := row_cases rows hq
    · exact absurd (Option.some.inj (hqx.symm.trans lock)) hyx
    · exact ⟨q, hq, hqx⟩
  | start y j picked unspent rows next phase log =>
    have hkeeps : (w.phase y).Keeps (.running j false) := picked ▸ ⟨fun _ h => h, nofun⟩
    exact ⟨job_of_update phase hkeeps hjob, q, rows ▸ hq, hqx⟩
  | refund y j r r' pending row holds rows attempt maxAttempts lock next phase log =>
    refine ⟨job_of_update phase (w.phase y).keeps_idle hjob, ?_⟩
    obtain ⟨hid, rfl⟩ | ⟨-, hq⟩ := row_cases rows hq
    · refine ⟨r, hid ▸ row, ?_⟩
      obtain hl | hl := lock.owner
      · exact hl.symm.trans hqx
      · cases hl.symm.trans hqx
    · exact ⟨q, hq, hqx⟩
  | remove y j r at_ row holds rows next phase log =>
    refine ⟨job_of_update phase (w.phase y).keeps_idle hjob, q, ?_, hqx⟩
    have hne : job.id ≠ j.id := by
      intro he
      rw [rows, he, update_self] at hq
      cases hq
    rwa [rows, update_of_ne hne] at hq
  | dispatch d rows next phase log =>
    refine ⟨phase ▸ hjob, ?_⟩
    obtain ⟨hid, -⟩ | ⟨-, hq⟩ := row_cases rows hq
    · exact absurd hid (Nat.ne_of_lt (b.lt_of_job (phase ▸ hjob)))
    · exact ⟨q, hq, hqx⟩

/-- The steps of a worker that carry out its run of a job. -/
def Event.isOutcome (x : W) : Event W S → Bool
  | .look y _ | .returned y _ _ | .statement y _ _ | .callBack y _ => y = x
  | _ => false

private theorem writeHeld_lost {id : Nat} {f : Row W → Option (Row W)} (h : w.holds x id = false) :
    w.writeHeld x id f = w := by
  obtain ⟨-, hsame⟩ | ⟨r, hr, hx, -⟩ := writeHeld_cases w x id f
  · exact hsame
  · rw [holds_iff.mpr ⟨r, hr, hx⟩] at h
    cases h

private theorem statement_lost {now : Int} {ok : Bool} (h : statement w x now ok = some w')
    (lost : Lost w x) : w'.rows = w.rows := by
  cases statement_cases h with
  | refund job f pending =>
    have hno := lost job (Phase.job_of_pending pending)
    have hsame : statement.refund w x job f = w := if_neg (by simp [hno])
    rw [hsame, ite_self]
    rfl
  | write job f hjob =>
    rw [writeHeld_lost (lost job hjob), ite_self]
    rfl
  | gone => rfl
  | confirm job error confirming held =>
    rw [writeHeld_lost (lost job (by rw [confirming]; rfl)), ite_self]
    rfl

private theorem removed_by_holder (h : Effect w w') (b : Books w) {id : Nat} {r : Row W}
    (hr : w.rows id = some r) (hnone : w'.rows id = none) : ∃ x, r.lockedBy = some x ∧
      ((∃ held, Entry.returnedOk id x held ∈ w.log) ∨
        ∃ called, Entry.deadLettered id x called ∈ w.log) := by
  have hupdate : ∀ {i q}, w'.rows = update w.rows i (some q) → False := fun hrows => by
    cases hr.symm.trans (none_of_update hrows hnone)
  cases h with
  | ease rows _ _ _ _ => cases hr.symm.trans (rows.none id hnone)
  | pick _ _ _ _ _ _ _ _ rows => exact (hupdate rows).elim
  | start _ _ _ _ rows => cases hr.symm.trans (rows ▸ hnone)
  | refund _ _ _ _ _ _ _ rows => exact (hupdate rows).elim
  | dispatch _ rows => exact (hupdate rows).elim
  | remove x job q at_ row holds rows next phase log =>
    have hreason := b.reason x
    by_cases hid : id = job.id
    · subst hid
      obtain rfl := Option.some.inj (hr.symm.trans row)
      refine ⟨x, holds, ?_⟩
      obtain hx | hx := at_ <;> rw [hx] at hreason
      · exact .inl hreason
      · exact .inr hreason
    · rw [rows, update_of_ne hid] at hnone
      cases hr.symm.trans hnone

variable [DecidableEq S] {cfg : Config W S}

private theorem outcome_lost {e : Event W S} (he : e.isOutcome x = true) (h : step cfg e w = some w')
    (lost : Lost w x) : w'.rows = w.rows := by
  cases e with
  | look y registered =>
    simp only [step] at h
    split at h <;> cases h
    exact look_rows
  | returned y now ran =>
    simp only [step] at h
    split at h <;> cases h
    exact returned_rows
  | statement y now ok =>
    obtain rfl : y = x := of_decide_eq_true he
    exact statement_lost h lost
  | callBack y called =>
    simp only [step] at h
    split at h <;> cases h
    rfl
  | _ => cases he

theorem pick_free (l : Locked w) {id : Nat} {now : Int} {kept : Bool}
    (h : step cfg (.pick x id now kept) w = some w') (y : W) : w.holds y id = false := by
  by_contra hheld
  obtain ⟨r, hr, hy⟩ := holds_iff.mp (Bool.eq_true_of_not_eq_false hheld)
  obtain ⟨-, r', hr', hfree, -⟩ := pick_step h
  obtain rfl := Option.some.inj (hr.symm.trans hr')
  cases ((l id r hr).mp hfree).symm.trans hy

theorem Kept.step {e : Event W S} (h : step cfg e w = some w') (k : Kept w) : Kept w' :=
  have effect := step_effect h
  ⟨k.books.effect effect, k.counts.effect effect k.books, k.attempts.effect effect k.books,
    k.locked.effect effect⟩

theorem Kept.reach {ok : Event W S → World W S → Prop} (h : Reach (Jobs.step cfg) ok w w')
    (k : Kept w) : Kept w' :=
  h.invariant k fun _ _ _ _ hstep hk => hk.step hstep

/-- What holds of a run of the queue that leads from `w` to `w'`. -/
structure QueueSafe (cfg : Config W S) (w w' : World W S) : Prop where
  one_holder : ∀ id x y, w'.holds x id = true → w'.holds y id = true → x = y
  pick_free : ∀ x id now kept w'', Jobs.step cfg (.pick x id now kept) w' = some w'' →
    ∀ y, w'.holds y id = false
  lost : ∀ x job, (w.phase x).job? = some job → w.holds x job.id = false →
    takes x w'.log = takes x w.log → ∀ e w'', e.isOutcome x = true →
      Jobs.step cfg e w' = some w'' → w''.rows = w'.rows
  removed : ∀ e w'' id r, Jobs.step cfg e w' = some w'' → w'.rows id = some r →
    w''.rows id = none → ∃ x, r.lockedBy = some x ∧
      ((∃ held, Entry.returnedOk id x held ∈ w'.log) ∨
        ∃ called, Entry.deadLettered id x called ∈ w'.log)
  gone : ∀ id m, Entry.dispatched id m ∈ w'.log → w'.rows id = none →
    (∃ x held, Entry.returnedOk id x held ∈ w'.log) ∨
      ∃ x called, Entry.deadLettered id x called ∈ w'.log
  starts_le : ∀ id m, Entry.dispatched id m ∈ w'.log → (starts id w'.log).length ≤ max m 1
  attempt_eq : ∀ id r, w'.rows id = some r → r.attempt + refunds id w'.log = pickups id w'.log
  refunds_le : ∀ id r, w'.rows id = some r →
    (starts id w'.log).length + refunds id w'.log ≤ pickups id w'.log

private theorem length_le_of_range {l : List Int} {n : Int} (hnodup : l.Nodup) (hl : ∀ a ∈ l, 1 ≤ a ∧ a ≤ n)
    (hn : 0 ≤ n) : l.length ≤ n := by
  have hsub : l.toFinset ⊆ Finset.Icc 1 n := fun a ha =>
    Finset.mem_Icc.mpr (hl a (List.mem_toFinset.mp ha))
  have hcard := Finset.card_le_card hsub
  rw [List.toFinset_card_of_nodup hnodup, Int.card_Icc] at hcard
  omega

theorem Lost.reach {ok : Event W S → World W S → Prop} (h : Reach (Jobs.step cfg) ok w w')
    (k : Kept w) (lost : Lost w x) : takes x w.log ≤ takes x w'.log ∧
      (takes x w'.log = takes x w.log → Lost w' x) := by
  induction h with
  | start => exact ⟨Nat.le_refl _, fun _ => lost⟩
  | next e run _ taken ih =>
    obtain ⟨hle, hlost⟩ := ih
    have effect := step_effect taken
    have hle' := takes_le effect x
    refine ⟨hle.trans hle', fun hsame => ?_⟩
    exact (hlost (by omega)).effect effect (k.reach run).books (by omega)

/-- The queue loses no job and shares no lease, in every run. -/
theorem queue_safe {ok : Event W S → World W S → Prop}
    (h : Reach (Jobs.step cfg) ok World.initial w) (h' : Reach (Jobs.step cfg) ok w w') :
    QueueSafe cfg w w' := by
  have kw : Kept w := Kept.initial.reach h
  have k : Kept w' := kw.reach h'
  refine ⟨fun id x y hx hy => ?_, fun x id now kept w'' hstep => Jobs.pick_free k.locked hstep,
    fun x job hjob hno hsame e w'' he hstep => ?_,
    fun e w'' id r hstep hr hnone => removed_by_holder (step_effect hstep) k.books hr hnone,
    k.books.gone, fun id m hm => ?_, k.counts, fun id r hr => ?_⟩
  · obtain ⟨r, hr, hrx⟩ := holds_iff.mp hx
    obtain ⟨r', hr', hry⟩ := holds_iff.mp hy
    obtain rfl := Option.some.inj (hr.symm.trans hr')
    exact Option.some.inj (hrx.symm.trans hry)
  · have lost : Lost w x := fun j hj => by
      obtain rfl := Option.some.inj (hjob.symm.trans hj)
      exact hno
    exact outcome_lost he hstep ((lost.reach h' kw).2 hsame)
  · refine length_le_of_range (k.attempts.nodup id) (fun a ha => ?_) (by omega)
    obtain ⟨hpos, hmax, -⟩ := k.attempts.started id a ha
    exact ⟨hpos, hmax m hm⟩
  · have hcount := k.counts id r hr
    have hlen := length_le_of_range (k.attempts.nodup id) (fun a ha => by
      obtain ⟨hpos, -, hle⟩ := k.attempts.started id a ha
      exact ⟨hpos, hle r hr⟩) (k.attempts.nonneg id r hr)
    omega

end Lease

/-- Two workers on one queue, their heartbeats at ten seconds. -/
private def pair : Config Bool Unit := ⟨fun _ => .all, fun _ => 30000⟩

/-- The first worker stalls in its run and a sweep hands its job to the second. -/
private def stalled : List (Event Bool Unit) :=
  [.dispatch ⟨"mail", "null", 2, 0, none⟩, .start false, .start true, .pick false 0 0 true,
    .look false true, .select () 40000, .reclaim () true, .pick true 0 41000 true]

/-- Both runs return `Ok`. -/
private def bothReturn : List (Event Bool Unit) :=
  [.look true true, .returned false 42000 ⟨.ok (), 0⟩, .statement false 42000 true,
    .returned true 43000 ⟨.ok (), 0⟩, .statement true 43000 true]

theorem queue_safe_stalled : ∃ w w' : World Bool Unit,
    (w.phase false).job?.isSome ∧ w.holds false 0 = false ∧ w'.rows 0 = none ∧
      QueueSafe pair w w' := by
  have hrun : ((steps (step pair) stalled .initial).bind fun w =>
      (steps (step pair) bothReturn w).map fun w' =>
        ((w.phase false).job?.isSome, w.holds false 0, (w'.rows 0).isNone)) =
      some (true, false, true) := by decide
  obtain ⟨w, hw, hrest⟩ := Option.bind_eq_some_iff.mp hrun
  obtain ⟨w', hw', hend⟩ := Option.map_eq_some_iff.mp hrest
  obtain ⟨hjob, hend⟩ := Prod.mk.inj hend
  obtain ⟨hlost, hgone⟩ := Prod.mk.inj hend
  have h : Reach (step pair) (fun _ _ => True) .initial w := .of_steps hw fun _ _ _ => trivial
  have h' : Reach (step pair) (fun _ _ => True) w w' := .of_steps hw' fun _ _ _ => trivial
  exact ⟨w, w', hjob, hlost, Option.isNone_iff_eq_none.mp hgone, queue_safe h h'⟩

end Rustango.Jobs
