import Rustango.Jobs.Lease

/-!
# Dead letters

A row is lost between two heartbeats at most where its worker has none: before its run, after it, and
while the dead-letter callback runs. Where no row is taken there, a job is dead-lettered once.
-/

namespace Rustango.Jobs

open Function Rustango.Runs

variable {W S : Type}

/-- What a sweep takes for stale, as `start` raises it. -/
private def sweepAfter (olderThan heartbeat : Int) : Int := max olderThan (heartbeat * 3)

/-- No process crashes and no write fails. -/
def faultless : Event W S → Bool
  | .crash _ => false
  | .statement _ _ ok | .release _ ok | .reclaim _ ok => ok
  | _ => true

/-- The job a worker has picked and not started, or run and not settled: no heartbeat refreshes it. -/
def Phase.exposed : Phase → Option Nat
  | .picked job | .finishing job | .confirmed job _ | .calledBack job => some job.id
  | _ => none

/-- A worker between the end of its run and the write that settles it. -/
def Phase.settling : Phase → Bool
  | .finishing _ | .confirmed .. | .calledBack _ => true
  | _ => false

/-- No sweep takes the row of a worker that has it without a heartbeat, and no shutdown aborts a worker
that is settling its job. -/
def undisturbed (e : Event W S) (w : World W S) : Prop :=
  match e with
  | .abort x => (w.phase x).settling = false
  | .reclaim s _ => ∀ cutoff id ids r lockedAt x, w.sweep s = some ⟨cutoff, id :: ids⟩ →
      w.rows id = some r → r.lockedAt = some lockedAt → lockedAt < cutoff → r.lockedBy = some x →
      (w.phase x).exposed ≠ some id
  | _ => True

def steady (e : Event W S) (w : World W S) : Prop := faultless e = true ∧ undisturbed e w

def deadLetters (id : Nat) (log : List (Entry W)) : Nat :=
  log.countP fun
    | .deadLettered i _ _ => i = id
    | _ => false

section Locks
variable [DecidableEq W] {w w' : World W S} {x : W} {id : Nat}

private theorem holds_before (h : Effect w w') (hheld : w'.holds x id = true) :
    w.holds x id = true ∨ w.phase x = .idle := by
  obtain ⟨q, hq, hqx⟩ := holds_iff.mp hheld
  cases h with
  | ease rows =>
    obtain ⟨r, hr, heased⟩ := rows.row id q hq
    obtain hl | hl := heased.lock.owner
    · exact .inl (holds_iff.mpr ⟨r, hr, hl.symm.trans hqx⟩)
    · cases hl.symm.trans hqx
  | pick y id r r' idle row free locked rows attempt maxAttempts lock =>
    obtain ⟨-, rfl⟩ | ⟨-, hq⟩ := row_cases rows hq
    · exact .inr (Option.some.inj (lock.symm.trans hqx) ▸ idle)
    · exact .inl (holds_iff.mpr ⟨q, hq, hqx⟩)
  | start y job picked unspent rows => exact .inl (holds_iff.mpr ⟨q, rows ▸ hq, hqx⟩)
  | refund y job r r' pending row holds rows attempt maxAttempts lock =>
    obtain ⟨rfl, rfl⟩ | ⟨-, hq⟩ := row_cases rows hq
    · obtain hl | hl := lock.owner
      · exact .inl (holds_iff.mpr ⟨r, row, hl.symm.trans hqx⟩)
      · cases hl.symm.trans hqx
    · exact .inl (holds_iff.mpr ⟨q, hq, hqx⟩)
  | remove y job r at_ row holds rows =>
    have hne : id ≠ job.id := by
      rintro rfl
      rw [rows, update_self] at hq
      cases hq
    rw [rows, update_of_ne hne] at hq
    exact .inl (holds_iff.mpr ⟨q, hq, hqx⟩)
  | dispatch d rows =>
    obtain ⟨-, rfl⟩ | ⟨-, hq⟩ := row_cases rows hq
    · cases hqx
    · exact .inl (holds_iff.mpr ⟨q, hq, hqx⟩)

private theorem none_after (h : Effect w w') (hlt : id < w.next) (hnone : w.rows id = none) :
    w'.rows id = none := by
  by_contra hne
  obtain ⟨q, hq⟩ := Option.ne_none_iff_exists'.mp hne
  cases h with
  | ease rows =>
    obtain ⟨r, hr, -⟩ := rows.row id q hq
    cases hnone.symm.trans hr
  | pick y i r r' idle row free locked rows =>
    obtain ⟨rfl, -⟩ | ⟨-, hq⟩ := row_cases rows hq
    · cases hnone.symm.trans row
    · cases hnone.symm.trans hq
  | start y job picked unspent rows => cases hnone.symm.trans (rows ▸ hq)
  | refund y job r r' pending row holds rows =>
    obtain ⟨rfl, -⟩ | ⟨-, hq⟩ := row_cases rows hq
    · cases hnone.symm.trans row
    · cases hnone.symm.trans hq
  | remove y job r at_ row holds rows =>
    by_cases he : id = job.id
    · rw [rows, he, update_self] at hq
      cases hq
    · rw [rows, update_of_ne he] at hq
      cases hnone.symm.trans hq
  | dispatch d rows =>
    obtain ⟨rfl, -⟩ | ⟨-, hq⟩ := row_cases rows hq
    · exact absurd hlt (Nat.lt_irrefl _)
    · cases hnone.symm.trans hq

private theorem writeHeld_holds {y : W} {i : Nat} {f : Row W → Option (Row W)} (hne : y ≠ x)
    (hheld : w.holds x id = true) : (w.writeHeld y i f).holds x id = true := by
  obtain ⟨r, hr, hx⟩ := holds_iff.mp hheld
  refine holds_iff.mpr ⟨r, ?_, hx⟩
  simp [World.writeHeld, hr, hx, Ne.symm hne]

private theorem holds_of_rows (hrows : w'.rows = w.rows) (hheld : w.holds x id = true) :
    w'.holds x id = true := by
  rwa [World.holds, hrows]

private theorem statement_holds {y : W} {now : Int} {ok : Bool} (h : statement w y now ok = some w')
    (hne : y ≠ x) (hheld : w.holds x id = true) : w'.holds x id = true := by
  have hwrite : ∀ i f p, ((if ok then w.writeHeld y i f else w).setPhase y p).holds x id = true := by
    intro i f p
    cases ok with
    | true => exact writeHeld_holds hne hheld
    | false => exact hheld
  cases statement_cases h with
  | refund job f pending =>
    cases ok with
    | true =>
      obtain hsame | hwritten := refund_cases w y job f
      · simp only [hsame]
        exact hheld
      · simp only [hwritten]
        exact hwrite job.id (some ∘ f) .idle
    | false => exact hheld
  | write job f => exact hwrite ..
  | gone => exact hheld
  | confirm job error => exact hwrite ..

variable [DecidableEq S] {cfg : Config W S} {e : Event W S}

/-- Nobody takes the row of a worker that has it without a heartbeat. -/
private theorem holds_after (h : step cfg e w = some w') (l : Locked w) (b : Books w) (hs : steady e w)
    (hexposed : (w.phase x).exposed = some id) (hheld : w.holds x id = true)
    (hown : ∀ now ok, e ≠ .statement x now ok) : w'.holds x id = true := by
  obtain ⟨r, hr, hx⟩ := holds_iff.mp hheld
  cases e with
  | dispatch d =>
    cases h
    have hne : id ≠ w.next := Nat.ne_of_lt (b.lt_of_row hr)
    exact holds_iff.mpr ⟨r, (update_of_ne hne ..).trans hr, hx⟩
  | start y =>
    simp only [step] at h
    split at h <;> cases h
    exact hheld
  | stop y =>
    cases h
    exact hheld
  | leave y =>
    simp only [step] at h
    split at h <;> cases h
    exact hheld
  | pick y i now kept =>
    have hfree := pick_free l h
    have hne : id ≠ i := by
      rintro rfl
      cases hheld.symm.trans (hfree x)
    obtain ⟨-, q, -, -, hrows, -⟩ := pick_step h
    have hrow : w'.rows id = w.rows id := by rw [hrows, update_of_ne hne]
    exact holds_iff.mpr ⟨r, hrow.trans hr, hx⟩
  | look y registered =>
    simp only [step] at h
    split at h <;> cases h
    exact holds_of_rows look_rows hheld
  | returned y now ran =>
    simp only [step] at h
    split at h <;> cases h
    exact holds_of_rows returned_rows hheld
  | statement y now ok =>
    refine statement_holds h (fun hy => ?_) hheld
    exact hown now ok (hy ▸ rfl)
  | callBack y called =>
    simp only [step] at h
    split at h <;> cases h
    exact hheld
  | beat y i now =>
    cases h
    have hrows : (beat w y i now).rows = (w.writeHeld y i fun r => some { r with lockedAt := some now }).rows := by
      unfold beat
      split
      · split_ifs <;> rfl
      · rfl
    refine holds_of_rows hrows (holds_iff.mpr ?_)
    simp only [World.writeHeld, hr, Option.bind_some]
    split_ifs
    · exact ⟨_, rfl, hx⟩
    · exact ⟨_, rfl, hx⟩
  | abort y =>
    simp only [step] at h
    split at h <;> cases h
    exact hheld
  | release y ok =>
    simp only [step] at h
    split at h <;> cases h
    rename_i haborted
    have hne : y ≠ x := by
      rintro rfl
      rw [haborted] at hexposed
      cases hexposed
    cases ok with
    | false => exact hheld
    | true =>
      refine holds_iff.mpr ⟨r, ?_, hx⟩
      simp [World.setPhase, releaseRows, hr, hx, Ne.symm hne]
  | crash y =>
    cases h
    exact hheld
  | select s now =>
    cases h
    exact hheld
  | reclaim s ok =>
    simp only [step] at h
    split at h <;> cases h
    rename_i cutoff i ids hsweep
    cases ok with
    | false => exact hheld
    | true =>
      have hrow : (reclaimRow w cutoff i).rows id = some r := by
        simp only [reclaimRow, hr, Option.map_some, Option.some.injEq, ite_eq_right_iff]
        rintro ⟨rfl, hstale⟩
        obtain ⟨lockedAt, hat, hlt⟩ := (Option.any_eq_true _ _).mp hstale
        exact absurd hexposed
          (hs.2 cutoff id ids r lockedAt x hsweep hr hat (of_decide_eq_true hlt) hx)
      exact holds_iff.mpr ⟨r, hrow, hx⟩
  | endSweep s =>
    cases h
    exact hheld

end Locks

/-- Where a row that was dead-lettered or done is: gone, or with the worker that is to delete it. -/
structure Settled [DecidableEq W] (w : World W S) : Prop where
  holds : ∀ x job, w.phase x = .picked job ∨ (∃ error, w.phase x = .confirmed job error) ∨
    w.phase x = .calledBack job → w.holds x job.id = true
  leaseGone : ∀ x job, w.phase x = .running job true → w.holds x job.id = false
  dead : ∀ id y called, Entry.deadLettered id y called ∈ w.log → w.rows id = none ∨
    ∃ x job, w.phase x = .calledBack job ∧ job.id = id
  done : ∀ id y, Entry.returnedOk id y true ∈ w.log → w.rows id = none ∨
    ∃ x job, w.phase x = .finishing job ∧ job.id = id ∧ w.holds x id = true
  once : ∀ id, deadLetters id w.log ≤ 1
  apart : ∀ id x y called, Entry.returnedOk id x true ∈ w.log →
    Entry.deadLettered id y called ∉ w.log

/-- The worker whose phase an event may change. -/
def Event.worker : Event W S → Option W
  | .start x | .leave x | .pick x _ _ _ | .look x _ | .returned x _ _ | .statement x _ _
  | .callBack x _ | .beat x _ _ | .abort x | .release x _ | .crash x => some x
  | .dispatch _ | .stop _ | .select _ _ | .reclaim _ _ | .endSweep _ => none

section Settled
variable [DecidableEq W] [DecidableEq S] {cfg : Config W S} {e : Event W S} {w w' : World W S} {x : W}

omit [DecidableEq S] in
private theorem phase_set {y : W} {p : Phase} (hx : some y ≠ some x) : (w.setPhase y p).phase x = w.phase x :=
  update_of_ne (fun he : x = y => hx (congrArg some he.symm)) ..

omit [DecidableEq S] in
private theorem statement_phase {y : W} {now : Int} {ok : Bool} (h : statement w y now ok = some w')
    (hx : some y ≠ some x) : w'.phase x = w.phase x := by
  have hne : x ≠ y := fun he => hx (congrArg some he.symm)
  cases statement_cases h with
  | refund job f pending =>
    refine (update_of_ne hne ..).trans (congrFun ?_ x)
    cases ok with
    | true => obtain hsame | hwritten := refund_cases w y job f <;> simp [*]; rfl
    | false => rfl
  | gone => exact phase_set hx
  | write | confirm =>
    refine (update_of_ne hne ..).trans (congrFun ?_ x)
    cases ok <;> rfl

/-- A step changes the phase of its own worker only. -/
private theorem phase_other (h : step cfg e w = some w') (hx : e.worker ≠ some x) :
    w'.phase x = w.phase x := by
  cases e with
  | dispatch d =>
    cases h
    rfl
  | start y =>
    simp only [step] at h
    split at h <;> cases h
    exact phase_set hx
  | stop y =>
    cases h
    rfl
  | leave y =>
    simp only [step] at h
    split at h <;> cases h
    exact phase_set hx
  | pick y i now kept =>
    have hne : x ≠ y := fun he => hx (congrArg some he.symm)
    obtain ⟨-, -, -, -, -, -, hphase | ⟨job, hphase, -⟩⟩ := pick_step h
    · rw [hphase]
    · rw [hphase, update_of_ne hne]
  | look y registered =>
    simp only [step] at h
    split at h <;> cases h
    unfold look
    split_ifs <;> exact phase_set hx
  | returned y now ran =>
    simp only [step] at h
    split at h <;> cases h
    unfold returned
    cases ran.result <;> simp only <;> split_ifs <;>
      first | exact phase_set hx | (split <;> exact phase_set hx)
  | statement y now ok => exact statement_phase h hx
  | callBack y called =>
    simp only [step] at h
    split at h <;> cases h
    exact phase_set hx
  | beat y i now =>
    cases h
    unfold beat
    split
    · split_ifs
      · exact phase_set hx
      · rfl
    · rfl
  | abort y =>
    simp only [step] at h
    split at h <;> cases h
    exact phase_set hx
  | release y ok =>
    simp only [step] at h
    split at h <;> cases h
    cases ok <;> exact phase_set hx
  | crash y =>
    cases h
    exact phase_set hx
  | select s now =>
    cases h
    rfl
  | reclaim s ok =>
    simp only [step] at h
    split at h <;> cases h
    cases ok <;> rfl
  | endSweep s =>
    cases h
    rfl

omit [DecidableEq S] in
private theorem beat_phase (w : World W S) (x : W) (id : Nat) (now : Int) :
    (beat w x id now).phase x = w.phase x ∨
    ∃ job leaseGone, w.phase x = .running job leaseGone ∧ w.holds x job.id = false ∧
      (beat w x id now).phase x = .running job true := by
  unfold beat
  split
  · rename_i job leaseGone hx
    split_ifs with hc
    · refine .inr ⟨job, leaseGone, hx, ?_, update_self ..⟩
      obtain ⟨rfl, hno⟩ := hc
      simpa using hno
    · exact .inl rfl
  · exact .inl rfl

/-- A worker that is to delete its row goes on to do so. -/
private theorem settling_after {job : PickedJob} (h : step cfg e w = some w') (hs : steady e w)
    (hx : w.phase x = .finishing job ∨ w.phase x = .calledBack job) :
    (w'.phase x = w.phase x ∧ ∀ now ok, e ≠ .statement x now ok) ∨
      (w.holds x job.id = true → w'.rows job.id = none) := by
  by_cases hw : e.worker = some x
  case neg =>
    refine .inl ⟨phase_other h hw, fun now ok he => ?_⟩
    subst he
    exact hw rfl
  case pos =>
    cases e with
    | statement y now ok =>
      obtain rfl : y = x := Option.some.inj hw
      obtain rfl : ok = true := hs.1
      refine .inr fun hheld => ?_
      obtain ⟨r, hr, hrx⟩ := holds_iff.mp hheld
      have hrow : (w.writeHeld y job.id fun _ => none).rows job.id = none := by
        simp [World.writeHeld, hr, hrx]
      obtain hx | hx := hx
      · simp only [step, statement, hx] at h
        cases h
        exact hrow
      · simp only [step, statement, hx] at h
        cases h
        exact hrow
    | beat y i now =>
      obtain rfl : y = x := Option.some.inj hw
      cases h
      obtain hsame | ⟨j, lg, hrun, -⟩ := beat_phase w y i now
      · exact .inl ⟨hsame, by simp⟩
      · rw [hrun] at hx
        obtain hx | hx := hx <;> cases hx
    | abort y =>
      obtain rfl : y = x := Option.some.inj hw
      have hset : (w.phase y).settling = false := hs.2
      obtain hx | hx := hx <;> rw [hx] at hset <;> cases hset
    | crash y => cases hs.1
    | start y | leave y | pick y | look y | returned y | callBack y | release y =>
      obtain rfl : y = x := Option.some.inj hw
      obtain hx | hx := hx <;> simp [step, hx] at h
    | _ => cases hw

theorem Settled.holds_step (h : step cfg e w = some w') (hs : steady e w) (k : Kept w)
    (s : Settled w) {job : PickedJob}
    (hx : w'.phase x = .picked job ∨ (∃ error, w'.phase x = .confirmed job error) ∨
      w'.phase x = .calledBack job) : w'.holds x job.id = true := by
  -- where the phase is the one before
  have hold : w'.phase x = w.phase x → (∀ now ok, e ≠ .statement x now ok) →
      w'.holds x job.id = true := by
    intro hsame hne
    rw [hsame] at hx
    refine holds_after h k.locked k.books hs ?_ (s.holds x job hx) hne
    obtain hx | ⟨error, hx⟩ | hx := hx <;> rw [hx] <;> rfl
  by_cases hw : e.worker = some x
  case neg =>
    refine hold (phase_other h hw) fun now ok he => ?_
    subst he
    exact hw rfl
  case pos =>
    cases e with
    | pick y i now kept =>
      obtain rfl : y = x := Option.some.inj hw
      obtain ⟨hidle, r, -, -, hrows, -, hphase | ⟨j, hphase, hid⟩⟩ := pick_step h
      · rw [hphase, hidle] at hx
        simp at hx
      · rw [hphase, update_self] at hx
        obtain rfl : j = job := by simpa using hx
        exact holds_iff.mpr ⟨_, by rw [hrows, hid, update_self], rfl⟩
    | statement y now ok =>
      obtain rfl : y = x := Option.some.inj hw
      obtain rfl : ok = true := hs.1
      cases statement_cases h with
      | confirm j error hconfirming hheld =>
        obtain ⟨r, hr, hry⟩ := holds_iff.mp (hheld rfl)
        obtain rfl : j = job := by simpa using hx
        refine holds_iff.mpr ⟨{ r with lockedAt := some now }, ?_, hry⟩
        simp [World.setPhase, World.writeHeld, hr, hry]
      | _ => simp at hx
    | callBack y called =>
      obtain rfl : y = x := Option.some.inj hw
      simp only [step] at h
      split at h <;> cases h
      rename_i j error hconfirmed
      have hj : j = job := by simpa using hx
      subst hj
      exact s.holds y j (.inr (.inl ⟨error, hconfirmed⟩))
    | beat y i now =>
      obtain rfl : y = x := Option.some.inj hw
      cases h
      obtain hsame | ⟨j, lg, -, -, hrun⟩ := beat_phase w y i now
      · exact hold hsame (by simp)
      · rw [hrun] at hx
        obtain hx | ⟨error, hx⟩ | hx := hx <;> cases hx
    | start y | leave y | abort y | release y =>
      obtain rfl : y = x := Option.some.inj hw
      simp only [step] at h
      split at h <;> cases h
      simp at hx
    | crash y => cases hs.1
    | look y registered =>
      obtain rfl : y = x := Option.some.inj hw
      simp only [step] at h
      split at h <;> cases h
      unfold look at hx
      split_ifs at hx <;> simp at hx
    | returned y now ran =>
      obtain rfl : y = x := Option.some.inj hw
      simp only [step] at h
      split at h <;> cases h
      rename_i j leaseGone hrunning
      obtain ⟨hidle, -⟩ | ⟨-, ⟨hdone, -⟩ | ⟨-, ⟨_, _, hretry⟩ | ⟨_, hconfirm⟩⟩⟩ :=
        returned_phase w y now ran j leaseGone
      · simp [hidle] at hx
      · simp [hdone] at hx
      · simp [hretry] at hx
      · simp [hconfirm] at hx
    | _ => cases hw

/-- The entry a step adds to the log, if it adds one. -/
private theorem log_cases (h : step cfg e w = some w') : w'.log = w.log ∨ ∃ entry, w'.log = entry :: w.log ∧
    (entry.isEnd = false ∨
      (∃ x called job error, e = .callBack x called ∧ w.phase x = .confirmed job error ∧
        w'.phase x = .calledBack job ∧ entry = .deadLettered job.id x called) ∨
      ∃ x now ran job leaseGone, e = .returned x now ran ∧ w.phase x = .running job leaseGone ∧
        ran.result = .ok () ∧ entry = .returnedOk job.id x (w.holds x job.id)) := by
  cases e with
  | dispatch d =>
    cases h
    exact .inr ⟨_, rfl, .inl rfl⟩
  | pick y i now kept =>
    obtain ⟨-, -, -, -, -, hlog, -⟩ := pick_step h
    exact .inr ⟨.picked i y, hlog, .inl rfl⟩
  | look y registered =>
    simp only [step] at h
    split at h <;> cases h
    unfold look
    split_ifs
    · exact .inl rfl
    · exact .inl rfl
    · exact .inl rfl
    · exact .inr ⟨_, rfl, .inl rfl⟩
  | returned y now ran =>
    simp only [step] at h
    split at h <;> cases h
    rename_i job leaseGone hrunning
    cases hr : ran.result with
    | ok a =>
      have hlog : (returned w y now ran job leaseGone).log =
          .returnedOk job.id y (w.holds y job.id) :: w.log := by
        unfold returned
        rw [hr]
        simp only
        split_ifs <;> first | rfl | (split <;> rfl)
      exact .inr ⟨_, hlog, .inr (.inr ⟨y, now, ran, job, leaseGone, rfl, hrunning, hr, rfl⟩)⟩
    | error _ =>
      have hlog : (returned w y now ran job leaseGone).log = w.log := by
        unfold returned
        rw [hr]
        simp only
        split_ifs <;> first | rfl | (split <;> rfl)
      exact .inl hlog
  | statement y now ok =>
    cases statement_cases h with
    | refund job f pending =>
      cases ok with
      | true =>
        obtain hsame | hwritten := refund_cases w y job f
        · refine .inl ?_
          simp only [hsame]
          rfl
        · refine .inr ⟨.refunded job.id, ?_, .inl rfl⟩
          simp only [hwritten]
          rfl
      | false => exact .inl rfl
    | gone => exact .inl rfl
    | write | confirm =>
      refine .inl ?_
      cases ok <;> rfl
  | callBack y called =>
    simp only [step] at h
    split at h <;> cases h
    exact .inr ⟨_, rfl, .inr (.inl ⟨y, called, _, _, rfl, ‹_›, by simp, rfl⟩)⟩
  | beat y i now =>
    cases h
    refine .inl ?_
    unfold beat
    split
    · split_ifs <;> rfl
    · rfl
  | start y | leave y | abort y =>
    simp only [step] at h
    split at h <;> cases h
    exact .inl rfl
  | release y ok | reclaim s ok =>
    simp only [step] at h
    split at h <;> cases h
    cases ok <;> exact .inl rfl
  | stop y | crash y | select s now | endSweep s =>
    cases h
    exact .inl rfl

/-- A lease found gone is gone. -/
theorem Settled.leaseGone_step (h : step cfg e w = some w') (s : Settled w) {job : PickedJob}
    (hx : w'.phase x = .running job true) : w'.holds x job.id = false := by
  have hbefore : ∃ leaseGone, w.phase x = .running job leaseGone ∧ w.holds x job.id = false := by
    by_cases hw : e.worker = some x
    case neg =>
      rw [phase_other h hw] at hx
      exact ⟨true, hx, s.leaseGone x job hx⟩
    case pos =>
      cases e with
      | beat y i now =>
        obtain rfl : y = x := Option.some.inj hw
        cases h
        obtain hsame | ⟨j, leaseGone, hrun, hno, hgone⟩ := beat_phase w y i now
        · rw [hsame] at hx
          exact ⟨true, hx, s.leaseGone y job hx⟩
        · obtain rfl : j = job := by simpa [hgone] using hx
          exact ⟨leaseGone, hrun, hno⟩
      | pick y i now kept =>
        obtain rfl : y = x := Option.some.inj hw
        obtain ⟨hidle, -, -, -, -, -, hphase | ⟨j, hphase, -⟩⟩ := pick_step h
        · rw [hphase, hidle] at hx
          cases hx
        · rw [hphase, update_self] at hx
          cases hx
      | statement y now ok =>
        obtain rfl : y = x := Option.some.inj hw
        cases statement_cases h <;> simp at hx
      | returned y now ran =>
        obtain rfl : y = x := Option.some.inj hw
        simp only [step] at h
        split at h <;> cases h
        rename_i j leaseGone hrunning
        obtain ⟨hidle, -⟩ | ⟨-, ⟨hdone, -⟩ | ⟨-, ⟨_, _, hretry⟩ | ⟨_, hconfirm⟩⟩⟩ :=
          returned_phase w y now ran j leaseGone
        · simp [hidle] at hx
        · simp [hdone] at hx
        · simp [hretry] at hx
        · simp [hconfirm] at hx
      | look y registered =>
        obtain rfl : y = x := Option.some.inj hw
        simp only [step] at h
        split at h <;> cases h
        unfold look at hx
        split_ifs at hx <;> simp at hx
      | start y | leave y | abort y | release y | callBack y =>
        obtain rfl : y = x := Option.some.inj hw
        simp only [step] at h
        split at h <;> cases h
        simp at hx
      | crash y =>
        obtain rfl : y = x := Option.some.inj hw
        cases h
        simp at hx
      | _ => cases hw
  obtain ⟨leaseGone, hrun, hno⟩ := hbefore
  by_contra hheld
  obtain hheld | hidle := holds_before (step_effect h) (Bool.eq_true_of_not_eq_false hheld)
  · cases hheld.symm.trans hno
  · cases hrun.symm.trans hidle

/-- The row of a job that was dead-lettered or done is gone, or with the worker that is to delete it. -/
theorem Settled.step (h : Jobs.step cfg e w = some w') (hs : steady e w) (k : Kept w)
    (s : Settled w) : Settled w' := by
  have effect := step_effect h
  -- a settled job stays settled
  have hdead : ∀ id, id < w.next → (w.rows id = none ∨ ∃ x job, w.phase x = .calledBack job ∧
      job.id = id) → w'.rows id = none ∨ ∃ x job, w'.phase x = .calledBack job ∧ job.id = id := by
    intro id hlt hid
    obtain hnone | ⟨x, job, hx, rfl⟩ := hid
    · exact .inl (none_after effect hlt hnone)
    · obtain ⟨hsame, -⟩ | hgone := settling_after h hs (.inr hx)
      · exact .inr ⟨x, job, hsame.trans hx, rfl⟩
      · exact .inl (hgone (s.holds x job (.inr (.inr hx))))
  have hdone : ∀ id, id < w.next → (w.rows id = none ∨ ∃ x job, w.phase x = .finishing job ∧
      job.id = id ∧ w.holds x id = true) → w'.rows id = none ∨ ∃ x job, w'.phase x = .finishing job ∧
        job.id = id ∧ w'.holds x id = true := by
    intro id hlt hid
    obtain hnone | ⟨x, job, hx, rfl, hheld⟩ := hid
    · exact .inl (none_after effect hlt hnone)
    · obtain ⟨hsame, hne⟩ | hgone := settling_after h hs (.inl hx)
      · have hexposed : (w.phase x).exposed = some job.id := by rw [hx]; rfl
        exact .inr ⟨x, job, hsame.trans hx, rfl,
          holds_after h k.locked k.books hs hexposed hheld hne⟩
      · exact .inl (hgone hheld)
  -- no other worker is at a job that one holds
  have hfree : ∀ {x id}, w.holds x id = true → (∀ job, w.phase x ≠ .calledBack job) →
      ∀ y called, Entry.deadLettered id y called ∉ w.log := by
    intro x id hheld hx y called hmem
    obtain ⟨r, hr, hrx⟩ := holds_iff.mp hheld
    obtain hnone | ⟨z, job, hz, rfl⟩ := s.dead id y called hmem
    · cases hnone.symm.trans hr
    · obtain ⟨r', hr', hrz⟩ := holds_iff.mp (s.holds z job (.inr (.inr hz)))
      obtain rfl := Option.some.inj (hr.symm.trans hr')
      obtain rfl := Option.some.inj (hrx.symm.trans hrz)
      exact hx job hz
  have hundone : ∀ {x id}, w.holds x id = true → (∀ job, w.phase x ≠ .finishing job) →
      ∀ y, Entry.returnedOk id y true ∉ w.log := by
    intro x id hheld hx y hmem
    obtain ⟨r, hr, hrx⟩ := holds_iff.mp hheld
    obtain hnone | ⟨z, job, hz, -, hheldz⟩ := s.done id y hmem
    · cases hnone.symm.trans hr
    · obtain ⟨r', hr', hrz⟩ := holds_iff.mp hheldz
      obtain rfl := Option.some.inj (hr.symm.trans hr')
      obtain rfl := Option.some.inj (hrx.symm.trans hrz)
      exact hx job hz
  have hknown : ∀ {e}, e ∈ w.log → e.id < w.next := fun he => k.books.known _ he
  -- a worker that still has its lease goes on to delete the row
  have hfinishing : ∀ {x now ran job leaseGone}, w.phase x = .running job leaseGone →
      ran.result = .ok () → w.holds x job.id = true → Jobs.step cfg (.returned x now ran) w = some w' →
      ∃ y j, w'.phase y = .finishing j ∧ j.id = job.id ∧ w'.holds y job.id = true := by
    intro x now ran job leaseGone hrun hres hheld h
    have hw' : returned w x now ran job leaseGone = w' := by simpa [Jobs.step, hrun] using h
    have hrows : w'.rows = w.rows := hw' ▸ returned_rows
    refine ⟨x, job, ?_, rfl, holds_of_rows hrows hheld⟩
    rw [← hw']
    obtain ⟨-, rfl⟩ | ⟨-, ⟨hphase, -⟩ | ⟨hne, -⟩⟩ := returned_phase w x now ran job leaseGone
    · cases hheld.symm.trans (s.leaseGone x job hrun)
    · exact hphase
    · exact absurd hres hne
  refine ⟨fun x job hx => s.holds_step h hs k hx, fun x job hx => s.leaseGone_step h hx,
    fun id y called hmem => ?_, fun id y hmem => ?_, fun id => ?_, fun id y z called hok hmem => ?_⟩
  · obtain hlog | ⟨entry, hlog, hentry⟩ := log_cases h
    · rw [hlog] at hmem
      exact hdead id (hknown hmem) (s.dead id y called hmem)
    · rw [hlog] at hmem
      obtain rfl | hmem := List.mem_cons.mp hmem
      · obtain hend | ⟨x, c, job, error, -, -, hx, hentry⟩ | ⟨_, _, _, _, _, -, -, -, hentry⟩ := hentry
        · cases hend
        · cases hentry
          exact .inr ⟨y, job, hx, rfl⟩
        · cases hentry
      · exact hdead id (hknown hmem) (s.dead id y called hmem)
  · obtain hlog | ⟨entry, hlog, hentry⟩ := log_cases h
    · rw [hlog] at hmem
      exact hdone id (hknown hmem) (s.done id y hmem)
    · rw [hlog] at hmem
      obtain rfl | hmem := List.mem_cons.mp hmem
      · obtain hend | ⟨_, _, _, _, -, -, -, hentry⟩ | ⟨x, now, ran, job, leaseGone, rfl, hrun, hres, hentry⟩ :=
          hentry
        · cases hend
        · cases hentry
        · obtain ⟨rfl, rfl, hheld⟩ := Entry.returnedOk.inj hentry
          exact .inr (hfinishing hrun hres hheld.symm h)
      · exact hdone id (hknown hmem) (s.done id y hmem)
  · obtain hlog | ⟨entry, hlog, hentry⟩ := log_cases h
    · exact hlog ▸ s.once id
    · rw [hlog, deadLetters, List.countP_cons]
      have honce := s.once id
      obtain hend | ⟨x, c, job, error, -, hx, -, rfl⟩ | ⟨_, _, _, _, _, -, -, -, rfl⟩ := hentry
      · cases entry with
        | deadLettered => cases hend
        | _ => exact honce
      · by_cases hid : job.id = id
        · subst hid
          have hnone : deadLetters job.id w.log = 0 := List.countP_eq_zero.mpr fun e he hcount => by
            cases e with
            | deadLettered i y c =>
              obtain rfl : i = job.id := of_decide_eq_true hcount
              exact hfree (s.holds x job (.inr (.inl ⟨error, hx⟩))) (by simp [hx]) y c he
            | _ => cases hcount
          rw [deadLetters] at hnone
          rw [hnone]
          exact Nat.le_of_eq (by simp)
        · simpa [deadLetters, hid] using honce
      · exact honce
  · obtain hlog | ⟨entry, hlog, hentry⟩ := log_cases h
    · rw [hlog] at hok hmem
      exact s.apart id y z called hok hmem
    · rw [hlog] at hok hmem
      obtain rfl | hok' := List.mem_cons.mp hok
      · obtain hend | ⟨_, _, _, _, -, -, -, hentry⟩ | ⟨x, _, _, job, leaseGone, -, hrun, -, hentry⟩ :=
          hentry
        · cases hend
        · cases hentry
        · obtain ⟨rfl, rfl, hheld⟩ := Entry.returnedOk.inj hentry
          have hmem := (List.mem_cons.mp hmem).resolve_left (by simp)
          exact hfree hheld.symm (by simp [hrun]) z called hmem
      · obtain rfl | hmem := List.mem_cons.mp hmem
        · obtain hend | ⟨x, _, job, error, -, hx, -, hentry⟩ | ⟨_, _, _, _, _, -, -, -, hentry⟩ := hentry
          · cases hend
          · obtain ⟨rfl, rfl, -⟩ := Entry.deadLettered.inj hentry
            exact hundone (s.holds z job (.inr (.inl ⟨error, hx⟩))) (by simp [hx]) y hok'
          · cases hentry
        · exact s.apart id y z called hok' hmem

/-- A job that was dead-lettered is not started. -/
theorem Settled.starts_eq (h : Jobs.step cfg e w = some w') (s : Settled w) {id : Nat} {y : W}
    {called : Bool} (hmem : Entry.deadLettered id y called ∈ w.log) :
    starts id w'.log = starts id w.log := by
  cases step_effect h with
  | ease rows next phase reason log =>
    obtain ⟨es, hlog, hes⟩ := log
    rw [hlog, starts_append fun e he => .inl (hes e he).1]
  | start x job picked unspent rows next phase log =>
    have hne : job.id ≠ id := by
      rintro rfl
      obtain ⟨r, hr, hrx⟩ := holds_iff.mp (s.holds x job (.inl picked))
      obtain hnone | ⟨z, j, hz, hid⟩ := s.dead job.id y called hmem
      · cases hnone.symm.trans hr
      · obtain ⟨r', hr', hrz⟩ := holds_iff.mp (s.holds z j (.inr (.inr hz)))
        obtain rfl := Option.some.inj (hr.symm.trans (hid ▸ hr'))
        obtain rfl := Option.some.inj (hrx.symm.trans hrz)
        cases picked.symm.trans hz
    rw [log]
    simp [starts, hne]
  | remove x job r at_ row holds rows next phase log => rw [log]
  | pick _ _ _ _ _ _ _ _ _ _ _ _ _ log | refund _ _ _ _ _ _ _ _ _ _ _ _ _ log
  | dispatch _ _ _ _ log => rw [log]; rfl

end Settled

section Once
variable [DecidableEq W] [DecidableEq S] {cfg : Config W S} {w w' : World W S}

/-- What holds of the dead letters in a run that leads from `w` to `w'`. -/
structure DeadLetterOnce (w w' : World W S) : Prop where
  once : ∀ id, deadLetters id w'.log ≤ 1
  never_again : ∀ id y called, Entry.deadLettered id y called ∈ w.log →
    starts id w'.log = starts id w.log
  not_done : ∀ id x y called, Entry.returnedOk id x true ∈ w'.log →
    Entry.deadLettered id y called ∉ w'.log

omit [DecidableEq S] in
theorem Settled.initial : Settled (World.initial : World W S) := by
  refine ⟨fun x job h => ?_, fun x job h => ?_, nofun, nofun, fun _ => Nat.zero_le 1, nofun⟩
  · obtain h | ⟨_, h⟩ | h := h <;> cases h
  · cases h

theorem Settled.reach (h : Reach (Jobs.step cfg) steady w w') (k : Kept w) (s : Settled w) :
    Settled w' := by
  induction h with
  | start => exact s
  | next e run allowed taken ih => exact ih.step taken allowed (k.reach run)

private theorem log_suffix {e : Event W S} (h : Jobs.step cfg e w = some w') : w.log <:+ w'.log := by
  obtain hlog | ⟨entry, hlog, -⟩ := log_cases h
  · exact hlog ▸ List.suffix_rfl
  · exact hlog ▸ List.suffix_cons _ _

/-- A job is dead-lettered once, after its last run, in every run without a crash or a failed write
in which no row is taken from a worker that has it without a heartbeat. -/
theorem dead_letter_once (h : Reach (step cfg) steady World.initial w)
    (h' : Reach (step cfg) steady w w') : DeadLetterOnce w w' := by
  have k : Kept w := Kept.initial.reach h
  have s : Settled w := Settled.initial.reach h .initial
  have s' : Settled w' := s.reach h' k
  refine ⟨s'.once, fun id y called hmem => ?_, s'.apart⟩
  have hrun : ∀ {x : World W S}, Reach (step cfg) steady w x →
      Entry.deadLettered id y called ∈ x.log ∧ starts id x.log = starts id w.log := by
    intro x hx
    induction hx with
    | start => exact ⟨hmem, rfl⟩
    | next e run allowed taken ih =>
      obtain ⟨hin, hsame⟩ := ih
      have hstarts := (s.reach run k).starts_eq taken hin
      exact ⟨(log_suffix taken).subset hin, hstarts.trans hsame⟩
  exact (hrun h').2

end Once

/-- Two workers and a sweep, all with heartbeats of ten seconds. -/
private def swept : Config Bool Unit := ⟨fun _ => .all, fun _ => sweepAfter 20000 10000⟩

/-- A job with one attempt fails for good, and its callback is called. -/
private def failed : List (Event Bool Unit) :=
  [.dispatch ⟨"mail", "null", 1, 0, none⟩, .start false, .start true, .pick false 0 0 true,
    .look false true, .returned false 1000 ⟨.error (.fatal "no such user"), 0⟩,
    .statement false 1000 true, .callBack false true]

theorem dead_letter_once_failed : ∃ w w' : World Bool Unit,
    Entry.deadLettered 0 false true ∈ w.log ∧ w'.rows 0 = none ∧ DeadLetterOnce w w' := by
  have calm : ∀ es : List (Event Bool Unit), (∀ e ∈ es, faultless e = true) →
      (∀ x, Event.abort x ∉ es) → (∀ s ok, Event.reclaim s ok ∉ es) →
      ∀ e ∈ es, ∀ w, steady e w := by
    intro es hes habort hreclaim e he w
    refine ⟨hes e he, ?_⟩
    cases e with
    | abort x => exact absurd he (habort x)
    | reclaim s ok => exact absurd he (hreclaim s ok)
    | _ => trivial
  have hrun : ((steps (step swept) failed .initial).bind fun w =>
      (steps (step swept) [.statement false 5000 true] w).map fun w' =>
        (w.log.head?, (w'.rows 0).isNone)) =
      some (some (.deadLettered 0 false true), true) := by decide
  obtain ⟨w, hw, hrest⟩ := Option.bind_eq_some_iff.mp hrun
  obtain ⟨w', hw', hend⟩ := Option.map_eq_some_iff.mp hrest
  obtain ⟨hhead, hgone⟩ := Prod.mk.inj hend
  have h : Reach (step swept) steady .initial w :=
    .of_steps hw (calm _ (by decide) (by simp [failed]) (by simp [failed]))
  have h' : Reach (step swept) steady w w' :=
    .of_steps hw' (calm _ (by decide) (by simp) (by simp))
  exact ⟨w, w', List.mem_of_mem_head? hhead, Option.isNone_iff_eq_none.mp hgone,
    dead_letter_once h h'⟩

/-- The callback runs for forty seconds; the sweep takes the row, and the next worker that picks it
calls the callback again. -/
private def slowCallback : List (Event Bool Unit) :=
  [.select () 40000, .reclaim () true, .pick true 0 40000 true, .look true true,
    .statement true 40000 true, .callBack true true]

theorem callback_twice : ¬ ∀ w w' : World Bool Unit,
    Reach (step swept) (fun e _ => faultless e = true) .initial w →
    Reach (step swept) (fun e _ => faultless e = true) w w' → DeadLetterOnce w w' := by
  intro h
  obtain ⟨w, hw, htwice⟩ : ∃ w, steps (step swept) (failed ++ slowCallback) .initial = some w ∧
      deadLetters 0 w.log = 2 := Option.map_eq_some_iff.mp (by decide)
  have hrun : Reach (step swept) (fun e _ => faultless e = true) .initial w :=
    .of_steps hw fun e he _ => by revert e; decide
  have honce := (h w w hrun .start).once 0
  rw [htwice] at honce
  exact absurd honce (by decide)

end Rustango.Jobs
