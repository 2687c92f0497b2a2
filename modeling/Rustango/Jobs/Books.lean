import Mathlib.Data.List.Count
import Rustango.Jobs.Step

/-!
# The books of the queue

What the log says of a job, and what every step keeps: each job has its id and its cap, and a row
that is gone was done or dead-lettered.
-/

namespace Rustango.Jobs

open Function

variable {W S : Type}

/-- The attempts in which a handler of the job was started. -/
def starts (id : Nat) (log : List (Entry W)) : List Int :=
  log.filterMap fun
    | .started i attempt => if i = id then some attempt else none
    | _ => none

def pickups (id : Nat) (log : List (Entry W)) : Nat :=
  log.countP fun
    | .picked i _ => i = id
    | _ => false

def refunds (id : Nat) (log : List (Entry W)) : Nat :=
  log.countP fun
    | .refunded i => i = id
    | _ => false

section Log
variable {id : Nat} {log es : List (Entry W)}

theorem starts_append (h : ∀ e ∈ es, e.isEnd = true ∨ e.id ≠ id) :
    starts id (es ++ log) = starts id log := by
  have hes : starts id es = [] := by
    rw [starts, List.filterMap_eq_nil_iff]
    intro e he
    cases e with
    | started i a =>
      obtain hend | hne := h _ he
      · cases hend
      · exact if_neg hne
    | _ => rfl
  rw [starts, List.filterMap_append]
  exact (congrArg (· ++ _) hes).trans (List.nil_append _)

private theorem countP_append_of_ends {f : Entry W → Bool} (hf : ∀ e ∈ es, f e = false) :
    (es ++ log).countP f = log.countP f := by
  have hes : es.countP f = 0 := List.countP_eq_zero.mpr fun e he => by simp [hf e he]
  rw [List.countP_append, hes, Nat.zero_add]

theorem pickups_ends (h : ∀ e ∈ es, e.isEnd = true) : pickups id (es ++ log) = pickups id log := by
  refine countP_append_of_ends fun e he => ?_
  cases e with
  | picked => cases h _ he
  | _ => rfl

theorem refunds_ends (h : ∀ e ∈ es, e.isEnd = true) : refunds id (es ++ log) = refunds id log := by
  refine countP_append_of_ends fun e he => ?_
  cases e with
  | refunded => cases h _ he
  | _ => rfl

end Log

/-- Every job was given its id, keeps its cap, and is removed for a reason. -/
structure Books (w : World W S) : Prop where
  fresh : ∀ id, w.next ≤ id → w.rows id = none
  known : ∀ e ∈ w.log, e.id < w.next
  rowMax : ∀ id r, w.rows id = some r → Entry.dispatched id r.maxAttempts ∈ w.log
  jobMax : ∀ x job, (w.phase x).job? = some job → Entry.dispatched job.id job.maxAttempts ∈ w.log
  oneMax : ∀ id m m', Entry.dispatched id m ∈ w.log → Entry.dispatched id m' ∈ w.log → m = m'
  reason : ∀ x, (w.phase x).Reason w.log x
  gone : ∀ id m, Entry.dispatched id m ∈ w.log → w.rows id = none →
    (∃ x held, Entry.returnedOk id x held ∈ w.log) ∨ ∃ x called, Entry.deadLettered id x called ∈ w.log

/-- What a step that dispatches nothing leaves of the rows, the jobs in hand and the log. -/
structure Frame (w w' : World W S) : Prop where
  next : w'.next = w.next
  row : ∀ id r', w'.rows id = some r' → ∃ r, w.rows id = some r ∧ r'.maxAttempts = r.maxAttempts
  job : ∀ y job, (w'.phase y).job? = some job → (w.phase y).job? = some job ∨
    ∃ r, w.rows job.id = some r ∧ job.maxAttempts = r.maxAttempts
  log : ∃ es, w'.log = es ++ w.log ∧ ∀ e ∈ es, (∀ m, e ≠ .dispatched e.id m) ∧
    ((∃ r, w.rows e.id = some r) ∨ ∃ y job, (w.phase y).job? = some job ∧ e.id = job.id)
  reason : ∀ y, w'.phase y = w.phase y ∨ (w'.phase y).Reason w'.log y
  gone : ∀ id, w'.rows id = none → w.rows id = none ∨
    ∃ x job, job.id = id ∧ (w.phase x = .finishing job ∨ w.phase x = .calledBack job)

section Books
variable {w w' : World W S}

theorem Books.initial : Books (World.initial : World W S) :=
  ⟨fun _ _ => rfl, nofun, nofun, nofun, nofun, fun _ => trivial, nofun⟩

theorem Phase.Reason.mono {log log' : List (Entry W)} {x : W} {p : Phase} (h : p.Reason log x)
    (hlog : log ⊆ log') : p.Reason log' x := by
  cases p with
  | finishing job =>
    obtain ⟨held, h⟩ := h
    exact ⟨held, hlog h⟩
  | calledBack job =>
    obtain ⟨called, h⟩ := h
    exact ⟨called, hlog h⟩
  | _ => trivial

theorem Books.lt_of_row (b : Books w) {id : Nat} {r : Row W} (h : w.rows id = some r) :
    id < w.next :=
  b.known _ (b.rowMax id r h)

theorem Books.lt_of_job (b : Books w) {x : W} {job : PickedJob} (h : (w.phase x).job? = some job) :
    job.id < w.next :=
  b.known _ (b.jobMax x job h)

theorem Books.frame (h : Frame w w') (b : Books w) : Books w' := by
  obtain ⟨es, hlog, hes⟩ := h.log
  have hsub : w.log ⊆ w'.log := hlog ▸ List.subset_append_right es w.log
  have hold : ∀ {id m}, Entry.dispatched id m ∈ w'.log → Entry.dispatched id m ∈ w.log := by
    intro id m hm
    rw [hlog] at hm
    obtain hm | hm := List.mem_append.mp hm
    · exact absurd rfl ((hes _ hm).1 m)
    · exact hm
  refine ⟨fun id hid => ?_, fun e he => ?_, fun id r' hr' => ?_, fun x job hjob => ?_,
    fun id m m' hm hm' => b.oneMax id m m' (hold hm) (hold hm'), fun x => ?_,
    fun id m hm hnone => ?_⟩
  · by_contra hne
    obtain ⟨r', hr'⟩ := Option.ne_none_iff_exists'.mp hne
    obtain ⟨r, hr, -⟩ := h.row id r' hr'
    cases (b.fresh id (h.next ▸ hid)).symm.trans hr
  · rw [h.next]
    rw [hlog] at he
    obtain he | he := List.mem_append.mp he
    · obtain ⟨r, hr⟩ | ⟨y, job, hjob, hid⟩ := (hes e he).2
      · exact b.lt_of_row hr
      · exact hid ▸ b.lt_of_job hjob
    · exact b.known e he
  · obtain ⟨r, hr, hmax⟩ := h.row id r' hr'
    exact hsub (hmax ▸ b.rowMax id r hr)
  · obtain hjob | ⟨r, hr, hmax⟩ := h.job x job hjob
    · exact hsub (b.jobMax x job hjob)
    · exact hsub (hmax ▸ b.rowMax job.id r hr)
  · obtain hx | hx := h.reason x
    · exact hx ▸ (b.reason x).mono hsub
    · exact hx
  · have hdone : (∃ x held, Entry.returnedOk id x held ∈ w.log) ∨
        ∃ x called, Entry.deadLettered id x called ∈ w.log := by
      obtain hnone | ⟨x, job, rfl, hx | hx⟩ := h.gone id hnone
      · exact b.gone id m (hold hm) hnone
      · have hreason := b.reason x
        rw [hx] at hreason
        exact .inl ⟨x, hreason⟩
      · have hreason := b.reason x
        rw [hx] at hreason
        exact .inr ⟨x, hreason⟩
    obtain ⟨x, held, hx⟩ | ⟨x, called, hx⟩ := hdone
    · exact .inl ⟨x, held, hsub hx⟩
    · exact .inr ⟨x, called, hsub hx⟩

/-- A new row: nothing was known of its id. -/
theorem Books.dispatch {d : Dispatch} (rows : w'.rows = update w.rows w.next (some d.row))
    (next : w'.next = w.next + 1) (phase : w'.phase = w.phase)
    (log : w'.log = .dispatched w.next d.maxAttempts :: w.log) (b : Books w) : Books w' := by
  have hsub : w.log ⊆ w'.log := log ▸ List.subset_cons_self _ _
  -- what the log says of the new id is said by its first entry
  have hdisp : ∀ {id m}, Entry.dispatched id m ∈ w'.log →
      (id = w.next ∧ m = d.maxAttempts) ∨ id < w.next ∧ Entry.dispatched id m ∈ w.log := by
    intro id m hm
    rw [log] at hm
    obtain hm | hm := List.mem_cons.mp hm
    · cases hm
      exact .inl ⟨rfl, rfl⟩
    · exact .inr ⟨b.known _ hm, hm⟩
  refine ⟨fun id hid => ?_, fun e he => ?_, fun id r hr => ?_, fun x job hjob => ?_,
    fun id m m' hm hm' => ?_, fun x => ?_, fun id m hm hnone => ?_⟩
  · rw [next] at hid
    rw [rows, update_of_ne (by omega)]
    exact b.fresh id (by omega)
  · rw [next]
    rw [log] at he
    obtain rfl | he := List.mem_cons.mp he
    · exact Nat.lt_succ_self _
    · exact Nat.lt_succ_of_lt (b.known e he)
  · by_cases hid : id = w.next
    · rw [rows, hid, update_self] at hr
      rw [log, ← Option.some.inj hr, hid]
      exact List.mem_cons_self
    · rw [rows, update_of_ne hid] at hr
      exact hsub (b.rowMax id r hr)
  · rw [phase] at hjob
    exact hsub (b.jobMax x job hjob)
  · obtain ⟨rfl, rfl⟩ | ⟨hlt, hm⟩ := hdisp hm <;> obtain ⟨hid, rfl⟩ | ⟨hlt', hm'⟩ := hdisp hm'
    · rfl
    · omega
    · omega
    · exact b.oneMax id m m' hm hm'
  · rw [phase]
    exact (b.reason x).mono hsub
  · have hid : id ≠ w.next := by
      rintro rfl
      rw [rows, update_self] at hnone
      cases hnone
    rw [rows, update_of_ne hid] at hnone
    obtain ⟨rfl, -⟩ | ⟨-, hm⟩ := hdisp hm
    · exact absurd rfl hid
    · obtain ⟨x, held, hx⟩ | ⟨x, called, hx⟩ := b.gone id m hm hnone
      · exact .inl ⟨x, held, hsub hx⟩
      · exact .inr ⟨x, called, hsub hx⟩

theorem row_cases {rows rows' : Nat → Option (Row W)} {id i : Nat} {r' q : Row W}
    (hrows : rows' = update rows id (some r')) (hq : rows' i = some q) :
    (i = id ∧ q = r') ∨ i ≠ id ∧ rows i = some q := by
  by_cases hi : i = id
  · rw [hi, hrows, update_self] at hq
    exact .inl ⟨hi, (Option.some.inj hq).symm⟩
  · rw [hrows, update_of_ne hi] at hq
    exact .inr ⟨hi, hq⟩

private theorem row_of_update {rows rows' : Nat → Option (Row W)} {id : Nat} {r r' : Row W}
    (hrows : rows' = update rows id (some r')) (row : rows id = some r)
    (hmax : r'.maxAttempts = r.maxAttempts) (i : Nat) (q : Row W) (hq : rows' i = some q) :
    ∃ p, rows i = some p ∧ q.maxAttempts = p.maxAttempts := by
  obtain ⟨rfl, rfl⟩ | ⟨-, hq⟩ := row_cases hrows hq
  · exact ⟨r, row, hmax⟩
  · exact ⟨q, hq, rfl⟩

theorem none_of_update {rows rows' : Nat → Option (Row W)} {id : Nat} {r' : Row W}
    (hrows : rows' = update rows id (some r')) {i : Nat} (hi : rows' i = none) : rows i = none := by
  have hne : i ≠ id := by
    rintro rfl
    rw [hrows, update_self] at hi
    cases hi
  rwa [hrows, update_of_ne hne] at hi

variable [DecidableEq W]

theorem job_of_update {x y : W} {p : Phase} {job : PickedJob}
    (phase : w'.phase = update w.phase x p) (hp : (w.phase x).Keeps p)
    (h : (w'.phase y).job? = some job) : (w.phase y).job? = some job := by
  rw [phase] at h
  exact (keeps_set hp y).job job h

theorem Books.effect (h : Effect w w') (b : Books w) : Books w' := by
  cases h with
  | ease rows next phase reason log =>
    obtain ⟨es, hlog, hes⟩ := log
    refine b.frame ⟨next, fun id r' hr' => ?_, fun y job hjob => .inl ((phase y).job job hjob),
      ⟨es, hlog, fun e he => ⟨?_, .inr (hes e he).2⟩⟩, reason, fun id hid => .inl (rows.none id hid)⟩
    · obtain ⟨r, hr, heased⟩ := rows.row id r' hr'
      exact ⟨r, hr, heased.maxAttempts⟩
    · have hend := (hes e he).1
      intro m hm
      rw [hm] at hend
      cases hend
  | pick x id r r' idle row free locked rows attempt maxAttempts lock next log p phase job =>
    refine b.frame ⟨next, row_of_update rows row maxAttempts, fun y j hj => ?_,
      ⟨[_], log, fun e he => ?_⟩, ?_, fun i hi => .inl (none_of_update rows hi)⟩
    · by_cases hy : y = x
      · rw [hy, phase, update_self] at hj
        obtain rfl | ⟨j', rfl, hid, -, hmax⟩ := job
        · cases hj
        · obtain rfl : j' = j := Option.some.inj hj
          exact .inr ⟨r, hid ▸ row, hmax⟩
      · rw [phase, update_of_ne hy] at hj
        exact .inl hj
    · obtain rfl := List.mem_singleton.mp he
      exact ⟨nofun, .inl ⟨r, row⟩⟩
    · rw [phase]
      exact reason_set (.inr (by obtain rfl | ⟨job, rfl, -⟩ := job <;> trivial))
  | start x job picked unspent rows next phase log =>
    have hkeeps : (w.phase x).Keeps (.running job false) := picked ▸ ⟨fun _ h => h, nofun⟩
    refine b.frame ⟨next, fun i q hq => ⟨q, (congrFun rows i).symm.trans hq, rfl⟩,
      fun y j hj => .inl (job_of_update phase hkeeps hj),
      ⟨[_], log, fun e he => ?_⟩, by rw [phase]; exact reason_set (.inr trivial), fun i hi => .inl ((congrFun rows i).symm.trans hi)⟩
    obtain rfl := List.mem_singleton.mp he
    exact ⟨nofun, .inr ⟨x, job, picked ▸ rfl, rfl⟩⟩
  | refund x job r r' pending row holds rows attempt maxAttempts lock next phase log =>
    refine b.frame ⟨next, row_of_update rows row maxAttempts,
      fun y j hj => .inl (job_of_update phase (w.phase x).keeps_idle hj),
      ⟨[_], log, fun e he => ?_⟩, by rw [phase]; exact reason_set (.inr trivial),
      fun i hi => .inl (none_of_update rows hi)⟩
    obtain rfl := List.mem_singleton.mp he
    exact ⟨nofun, .inl ⟨r, row⟩⟩
  | remove x job r at_ row holds rows next phase log =>
    refine b.frame ⟨next, fun i q hq => ⟨q, ?_, rfl⟩,
      fun y j hj => .inl (job_of_update phase (w.phase x).keeps_idle hj),
      ⟨[], log, nofun⟩, by rw [phase]; exact reason_set (.inr trivial), fun i hi => ?_⟩
    · have hne : i ≠ job.id := by
        rintro rfl
        rw [rows, update_self] at hq
        cases hq
      rwa [rows, update_of_ne hne] at hq
    · by_cases he : i = job.id
      · exact .inr ⟨x, job, he.symm, at_⟩
      · rw [rows, update_of_ne he] at hi
        exact .inl hi
  | dispatch d rows next phase log => exact b.dispatch rows next phase log

end Books

theorem Books.unlogged {w : World W S} (b : Books w) {id : Nat} (h : w.next ≤ id) :
    starts id w.log = [] ∧ pickups id w.log = 0 ∧ refunds id w.log = 0 := by
  have hne : ∀ e ∈ w.log, e.id ≠ id := fun e he heq => by
    have hlt := b.known e he
    omega
  refine ⟨?_, List.countP_eq_zero.mpr fun e he => ?_, List.countP_eq_zero.mpr fun e he => ?_⟩
  · rw [← List.append_nil w.log, starts_append fun e he => .inr (hne e he)]
    rfl
  · have := hne e he
    cases e <;> simp_all [Entry.id]
  · have := hne e he
    cases e <;> simp_all [Entry.id]

end Rustango.Jobs
