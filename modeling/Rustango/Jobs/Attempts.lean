import Mathlib.Data.List.Nodup
import Rustango.Jobs.Books

/-!
# Attempts

What the attempts of a row count, and who may still start the job: no attempt starts a handler twice.
-/

namespace Rustango.Jobs

open Function

variable {W S : Type}

/-- A row counts its pickups less the refunds. -/
def Counts (w : World W S) : Prop :=
  ∀ id r, w.rows id = some r → r.attempt + refunds id w.log = pickups id w.log

/-- No attempt starts a handler twice, and the attempts of a row are never behind. -/
structure Attempts (w : World W S) : Prop where
  nonneg : ∀ id r, w.rows id = some r → 0 ≤ r.attempt
  current : ∀ x job r, (w.phase x).job? = some job → w.rows job.id = some r → r.lockedBy = some x →
    r.attempt = job.attempt
  pending : ∀ x job, (w.phase x).pending? = some job → 1 ≤ job.attempt ∧
    job.attempt ∉ starts job.id w.log ∧ ∀ r, w.rows job.id = some r → job.attempt ≤ r.attempt
  apart : ∀ x y job job', (w.phase x).pending? = some job → (w.phase y).pending? = some job' →
    job.id = job'.id → job.attempt = job'.attempt → x = y
  nodup : ∀ id, (starts id w.log).Nodup
  started : ∀ id, ∀ a ∈ starts id w.log, 1 ≤ a ∧
    (∀ m, Entry.dispatched id m ∈ w.log → a ≤ max m 1) ∧ ∀ r, w.rows id = some r → a ≤ r.attempt

section Attempts
variable {w w' : World W S}

theorem Attempts.initial : Attempts (World.initial : World W S) :=
  ⟨nofun, fun _ _ _ h => (Option.some_ne_none _ h.symm).elim,
    fun _ _ h => (Option.some_ne_none _ h.symm).elim,
    fun _ _ _ _ h => (Option.some_ne_none _ h.symm).elim, fun _ => .nil, nofun⟩

theorem Phase.job_of_pending {p : Phase} {job : PickedJob} (h : p.pending? = some job) :
    p.job? = some job := by
  cases p with
  | picked | unpicking | givingBack => exact h
  | _ => cases h

private theorem le_of_unspent {attempt maxAttempts : Int} (hpos : 1 ≤ attempt)
    (h : attemptsSpent (attempt.toNat - 1) maxAttempts.toNat = false) : attempt ≤ max maxAttempts 1 := by
  simp only [attemptsSpent, decide_eq_false_iff_not] at h
  omega

private theorem pending_of_update [DecidableEq W] {x y : W} {p : Phase} {job : PickedJob}
    (phase : w'.phase = update w.phase x p) (hp : p.pending? = none)
    (h : (w'.phase y).pending? = some job) : y ≠ x ∧ (w.phase y).pending? = some job := by
  have hy : y ≠ x := by
    rintro rfl
    rw [phase, update_self, hp] at h
    cases h
  rw [phase, update_of_ne hy] at h
  exact ⟨hy, h⟩

variable [DecidableEq W]

theorem Counts.effect (h : Effect w w') (b : Books w) (c : Counts w) : Counts w' := by
  intro i q hq
  cases h with
  | ease rows next phase reason log =>
    obtain ⟨es, hlog, hes⟩ := log
    obtain ⟨r, hr, heased⟩ := rows.row i q hq
    have hends := fun e he => (hes e he).1
    rw [heased.attempt, hlog, refunds_ends hends, pickups_ends hends]
    exact c i r hr
  | pick x id r r' idle row free locked rows attempt maxAttempts lock next log p phase job =>
    rw [log]
    by_cases hi : i = id
    · rw [hi, rows, update_self] at hq
      obtain rfl := Option.some.inj hq
      have hcount := c id r row
      simp only [pickups, refunds, hi, List.countP_cons, attempt] at hcount ⊢
      simp
      omega
    · rw [rows, update_of_ne hi] at hq
      have hcount := c i q hq
      simpa [pickups, refunds, List.countP_cons, Ne.symm hi] using hcount
  | start x job picked unspent rows next phase log =>
    have hcount := c i q (rows ▸ hq)
    rw [log]
    simpa [pickups, refunds, List.countP_cons] using hcount
  | refund x job r r' pending row holds rows attempt maxAttempts lock next phase log =>
    rw [log]
    by_cases hi : i = job.id
    · rw [hi, rows, update_self] at hq
      obtain rfl := Option.some.inj hq
      have hcount := c job.id r row
      simp only [pickups, refunds, hi, List.countP_cons, attempt] at hcount ⊢
      simp
      omega
    · rw [rows, update_of_ne hi] at hq
      have hcount := c i q hq
      simpa [pickups, refunds, List.countP_cons, Ne.symm hi] using hcount
  | remove x job r at_ row holds rows next phase log =>
    have hne : i ≠ job.id := by
      rintro rfl
      rw [rows, update_self] at hq
      cases hq
    rw [rows, update_of_ne hne] at hq
    rw [log]
    exact c i q hq
  | dispatch d rows next phase log =>
    rw [log]
    by_cases hi : i = w.next
    · obtain ⟨-, hpick, hrefund⟩ := b.unlogged (Nat.le_refl w.next)
      rw [hi, rows, update_self] at hq
      obtain rfl := Option.some.inj hq
      simp only [pickups, refunds, List.countP_cons, hi] at hpick hrefund ⊢
      simp [hpick, hrefund, Dispatch.row]
    · rw [rows, update_of_ne hi] at hq
      have hcount := c i q hq
      simpa [pickups, refunds, List.countP_cons] using hcount

theorem Attempts.effect (h : Effect w w') (b : Books w) (a : Attempts w) : Attempts w' := by
  cases h with
  | ease rows next phase reason log =>
    obtain ⟨es, hlog, hes⟩ := log
    have hstarts : ∀ id, starts id w'.log = starts id w.log := fun id =>
      hlog ▸ starts_append fun e he => .inl (hes e he).1
    have hdisp : ∀ {id m}, Entry.dispatched id m ∈ w'.log → Entry.dispatched id m ∈ w.log := by
      intro id m hm
      rw [hlog] at hm
      obtain hm | hm := List.mem_append.mp hm
      · cases (hes _ hm).1
      · exact hm
    refine ⟨fun id q hq => ?_, fun x job q hjob hq hx => ?_, fun x job hjob => ?_,
      fun x y job job' hx hy => a.apart x y job job' ((phase x).pending job hx)
        ((phase y).pending job' hy), fun id => hstarts id ▸ a.nodup id, fun id n hn => ?_⟩
    · obtain ⟨r, hr, heased⟩ := rows.row id q hq
      exact heased.attempt ▸ a.nonneg id r hr
    · obtain ⟨r, hr, heased⟩ := rows.row job.id q hq
      have hlock : r.lockedBy = some x := by
        obtain hl | hl := heased.lock.owner
        · exact hl ▸ hx
        · cases hl.symm.trans hx
      exact heased.attempt.trans (a.current x job r ((phase x).job job hjob) hr hlock)
    · obtain ⟨hpos, hnot, hle⟩ := a.pending x job ((phase x).pending job hjob)
      refine ⟨hpos, hstarts job.id ▸ hnot, fun q hq => ?_⟩
      obtain ⟨r, hr, heased⟩ := rows.row job.id q hq
      exact heased.attempt ▸ hle r hr
    · rw [hstarts] at hn
      obtain ⟨hpos, hmax, hle⟩ := a.started id n hn
      refine ⟨hpos, fun m hm => hmax m (hdisp hm), fun q hq => ?_⟩
      obtain ⟨r, hr, heased⟩ := rows.row id q hq
      exact heased.attempt ▸ hle r hr
  | pick x id r r' idle row free locked rows attempt maxAttempts lock next log p phase job =>
    have hstarts : ∀ i, starts i w'.log = starts i w.log := fun i => log ▸ rfl
    have hnew : ∀ {j : PickedJob}, p.job? = some j → j.id = id ∧ j.attempt = r'.attempt := by
      intro j hj
      obtain rfl | ⟨j', rfl, hid, hattempt, -⟩ := job
      · cases hj
      · exact Option.some.inj hj ▸ ⟨hid, hattempt⟩
    have hx : ∀ {j}, (w'.phase x).job? = some j → j.id = id ∧ j.attempt = r'.attempt := by
      intro j hj
      rw [phase, update_self] at hj
      exact hnew hj
    have hother : ∀ {y}, y ≠ x → w'.phase y = w.phase y := fun hy => by rw [phase, update_of_ne hy]
    have hnonneg := a.nonneg id r row
    -- the attempts known of the row are behind the new one
    have hbehind : ∀ {y j}, y ≠ x → (w'.phase y).pending? = some j → j.id = id →
        j.attempt < r'.attempt := by
      intro y j hy hj hid
      rw [hother hy] at hj
      have hle := (a.pending y j hj).2.2 r (hid ▸ row)
      omega
    refine ⟨fun i q hq => ?_, fun y j q hj hq hy => ?_, fun y j hj => ?_,
      fun y z j j' hj hj' hid hattempt => ?_, fun i => hstarts i ▸ a.nodup i, fun i n hn => ?_⟩
    · obtain ⟨-, rfl⟩ | ⟨-, hq⟩ := row_cases rows hq
      · omega
      · exact a.nonneg i q hq
    · by_cases hyx : y = x
      · subst hyx
        obtain ⟨hid, hattempt⟩ := hx hj
        obtain ⟨-, rfl⟩ | ⟨hne, -⟩ := row_cases rows hq
        · exact hattempt.symm
        · exact absurd hid hne
      · rw [hother hyx] at hj
        obtain ⟨-, rfl⟩ | ⟨-, hq⟩ := row_cases rows hq
        · exact absurd (Option.some.inj (hy.symm.trans lock)) hyx
        · exact a.current y j q hj hq hy
    · by_cases hyx : y = x
      · subst hyx
        obtain ⟨rfl, hattempt⟩ := hx (Phase.job_of_pending hj)
        refine ⟨by omega, fun hmem => ?_, fun q hq => ?_⟩
        · rw [hstarts] at hmem
          have hle := (a.started j.id _ hmem).2.2 r row
          omega
        · obtain ⟨-, rfl⟩ | ⟨hne, -⟩ := row_cases rows hq
          · omega
          · exact absurd rfl hne
      · have hlt := hbehind hyx hj
        rw [hother hyx] at hj
        obtain ⟨hpos, hnot, hle⟩ := a.pending y j hj
        refine ⟨hpos, hstarts j.id ▸ hnot, fun q hq => ?_⟩
        obtain ⟨hid, rfl⟩ | ⟨-, hq⟩ := row_cases rows hq
        · exact Int.le_of_lt (hlt hid)
        · exact hle q hq
    · by_cases hyx : y = x <;> by_cases hzx : z = x
      · rw [hyx, hzx]
      · subst hyx
        obtain ⟨hidj, hattemptj⟩ := hx (Phase.job_of_pending hj)
        have hlt := hbehind hzx hj' (hid ▸ hidj)
        omega
      · subst hzx
        obtain ⟨hidj, hattemptj⟩ := hx (Phase.job_of_pending hj')
        have hlt := hbehind hyx hj (hid.trans hidj)
        omega
      · rw [hother hyx] at hj
        rw [hother hzx] at hj'
        exact a.apart y z j j' hj hj' hid hattempt
    · rw [hstarts] at hn
      obtain ⟨hpos, hmax, hle⟩ := a.started i n hn
      refine ⟨hpos, fun m hm => hmax m ?_, fun q hq => ?_⟩
      · rw [log] at hm
        exact (List.mem_cons.mp hm).resolve_left (by simp)
      · obtain ⟨rfl, rfl⟩ | ⟨-, hq⟩ := row_cases rows hq
        · have := hle r row
          omega
        · exact hle q hq
  | start x job picked unspent rows next phase log =>
    obtain ⟨hpos, hnot, hle⟩ := a.pending x job (picked ▸ rfl)
    have hjob : Entry.dispatched job.id job.maxAttempts ∈ w.log := b.jobMax x job (picked ▸ rfl)
    have hkeeps : (w.phase x).Keeps (.running job false) := picked ▸ ⟨fun _ h => h, fun _ h => by cases h⟩
    have hstarts : ∀ i, starts i w'.log =
        if job.id = i then job.attempt :: starts i w.log else starts i w.log := by
      intro i
      rw [log, starts, List.filterMap_cons]
      split_ifs <;> simp_all [starts]
    have hdisp : ∀ {i m}, Entry.dispatched i m ∈ w'.log → Entry.dispatched i m ∈ w.log := by
      intro i m hm
      rw [log] at hm
      exact (List.mem_cons.mp hm).resolve_left (by simp)
    refine ⟨fun i q hq => a.nonneg i q (rows ▸ hq), fun y j q hj hq hy => ?_, fun y j hj => ?_,
      fun y z j j' hj hj' hid hattempt => ?_, fun i => ?_, fun i n hn => ?_⟩
    · exact a.current y j q (job_of_update phase hkeeps hj) (rows ▸ hq) hy
    · obtain ⟨hy, hj⟩ := pending_of_update phase rfl hj
      obtain ⟨hposj, hnotj, hlej⟩ := a.pending y j hj
      refine ⟨hposj, ?_, rows ▸ hlej⟩
      rw [hstarts]
      split_ifs with hid
      · intro hmem
        obtain heq | hmem := List.mem_cons.mp hmem
        · exact hy (a.apart y x j job hj (picked ▸ rfl) hid.symm heq)
        · exact hnotj hmem
      · exact hnotj
    · obtain ⟨-, hj⟩ := pending_of_update phase rfl hj
      obtain ⟨-, hj'⟩ := pending_of_update phase rfl hj'
      exact a.apart y z j j' hj hj' hid hattempt
    · rw [hstarts]
      split_ifs with hid
      · exact List.nodup_cons.mpr ⟨hid ▸ hnot, a.nodup i⟩
      · exact a.nodup i
    · have hold : n ∈ starts i w.log → 1 ≤ n ∧
          (∀ m, Entry.dispatched i m ∈ w'.log → n ≤ max m 1) ∧
          ∀ r, w'.rows i = some r → n ≤ r.attempt := by
        intro hn
        obtain ⟨hposn, hmax, hlen⟩ := a.started i n hn
        exact ⟨hposn, fun m hm => hmax m (hdisp hm), rows ▸ hlen⟩
      rw [hstarts] at hn
      split_ifs at hn with hid
      · obtain rfl | hn := List.mem_cons.mp hn
        · subst hid
          refine ⟨hpos, fun m hm => ?_, rows ▸ hle⟩
          rw [b.oneMax job.id m job.maxAttempts (hdisp hm) hjob]
          exact le_of_unspent hpos unspent
        · exact hold hn
      · exact hold hn
  | refund x job r r' pending row holds rows attempt maxAttempts lock next phase log =>
    have hcurrent : r.attempt = job.attempt :=
      a.current x job r (Phase.job_of_pending pending) row holds
    obtain ⟨hpos, hnot, -⟩ := a.pending x job pending
    have hstarts : ∀ i, starts i w'.log = starts i w.log := fun i => log ▸ rfl
    refine ⟨fun i q hq => ?_, fun y j q hj hq hy => ?_, fun y j hj => ?_,
      fun y z j j' hj hj' hid hattempt => ?_, fun i => hstarts i ▸ a.nodup i, fun i n hn => ?_⟩
    · obtain ⟨-, rfl⟩ | ⟨-, hq⟩ := row_cases rows hq
      · omega
      · exact a.nonneg i q hq
    · have hyx : y ≠ x := by
        rintro rfl
        rw [phase, update_self] at hj
        cases hj
      have hj := job_of_update phase (w.phase x).keeps_idle hj
      obtain ⟨-, rfl⟩ | ⟨-, hq⟩ := row_cases rows hq
      · obtain hl | hl := lock.owner
        · exact absurd (Option.some.inj (hy.symm.trans (hl.trans holds))) hyx
        · cases hy.symm.trans hl
      · exact a.current y j q hj hq hy
    · obtain ⟨hyx, hj⟩ := pending_of_update phase rfl hj
      obtain ⟨hposj, hnotj, hlej⟩ := a.pending y j hj
      refine ⟨hposj, hstarts j.id ▸ hnotj, fun q hq => ?_⟩
      obtain ⟨hid, rfl⟩ | ⟨-, hq⟩ := row_cases rows hq
      · have hle := hlej r (hid ▸ row)
        have hne : j.attempt ≠ job.attempt := fun heq => hyx (a.apart y x j job hj pending hid heq)
        omega
      · exact hlej q hq
    · obtain ⟨-, hj⟩ := pending_of_update phase rfl hj
      obtain ⟨-, hj'⟩ := pending_of_update phase rfl hj'
      exact a.apart y z j j' hj hj' hid hattempt
    · rw [hstarts] at hn
      obtain ⟨hposn, hmax, hle⟩ := a.started i n hn
      refine ⟨hposn, fun m hm => hmax m ?_, fun q hq => ?_⟩
      · rw [log] at hm
        exact (List.mem_cons.mp hm).resolve_left (by simp)
      · obtain ⟨rfl, rfl⟩ | ⟨-, hq⟩ := row_cases rows hq
        · have hlen := hle r row
          have hne : n ≠ job.attempt := fun heq => hnot (heq ▸ hn)
          omega
        · exact hle q hq
  | remove x job r at_ row holds rows next phase log =>
    have hrow : ∀ {i q}, w'.rows i = some q → w.rows i = some q := by
      intro i q hq
      have hne : i ≠ job.id := by
        rintro rfl
        rw [rows, update_self] at hq
        cases hq
      rwa [rows, update_of_ne hne] at hq
    refine ⟨fun i q hq => a.nonneg i q (hrow hq), fun y j q hj hq hy => ?_, fun y j hj => ?_,
      fun y z j j' hj hj' hid hattempt => ?_, fun i => log ▸ a.nodup i, fun i n hn => ?_⟩
    · exact a.current y j q (job_of_update phase (w.phase x).keeps_idle hj) (hrow hq) hy
    · obtain ⟨-, hj⟩ := pending_of_update phase rfl hj
      obtain ⟨hpos, hnot, hle⟩ := a.pending y j hj
      exact ⟨hpos, log ▸ hnot, fun q hq => hle q (hrow hq)⟩
    · obtain ⟨-, hj⟩ := pending_of_update phase rfl hj
      obtain ⟨-, hj'⟩ := pending_of_update phase rfl hj'
      exact a.apart y z j j' hj hj' hid hattempt
    · rw [log] at hn ⊢
      obtain ⟨hpos, hmax, hle⟩ := a.started i n hn
      exact ⟨hpos, hmax, fun q hq => hle q (hrow hq)⟩
  | dispatch d rows next phase log =>
    have hstarts : ∀ i, starts i w'.log = starts i w.log := fun i => log ▸ rfl
    refine ⟨fun i q hq => ?_, fun y j q hj hq hy => ?_, fun y j hj => ?_,
      fun y z j j' hj hj' => a.apart y z j j' (phase ▸ hj) (phase ▸ hj'),
      fun i => hstarts i ▸ a.nodup i, fun i n hn => ?_⟩
    · obtain ⟨-, rfl⟩ | ⟨-, hq⟩ := row_cases rows hq
      · exact Int.le_refl 0
      · exact a.nonneg i q hq
    · rw [phase] at hj
      obtain ⟨hid, -⟩ | ⟨-, hq⟩ := row_cases rows hq
      · exact absurd hid (Nat.ne_of_lt (b.lt_of_job hj))
      · exact a.current y j q hj hq hy
    · rw [phase] at hj
      obtain ⟨hpos, hnot, hle⟩ := a.pending y j hj
      refine ⟨hpos, hstarts j.id ▸ hnot, fun q hq => ?_⟩
      obtain ⟨hid, -⟩ | ⟨-, hq⟩ := row_cases rows hq
      · exact absurd hid (Nat.ne_of_lt (b.lt_of_job (Phase.job_of_pending hj)))
      · exact hle q hq
    · rw [hstarts] at hn
      have hlt : i ≠ w.next := by
        rintro rfl
        rw [(b.unlogged (Nat.le_refl _)).1] at hn
        cases hn
      obtain ⟨hpos, hmax, hle⟩ := a.started i n hn
      refine ⟨hpos, fun m hm => ?_, fun q hq => ?_⟩
      · rw [log] at hm
        obtain hm | hm := List.mem_cons.mp hm
        · cases hm
          exact absurd rfl hlt
        · exact hmax m hm
      · obtain ⟨hid, -⟩ | ⟨-, hq⟩ := row_cases rows hq
        · exact absurd hid hlt
        · exact hle q hq

end Attempts

end Rustango.Jobs
