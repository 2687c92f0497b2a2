import Mathlib.Data.List.Nodup
import Rustango.DistributedLock.Keeps

/-!
# Once per period

Along every run whose steps are allowed: at most one body of a window ends with `Ok`, no two bodies
run at the same time, and a call that ends otherwise leaves its window free. A call dropped while it
still takes its locks breaks the last of these.
-/

namespace Rustango.DistributedLock

open Function Rustango.Threads Rustango.Runs

variable {F : Fleet} {s s' : State F} {now : Nat} {cache : Cache} {oks : List (Call F)}
  {workers : List (Worker F)} {c : Call F} {p p' : Phase} {runUntil : Nat}

/-- Every operation that keeps to the protocol and is sound keeps the ledger. -/
theorem Ledger.op {th : Thread F} {o : Op} {ans : o.Answer} {ending : Ending}
    (h : Ledger s.now s.cache s.oks (⟨c, p, runUntil⟩ :: workers)) (hcall : th.call = c)
    (huntil : th.runUntil = runUntil) (hsound : Sound s th o)
    (hans : ans = (o.run s.now ending s.cache).1) (hmove : Moves c p o ans p') :
    Ledger s.now (o.run s.now ending s.cache).2 (noteOk c s.oks o ans)
      (⟨c, p', (th.after s.now o ans).runUntil⟩ :: workers) := by
  subst hcall huntil
  have hhead : ∀ legacy e, s.cache.live s.now (windowKey th.call.window legacy) = some e →
      (s.cache.live s.now (windowKey th.call.window legacy)).map (·.token) = some e.token :=
    fun legacy e he => by rw [he]; rfl
  cases hmove with
  | addLegacy ttl =>
    rcases run_add s.now s.cache (windowKey th.call.window true) th.call.windowToken ttl ending with
      heq | ⟨hfree, heq⟩
    · rw [heq] at hans ⊢
      subst hans
      exact h
    · rw [heq] at hans ⊢
      subst hans
      exact h.addLegacy
  | addMain legacy =>
    rcases run_add s.now s.cache (windowKey th.call.window false) th.call.windowToken
      (2 * F.period) ending with heq | ⟨hfree, heq⟩
    · rw [heq] at hans ⊢
      subst hans
      exact h
    · rw [heq] at hans ⊢
      subst hans
      exact h.addMain hsound hfree
  | addRunLegacy _ ttl =>
    rcases run_add s.now s.cache ⟨.plain, true⟩ th.call.runToken ttl ending with
      heq | ⟨hfree, heq⟩
    · rw [heq] at hans ⊢
      subst hans
      exact h
    · rw [heq] at hans ⊢
      subst hans
      exact h.other _
  | addRun legacy =>
    rcases run_add s.now s.cache runKey th.call.runToken F.period ending with heq | ⟨hfree, heq⟩
    · rw [heq] at hans ⊢
      subst hans
      exact h
    · rw [heq] at hans ⊢
      subst hans
      exact h.addRun hfree
  | enter =>
    refine h.ease ?_ ?_ ?_ ?_
    · exact fun _ hp => hp
    · exact fun _ _ _ hp _ => hp
    · exact fun _ => rfl
    · exact fun _ => hsound
  | leave result =>
    have hfail : Ledger s.now s.cache s.oks
        (⟨th.call, .outside true F.legacy false, th.runUntil⟩ :: workers) := by
      refine h.ease ?_ ?_ ?_ ?_
      · exact fun _ hp => hp
      · exact fun _ _ _ hp _ => hp
      · exact nofun
      · exact nofun
    cases result with
    | ok => exact h.leaveOk
    | err => exact hfail
    | panic => exact hfail
  | getMain legacy run =>
    subst hans
    refine h.ease ?_ ?_ ?_ ?_
    · intro l hp
      cases l with
      | true => exact hp
      | false => rfl
    · intro l e he hp ht
      cases l with
      | true => exact hp
      | false => exact decide_eq_true ((hhead false e he).trans (congrArg some ht.symm))
    · exact fun hr => hr
    · exact nofun
  | getLegacy main run =>
    subst hans
    refine h.ease ?_ ?_ ?_ ?_
    · intro l hp
      cases l with
      | true => rfl
      | false => exact hp
    · intro l e he hp ht
      cases l with
      | true => exact decide_eq_true ((hhead true e he).trans (congrArg some ht.symm))
      | false => exact hp
    · exact fun hr => hr
    · exact nofun
  | getRun => exact h
  | deleteMain => exact h.deleteMain
  | deleteLegacy => exact h.deleteLegacy
  | deleteOld _ legacy hw => exact h.deleteOld legacy hw
  | deleteRunLegacy => exact h.other none
  | deleteRun _ hfree => exact h.deleteRun hfree hsound

theorem Ledger.tick {now' : Nat} (h : Ledger now cache oks workers) (hle : now ≤ now')
    (hbody : ∀ wk ∈ workers, wk.phase.inBody = true → now' < wk.runUntil) :
    Ledger now' cache oks workers where
  kept w legacy e he := h.kept w legacy e (live_of_tick hle he)
  taken :=
    ⟨h.taken.unique, fun w hw => (h.taken.stored w hw).imp_left fun hover => hover.mono hle⟩
  run :=
    ⟨fun wk hwk hruns hlt => h.run.stored wk hwk hruns (by omega), hbody, h.run.tokens⟩
  reached wk hwk hw := by
    have hold := h.reached wk hwk hw
    omega

/-- A call that starts holds nothing; its clock shows its window. -/
theorem Ledger.start (h : Ledger now cache oks workers)
    (hnew : ∀ wk ∈ workers, wk.call.runToken ≠ c.runToken)
    (hclock : c.window = F.window c.pod now) :
    Ledger now cache oks (⟨c, .outside false false false, 0⟩ :: workers) where
  kept w legacy e he := by
    refine (h.kept w legacy e he).imp_right ?_
    rintro ⟨wk, hwk, hrest⟩
    exact ⟨wk, List.mem_cons_of_mem _ hwk, hrest⟩
  taken := by
    have hsame : takenWindows oks (⟨c, .outside false false false, 0⟩ :: workers) =
        takenWindows oks workers := takenWindows_cons.trans (if_neg nofun)
    constructor
    · rw [hsame]
      exact h.taken.unique
    · rw [hsame]
      exact h.taken.stored
  run := by
    constructor
    · intro wk hwk hruns hlt
      rcases List.mem_cons.mp hwk with rfl | hmem
      · cases hruns
      · exact h.run.stored wk hmem hruns hlt
    · intro wk hwk hin
      rcases List.mem_cons.mp hwk with rfl | hmem
      · cases hin
      · exact h.run.inBody wk hmem hin
    · refine List.nodup_cons.mpr ⟨?_, h.run.tokens⟩
      intro hmem
      obtain ⟨wk, hwk, heq⟩ := List.mem_map.mp hmem
      exact hnew wk hwk heq
  reached wk hwk hw := by
    rcases List.mem_cons.mp hwk with rfl | hmem
    · have hdiv : c.window * F.period ≤ F.clock c.pod now := by
        rw [hclock]
        exact Nat.div_mul_le_self _ _
      have hpos : 0 < c.window * F.period :=
        Nat.mul_pos (Nat.pos_of_ne_zero hw) F.positive
      have hshown : (F.clock c.pod now : Int) = now + F.offset c.pod := by
        unfold Fleet.clock at hdiv ⊢
        omega
      change ((c.window : Int) * F.period) ≤ now + F.offset c.pod
      rw [← hshown]
      exact_mod_cast hdiv
    · exact h.reached wk hmem hw

/-- A call that is over left its window, or keeps it after `Ok`. -/
theorem Ledger.remove (h : Ledger now cache oks (⟨c, p, runUntil⟩ :: workers))
    (hleft : ∀ legacy e, cache.live now (windowKey c.window legacy) = some e →
      p.holds F legacy = true → c.windowToken = e.token → c ∈ oks) :
    Ledger now cache oks workers where
  kept w legacy e he := by
    rcases h.kept w legacy e he with hok | ⟨wk, hwk, hholds, rfl, ht⟩
    · exact .inl hok
    · rcases List.mem_cons.mp hwk with rfl | hmem
      · exact .inl ⟨c, hleft legacy e he hholds ht, rfl, ht⟩
      · exact .inr ⟨wk, hmem, hholds, rfl, ht⟩
  taken := by
    refine h.taken.op ?_ fun _ _ _ => rfl
    rw [takenWindows_cons]
    split
    · exact (List.sublist_cons_self _ _).subperm
    · exact List.Subperm.refl _
  run :=
    ⟨fun wk hwk => h.run.stored wk (List.mem_cons_of_mem _ hwk),
      fun wk hwk => h.run.inBody wk (List.mem_cons_of_mem _ hwk),
      (List.nodup_cons.mp h.run.tokens).2⟩
  reached wk hwk := h.reached wk (List.mem_cons_of_mem _ hwk)

/-- A thread is known by its worker. -/
structure Known (wk : Worker F) (th : Thread F) : Prop where
  call : th.call = wk.call
  runUntil : th.runUntil = wk.runUntil
  running : th.running = wk.phase.inBody
  follows : th.prog.Follows (Moves wk.call) (Settled F) wk.phase

structure Inv (s : State F) (workers : List (Worker F)) : Prop where
  known : List.Forall₂ Known workers s.threads
  ledger : Ledger s.now s.cache s.oks workers

private theorem after_call (th : Thread F) (o : Op) (ans : o.Answer) : (th.after now o ans).call = th.call := by
  unfold Thread.after
  split <;> rfl

private theorem after_running {th : Thread F} {o : Op} {ans : o.Answer} (hmove : Moves c p o ans p')
    (h : th.running = p.inBody) : (th.after now o ans).running = p'.inBody := by
  cases hmove with
  | addRun legacy taken =>
    cases taken with
    | true => exact h
    | false => exact h
  | leave ending => cases ending <;> rfl
  | enter => rfl
  | _ => exact h

private theorem inv_fresh : Inv (fresh : State F) [] where
  known := .nil
  ledger := by
    refine ⟨?_, ⟨?_, ?_⟩, ⟨?_, ?_, ?_⟩, ?_⟩
    · intro w legacy e he
      cases (live_some.mp he).1
    · exact List.nodup_nil
    · exact fun _ hw => nomatch hw
    · exact fun _ hwk => nomatch hwk
    · exact fun _ hwk => nomatch hwk
    · exact List.nodup_nil
    · exact fun _ hwk => nomatch hwk

theorem Inv.tick (h : Inv s workers) {now' : Nat} (hok : Allowed (.tick now') s)
    (hstep : step (.tick now') s = some s') : Inv s' workers := by
  simp only [step] at hstep
  split at hstep
  · rename_i hle
    obtain rfl := Option.some.inj hstep
    refine ⟨h.known, h.ledger.tick hle ?_⟩
    intro wk hwk hin
    obtain ⟨th, hth, hknown⟩ := forall₂_mem_left h.known hwk
    rw [← hknown.runUntil]
    exact hok th hth (hknown.running.trans hin)
  · cases hstep

theorem Inv.call (h : Inv s workers) {pod : F.Pod} {windowToken runToken : Token}
    (hok : Allowed (.call pod windowToken runToken) s)
    (hstep : step (.call pod windowToken runToken) s = some s') : ∃ workers', Inv s' workers' := by
  obtain rfl := Option.some.inj hstep
  let c : Call F := ⟨pod, F.window pod s.now, windowToken, runToken⟩
  have hnew : ∀ wk ∈ workers, wk.call.runToken ≠ c.runToken := by
    intro wk hwk
    obtain ⟨th, hth, hknown⟩ := forall₂_mem_left h.known hwk
    rw [← hknown.call]
    exact hok th hth
  have hone : List.Forall₂ Known [⟨c, .outside false false false, 0⟩]
      [⟨c, false, 0, c.onceInWindow⟩] :=
    .cons ⟨rfl, rfl, rfl, onceInWindow_follows c⟩ .nil
  exact ⟨_, List.rel_append h.known hone,
    (h.ledger.start hnew rfl).perm (List.perm_append_singleton _ _).symm⟩

theorem Inv.step (h : Inv s workers) {i : Nat} {ending : Ending} (hok : Allowed (.step i ending) s)
    (hstep : step (.step i ending) s = some s') : ∃ workers', Inv s' workers' := by
  simp only [DistributedLock.step] at hstep
  split at hstep
  · rename_i call running runUntil o next hi
    obtain rfl := Option.some.inj hstep
    obtain ⟨before, ⟨c, p, r⟩, after, rfl, hknown, hset, -⟩ := forall₂_at h.known hi
    obtain ⟨p', hmove, hnext⟩ := hknown.follows (o.run s.now ending s.cache).1
    have hsound := hok _ hi o rfl
    have hledger := (h.ledger.perm List.perm_middle).op hknown.call hknown.runUntil hsound rfl hmove
    have hstays : Known ⟨c, p', (Thread.after s.now ⟨call, running, runUntil, .op o next⟩ o
        (o.run s.now ending s.cache).1).runUntil⟩
        { Thread.after s.now ⟨call, running, runUntil, .op o next⟩ o
          (o.run s.now ending s.cache).1 with prog := next (o.run s.now ending s.cache).1 } :=
      ⟨(after_call _ o _).trans hknown.call, rfl, after_running hmove hknown.running, hnext⟩
    refine ⟨_, hset _ _ hstays, ?_⟩
    have hcall : call = c := hknown.call
    subst hcall
    exact hledger.perm List.perm_middle.symm
  · cases hstep

theorem Inv.finish (h : Inv s workers) {i : Nat}
    (hstep : DistributedLock.step (.finish i) s = some s') : ∃ workers', Inv s' workers' := by
  simp only [DistributedLock.step] at hstep
  split at hstep
  · rename_i call running runUntil out hi
    obtain rfl := Option.some.inj hstep
    obtain ⟨before, ⟨c, p, r⟩, after, rfl, hknown, -, herase⟩ := forall₂_at h.known hi
    have hsettled : Settled F out p := hknown.follows
    refine ⟨_, herase, (h.ledger.perm List.perm_middle).remove ?_⟩
    intro legacy e _ hholds
    cases (hsettled legacy).symm.trans hholds
  · cases hstep

/-- A dropped call: in its body a task takes over, otherwise it is gone. -/
theorem Inv.drop (h : Inv s workers) {i : Nat} (hok : Allowed (.drop i) s)
    (hstep : DistributedLock.step (.drop i) s = some s') : ∃ workers', Inv s' workers' := by
  obtain ⟨th, hi, rfl⟩ := Option.map_eq_some_iff.mp hstep
  obtain ⟨before, ⟨c, p, r⟩, after, rfl, hknown, hset, herase⟩ := forall₂_at h.known hi
  have hledger := h.ledger.perm List.perm_middle
  have hcall : th.call = c := hknown.call
  unfold State.dropAt
  by_cases hrun : th.running = true
  · rw [if_pos hrun]
    obtain rfl : p = .body := by
      have hin := hknown.running.symm.trans hrun
      cases p with
      | body => rfl
      | outside main legacy run => cases hin
      | done => cases hin
    have hstays : Known ⟨c, .outside true F.legacy false, r⟩
        { th with running := false, prog := th.call.cleanup } :=
      ⟨hcall, hknown.runUntil, rfl, hcall ▸ cleanup_follows c⟩
    refine ⟨_, hset _ _ hstays, Ledger.perm ?_ List.perm_middle.symm⟩
    refine hledger.ease ?_ ?_ ?_ ?_
    · exact fun _ hp => hp
    · exact fun _ _ _ hp _ => hp
    · exact nofun
    · exact nofun
  · rw [if_neg hrun]
    refine ⟨_, herase, hledger.remove ?_⟩
    intro legacy e he _ ht
    rcases hok th hi with hrunning | hdone | hlost
    · exact absurd hrunning hrun
    · exact hcall ▸ hdone
    · rw [hcall] at hlost
      exact absurd ⟨legacy, e, he, ht.symm⟩ hlost

theorem Inv.next (h : Inv s workers) {e : Event F} (hok : Allowed e s)
    (hstep : DistributedLock.step e s = some s') : ∃ workers', Inv s' workers' := by
  cases e with
  | tick now' => exact ⟨workers, h.tick hok hstep⟩
  | call pod windowToken runToken => exact h.call hok hstep
  | step i ending => exact h.step hok hstep
  | finish i => exact h.finish hstep
  | drop i => exact h.drop hok hstep

theorem Inv.once (h : Inv s workers) : Once s where
  once := (List.nodup_append.mp h.ledger.taken.unique).2.1
  alone i j th th' hi hj hth hth' := by
    obtain ⟨wk, hwk, hknown⟩ := forall₂_getElem h.known hi
    obtain ⟨wk', hwk', hknown'⟩ := forall₂_getElem h.known hj
    have hin := hknown.running.symm.trans hth
    have hin' := hknown'.running.symm.trans hth'
    have hruns : ∀ q : Phase, q.inBody = true → q.runs = true := by
      intro q hq
      cases q with
      | body => rfl
      | outside main legacy run => cases hq
      | done => cases hq
    have hmem := List.mem_of_getElem? hwk
    have hmem' := List.mem_of_getElem? hwk'
    have hstored := h.ledger.run.stored wk hmem (hruns _ hin) (h.ledger.run.inBody wk hmem hin)
    have hstored' :=
      h.ledger.run.stored wk' hmem' (hruns _ hin') (h.ledger.run.inBody wk' hmem' hin')
    have hsame : wk.call.runToken = wk'.call.runToken :=
      congrArg Entry.token (Option.some.inj (hstored.symm.trans hstored'))
    have hat : (workers.map (·.call.runToken))[i]? = some wk.call.runToken := by simp [hwk]
    have hat' : (workers.map (·.call.runToken))[j]? = some wk.call.runToken := by
      simp [hwk', hsame]
    obtain ⟨hlt, hget⟩ := List.getElem?_eq_some_iff.mp hat
    obtain ⟨hlt', hget'⟩ := List.getElem?_eq_some_iff.mp hat'
    exact (List.Nodup.getElem_inj_iff h.ledger.run.tokens).mp (hget.trans hget'.symm)
  kept w legacy e he := by
    rcases h.ledger.kept w legacy e he with ⟨c, hc, hw, ht⟩ | ⟨wk, hwk, -, hw, ht⟩
    · exact ⟨c, hw, ht, .inl hc⟩
    · obtain ⟨th, hth, hknown⟩ := forall₂_mem_left h.known hwk
      exact ⟨wk.call, hw, ht, .inr ⟨th, hth, hknown.call⟩⟩

/-- One pod, a period of a second, and the locks of no tenant. -/
private def onePod : Fleet where
  Pod := Unit
  period := 1000
  positive := by decide
  legacy := false
  offset _ := 0
  skew _ _ := by decide

private instance : DecidableEq onePod.Pod := inferInstanceAs (DecidableEq Unit)

private def tokenA : Token := ⟨1, 10⟩
private def tokenB : Token := ⟨1, 20⟩

/-- A call whose body ends with `Ok` in the first window. -/
private def oneRun : List (Event onePod) :=
  .call () tokenA tokenB :: List.replicate 6 (.step 0 .ok) ++ [.finish 0, .tick 1500]

/-- A call that is dropped between taking its window's lock and the job's. -/
private def droppedEarly : List (Event onePod) :=
  [.call () tokenA tokenB, .step 0 .ok, .drop 0]

end Rustango.DistributedLock
