import Rustango.DistributedLock.Ledger

/-!
# Every operation keeps the locks
-/

namespace Rustango.DistributedLock

open Function Rustango.Threads

variable {F : Fleet} {now : Nat} {cache cache' : Cache} {oks : List (Call F)}
  {workers : List (Worker F)} {c : Call F} {p p' : Phase} {runUntil r' : Nat}

private theorem takenWindows_ease (h : p'.holds F false = true → p.holds F false = true) :
    (takenWindows oks (⟨c, p', r'⟩ :: workers)).Subperm
      (takenWindows oks (⟨c, p, runUntil⟩ :: workers)) := by
  apply List.Sublist.subperm
  rw [takenWindows_cons, takenWindows_cons]
  by_cases hp' : p'.holds F false = true
  · rw [if_pos hp', if_pos (h hp')]
  · rw [if_neg hp']
    split
    · exact List.sublist_cons_self _ _
    · exact List.Sublist.refl _

theorem Reached.step (h : Reached now (⟨c, p, runUntil⟩ :: workers)) :
    Reached now (⟨c, p', r'⟩ :: workers) := by
  intro u hu
  rcases List.mem_cons.mp hu with rfl | hmem
  · exact h ⟨c, p, runUntil⟩ List.mem_cons_self
  · exact h u (List.mem_cons_of_mem _ hmem)

theorem Ledger.plain (h : Ledger now cache oks (⟨c, p, runUntil⟩ :: workers))
    (hwindows : ∀ w legacy, cache' (windowKey w legacy) = cache (windowKey w legacy))
    (hholds : ∀ legacy, p'.holds F legacy = p.holds F legacy)
    (hrun : RunLock now cache' (⟨c, p', r'⟩ :: workers)) :
    Ledger now cache' oks (⟨c, p', r'⟩ :: workers) where
  kept := by
    apply h.kept.op (fun _ hc => hc)
    intro w legacy e he
    rw [live_some, hwindows, ← live_some] at he
    exact .inr ⟨he, fun hp _ _ => .inl ((hholds legacy).trans hp)⟩
  taken := by
    apply h.taken.op (takenWindows_ease fun hp => (hholds false) ▸ hp)
    exact fun w _ _ => hwindows w false
  run := hrun
  reached := h.reached.step

theorem Ledger.other (h : Ledger now cache oks (⟨c, p, runUntil⟩ :: workers)) (v : Option Entry) :
    Ledger now (update cache ⟨.plain, true⟩ v) oks (⟨c, p, runUntil⟩ :: workers) := by
  have hne : runKey ≠ ⟨.plain, true⟩ := by decide
  have hrun : update cache ⟨.plain, true⟩ v runKey = cache runKey := update_of_ne hne _ _
  refine h.plain (fun w legacy => update_plain_windowKey w legacy _ _) ?_ (h.run.op ?_ ?_ ?_)
  · exact fun _ => rfl
  · rw [hrun]
    exact h.run.stored _ List.mem_cons_self
  · exact fun _ _ _ _ => hrun
  · exact h.run.inBody _ List.mem_cons_self

/-- The caller reads a key, or is refused it: it holds less from then on, if its token is not there. -/
theorem Ledger.ease (h : Ledger now cache oks (⟨c, p, runUntil⟩ :: workers))
    (hholds : ∀ legacy, p'.holds F legacy = true → p.holds F legacy = true)
    (hlost : ∀ legacy e, cache.live now (windowKey c.window legacy) = some e →
      p.holds F legacy = true → c.windowToken = e.token → p'.holds F legacy = true)
    (hruns : p'.runs = true → p.runs = true)
    (hbody : p'.inBody = true → now < runUntil) :
    Ledger now cache oks (⟨c, p', runUntil⟩ :: workers) where
  kept := by
    apply h.kept.op (fun _ hc => hc)
    intro w legacy e he
    refine .inr ⟨he, ?_⟩
    rintro hp rfl ht
    exact .inl (hlost legacy e he hp ht)
  taken := h.taken.op (takenWindows_ease (hholds false)) fun _ _ _ => rfl
  run := by
    refine h.run.op ?_ ?_ ?_
    · exact fun hr hlt => h.run.stored _ List.mem_cons_self (hruns hr) hlt
    · exact fun _ _ _ _ => rfl
    · exact hbody
  reached := h.reached.step

theorem Ledger.addLegacy {expires : Nat}
    (h : Ledger now cache oks (⟨c, .outside false false false, runUntil⟩ :: workers)) :
    Ledger now (update cache (windowKey c.window true) (some ⟨c.windowToken, expires⟩)) oks
      (⟨c, .outside false true false, runUntil⟩ :: workers) where
  kept := by
    apply h.kept.op (fun _ hc => hc)
    intro w legacy e he
    rcases live_add he with ⟨hkey, ht⟩ | ⟨-, hold⟩
    · obtain ⟨rfl, rfl⟩ := windowKey_inj hkey
      exact .inl ⟨rfl, ht.symm, .inl rfl⟩
    · refine .inr ⟨hold, fun hp _ _ => ?_⟩
      cases legacy <;> cases hp
  taken := by
    refine h.taken.op (takenWindows_ease ?_) ?_
    · intro hno
      cases hno
    · exact fun w _ _ => update_of_ne (by simp [windowKey]) _ _
  run := by
    refine h.run.op ?_ ?_ ?_
    · intro hno
      cases hno
    · exact fun _ _ _ _ => update_windowKey_run _ _ _
    · intro hno
      cases hno
  reached := h.reached.step

/-- The window's lock is taken: while a clock shows the window, nobody took it before. -/
theorem Ledger.addMain {legacy : Bool}
    (h : Ledger now cache oks (⟨c, .outside false legacy false, runUntil⟩ :: workers))
    (hin : F.InWindow c.pod now c.window)
    (hfree : cache.live now (windowKey c.window false) = none) :
    Ledger now
      (update cache (windowKey c.window false) (some ⟨c.windowToken, now + 2 * F.period⟩)) oks
      (⟨c, .outside true legacy false, runUntil⟩ :: workers) where
  kept := by
    apply h.kept.op (fun _ hc => hc)
    intro w legacy' e he
    rcases live_add he with ⟨hkey, ht⟩ | ⟨-, hold⟩
    · obtain ⟨rfl, rfl⟩ := windowKey_inj hkey
      exact .inl ⟨rfl, ht.symm, .inl rfl⟩
    · refine .inr ⟨hold, fun hp _ _ => .inl ?_⟩
      cases legacy' with
      | true => exact hp
      | false => rfl
  taken := by
    have hold : takenWindows oks (⟨c, .outside false legacy false, runUntil⟩ :: workers) =
        takenWindows oks workers := takenWindows_cons.trans (if_neg Bool.false_ne_true)
    have hnew : takenWindows oks (⟨c, .outside true legacy false, runUntil⟩ :: workers) =
        c.window :: takenWindows oks workers := takenWindows_cons.trans (if_pos rfl)
    have htaken := h.taken
    have hfresh : c.window ∉ takenWindows oks workers := by
      intro hmem
      rcases htaken.stored c.window (hold ▸ hmem) with hover | ⟨e, he, hover⟩
      · exact hover.not_inWindow hin
      · have hexpired : ¬ now < e.expires := fun hlt =>
          absurd (hfree.symm.trans (live_some.mpr ⟨he, hlt⟩)) (by simp)
        exact (hover.mono (by omega)).not_inWindow hin
    constructor
    · rw [hnew]
      exact List.nodup_cons.mpr ⟨hfresh, hold ▸ htaken.unique⟩
    · rw [hnew]
      intro w hw
      by_cases hwc : w = c.window
      · rw [hwc]
        exact .inr ⟨_, update_self _ _ _, F.over_of_inWindow hin⟩
      · rw [update_of_ne (by simp [windowKey, hwc])]
        exact htaken.stored w (hold ▸ (List.mem_cons.mp hw).resolve_left hwc)
  run := by
    refine h.run.op ?_ ?_ ?_
    · intro hno
      cases hno
    · exact fun _ _ _ _ => update_windowKey_run _ _ _
    · intro hno
      cases hno
  reached := h.reached.step

theorem Ledger.addRun {legacy : Bool}
    (h : Ledger now cache oks (⟨c, .outside true legacy false, runUntil⟩ :: workers))
    (hfree : cache.live now runKey = none) :
    Ledger now (update cache runKey (some ⟨c.runToken, r'⟩)) oks
      (⟨c, .outside true legacy true, r'⟩ :: workers) := by
  refine h.plain (fun w legacy => update_plain_windowKey w legacy _ _) ?_ (h.run.op ?_ ?_ ?_)
  · exact fun _ => rfl
  · exact fun _ _ => update_self _ _ _
  · intro u hu hruns hlt
    have hstored := h.run.stored u (List.mem_cons_of_mem _ hu) hruns hlt
    have hlive : cache.live now runKey = some ⟨u.call.runToken, u.runUntil⟩ :=
      live_some.mpr ⟨hstored, hlt⟩
    cases hfree.symm.trans hlive
  · exact nofun

/-- The caller deletes its window's key: nobody else took the window. -/
theorem Ledger.deleteMain {legacy run : Bool}
    (h : Ledger now cache oks (⟨c, .outside true legacy run, runUntil⟩ :: workers)) :
    Ledger now (update cache (windowKey c.window false) none) oks
      (⟨c, .outside false legacy run, runUntil⟩ :: workers) where
  kept := by
    apply h.kept.op (fun _ hc => hc)
    intro w legacy' e he
    obtain ⟨hne, hold⟩ := live_delete he
    refine .inr ⟨hold, ?_⟩
    rintro hp rfl ht
    cases legacy' with
    | true => exact .inl hp
    | false => exact absurd rfl hne
  taken := by
    have hnew : takenWindows oks (⟨c, .outside false legacy run, runUntil⟩ :: workers) =
        takenWindows oks workers := takenWindows_cons.trans (if_neg Bool.false_ne_true)
    have hold : takenWindows oks (⟨c, .outside true legacy run, runUntil⟩ :: workers) =
        c.window :: takenWindows oks workers := takenWindows_cons.trans (if_pos rfl)
    have hnodup := List.nodup_cons.mp (hold ▸ h.taken.unique)
    refine h.taken.op (takenWindows_ease ?_) ?_
    · intro hno
      cases hno
    · intro w hw _
      rw [hnew] at hw
      have hne : w ≠ c.window := fun heq => hnodup.1 (heq ▸ hw)
      exact update_of_ne (by simp [windowKey, hne]) _ _
  run := by
    refine h.run.op ?_ ?_ ?_
    · intro hr hlt
      rw [update_windowKey_run]
      exact h.run.stored _ List.mem_cons_self hr hlt
    · exact fun _ _ _ _ => update_windowKey_run _ _ _
    · intro hno
      cases hno
  reached := h.reached.step

theorem Ledger.deleteLegacy {main run : Bool}
    (h : Ledger now cache oks (⟨c, .outside main true run, runUntil⟩ :: workers)) :
    Ledger now (update cache (windowKey c.window true) none) oks
      (⟨c, .outside main false run, runUntil⟩ :: workers) where
  kept := by
    apply h.kept.op (fun _ hc => hc)
    intro w legacy' e he
    obtain ⟨hne, hold⟩ := live_delete he
    refine .inr ⟨hold, ?_⟩
    rintro hp rfl ht
    cases legacy' with
    | true => exact absurd rfl hne
    | false => exact .inl hp
  taken := by
    refine h.taken.op (takenWindows_ease ?_) ?_
    · exact fun hp => hp
    · exact fun w _ _ => update_of_ne (by simp [windowKey]) _ _
  run := by
    refine h.run.op ?_ ?_ ?_
    · intro hr hlt
      rw [update_windowKey_run]
      exact h.run.stored _ List.mem_cons_self hr hlt
    · exact fun _ _ _ _ => update_windowKey_run _ _ _
    · intro hno
      cases hno
  reached := h.reached.step

/-- The key two windows back: no clock shows that window any more. -/
theorem Ledger.deleteOld (h : Ledger now cache oks (⟨c, p, runUntil⟩ :: workers)) (legacy : Bool)
    (hw : 2 ≤ c.window) :
    Ledger now (update cache (windowKey (c.window - 2) legacy) none) oks
      (⟨c, p, runUntil⟩ :: workers) where
  kept := by
    apply h.kept.op (fun _ hc => hc)
    intro w legacy' e he
    exact .inr ⟨(live_delete he).2, fun hp _ _ => .inl hp⟩
  taken := by
    have hne : c.window ≠ 0 := by omega
    have hover : F.Over now (c.window - 2) :=
      F.over_of_two_back hw (h.reached ⟨c, p, runUntil⟩ List.mem_cons_self hne)
    refine h.taken.op (takenWindows_ease fun hp => hp) ?_
    intro w _ hnot
    have hne : w ≠ c.window - 2 := fun heq => hnot (heq ▸ hover)
    exact update_of_ne (by simp [windowKey, hne]) _ _
  run := by
    refine h.run.op ?_ ?_ ?_
    · intro hr hlt
      rw [update_windowKey_run]
      exact h.run.stored _ List.mem_cons_self hr hlt
    · exact fun _ _ _ _ => update_windowKey_run _ _ _
    · exact h.run.inBody _ List.mem_cons_self
  reached := h.reached.step

theorem Ledger.deleteRun (h : Ledger now cache oks (⟨c, p, runUntil⟩ :: workers))
    (free : p.runs = false)
    (hown : ∀ e, cache.live now runKey = some e → e.token = c.runToken) :
    Ledger now (update cache runKey none) oks (⟨c, p, runUntil⟩ :: workers) := by
  refine h.plain (fun w legacy => update_plain_windowKey w legacy _ _) ?_ (h.run.op ?_ ?_ ?_)
  · exact fun _ => rfl
  · exact fun hr => nomatch free.symm.trans hr
  · intro u hu hruns hlt
    have hstored := h.run.stored u (List.mem_cons_of_mem _ hu) hruns hlt
    have hsame : u.call.runToken = c.runToken := hown _ (live_some.mpr ⟨hstored, hlt⟩)
    have hnotin := (List.nodup_cons.mp h.run.tokens).1
    exact absurd (List.mem_map.mpr ⟨u, hu, hsame⟩) hnotin
  · exact h.run.inBody _ List.mem_cons_self

/-- A body that ends with `Ok` keeps its window for good. -/
theorem Ledger.leaveOk (h : Ledger now cache oks (⟨c, .body, runUntil⟩ :: workers)) :
    Ledger now cache (c :: oks) (⟨c, .done, runUntil⟩ :: workers) where
  kept := by
    apply h.kept.op (fun _ hc => List.mem_cons_of_mem _ hc)
    exact fun w legacy e he => .inr ⟨he, fun _ _ _ => .inr List.mem_cons_self⟩
  taken := by
    have hold : takenWindows oks (⟨c, .body, runUntil⟩ :: workers) =
        c.window :: takenWindows oks workers := takenWindows_cons.trans (if_pos rfl)
    have hnew : takenWindows (c :: oks) (⟨c, .done, runUntil⟩ :: workers) =
        takenWindows (c :: oks) workers := takenWindows_cons.trans (if_neg Bool.false_ne_true)
    apply h.taken.op _ fun _ _ _ => rfl
    rw [hold, hnew]
    exact List.perm_middle.subperm
  run := by
    refine h.run.op ?_ ?_ ?_
    · intro hno
      cases hno
    · exact fun _ _ _ _ => rfl
    · intro hno
      cases hno
  reached := h.reached.step

end Rustango.DistributedLock
