import Mathlib.Data.List.Perm.Subperm
import Mathlib.Tactic.Ring
import Rustango.DistributedLock.Protocol

/-!
# What holds between two operations

Three invariants of the cache, the calls in progress and those that ended with `Ok`: whose token a
window's key holds, that a window is taken once, and that the job's lock is its holder's.
-/

namespace Rustango.DistributedLock

open Function Rustango.Threads

variable {F : Fleet}

/-- A call in progress as the invariants see it. -/
structure Worker (F : Fleet) where
  call : Call F
  phase : Phase
  runUntil : Nat

/-- No clock shows the window any more, nor an earlier one. -/
def Fleet.Over (F : Fleet) (now window : Nat) : Prop :=
  ∀ p, ((window + 1) * F.period : Int) ≤ now + F.offset p

theorem Fleet.Over.mono {now now' window : Nat} (h : F.Over now window) (hle : now ≤ now') :
    F.Over now' window := by
  intro p
  have hp := h p
  omega

theorem Fleet.Over.not_inWindow {now window : Nat} {p : F.Pod} (h : F.Over now window) :
    ¬ F.InWindow p now window := by
  intro hin
  have hp := h p
  have hlt := hin.2
  omega

theorem Fleet.over_of_inWindow {now window : Nat} {p : F.Pod} (h : F.InWindow p now window) :
    F.Over (now + 2 * F.period) window := by
  intro q
  have hskew := F.skew p q
  have hlow := h.1
  have hmul : ((window + 1) * F.period : Int) = window * F.period + F.period := by ring
  push_cast
  omega

theorem Fleet.over_of_two_back {now window : Nat} {p : F.Pod} (hw : 2 ≤ window)
    (h : (window * F.period : Int) ≤ now + F.offset p) : F.Over now (window - 2) := by
  intro q
  have hskew := F.skew p q
  obtain ⟨w, rfl⟩ : ∃ w, window = w + 2 := ⟨window - 2, by omega⟩
  have hmul : (((w + 2 : Nat) : Int) * F.period : Int) = (w + 1) * F.period + F.period := by
    push_cast
    ring
  have hsub : w + 2 - 2 = w := by omega
  rw [hsub]
  omega

section Cache
variable {cache : Cache} {now : Nat} {key key' : Key} {e : Entry}

theorem live_some : cache.live now key = some e ↔ cache key = some e ∧ now < e.expires := by
  simp [Cache.live, Option.filter_eq_some_iff]

theorem live_of_tick {now' : Nat} (hle : now ≤ now') (h : cache.live now' key = some e) :
    cache.live now key = some e := by
  rw [live_some] at h ⊢
  exact ⟨h.1, by omega⟩

private theorem live_update_of_ne {v : Option Entry} (h : key' ≠ key) :
    Cache.live (update cache key v) now key' = cache.live now key' := by
  unfold Cache.live
  rw [update_of_ne h]

theorem live_delete (h : Cache.live (update cache key none) now key' = some e) :
    key' ≠ key ∧ cache.live now key' = some e := by
  by_cases hk : key' = key
  · subst hk
    rw [live_some, update_self] at h
    cases h.1
  · rw [live_update_of_ne hk] at h
    exact ⟨hk, h⟩

theorem live_add {token : Token} {expires : Nat}
    (h : Cache.live (update cache key (some ⟨token, expires⟩)) now key' = some e) :
    (key' = key ∧ e.token = token) ∨ key' ≠ key ∧ cache.live now key' = some e := by
  by_cases hk : key' = key
  · subst hk
    rw [live_some, update_self] at h
    exact .inl ⟨rfl, (Option.some.inj h.1) ▸ rfl⟩
  · rw [live_update_of_ne hk] at h
    exact .inr ⟨hk, h⟩

theorem run_add (now : Nat) (cache : Cache) (key : Key) (token : Token) (ttl : Nat)
    (ending : Ending) :
    ((Op.add key token ttl).run now ending cache = (false, cache)) ∨
    (cache.live now key = none ∧ (Op.add key token ttl).run now ending cache =
      (true, update cache key (some ⟨token, now + ttl⟩))) := by
  by_cases h : (cache.live now key).isSome = true
  · exact .inl (by simp [Op.run, h])
  · exact .inr ⟨by simpa using h, by simp [Op.run, h]⟩

private theorem windowKey_ne_plain {window : Nat} {legacy legacy' : Bool} :
    windowKey window legacy ≠ ⟨.plain, legacy'⟩ := by
  simp [windowKey]

theorem update_windowKey_run (w : Nat) (legacy : Bool) (v : Option Entry) :
    update cache (windowKey w legacy) v runKey = cache runKey :=
  update_of_ne windowKey_ne_plain.symm _ _

theorem update_plain_windowKey (w : Nat) (legacy l : Bool) (v : Option Entry) :
    update cache ⟨.plain, l⟩ v (windowKey w legacy) = cache (windowKey w legacy) :=
  update_of_ne windowKey_ne_plain _ _

theorem windowKey_inj {window window' : Nat} {legacy legacy' : Bool}
    (h : windowKey window legacy = windowKey window' legacy') :
    window = window' ∧ legacy = legacy' := by
  simpa [windowKey] using h

end Cache

/-- Whose token a window's key holds. -/
def Kept (now : Nat) (cache : Cache) (oks : List (Call F)) (workers : List (Worker F)) : Prop :=
  ∀ window legacy e, cache.live now (windowKey window legacy) = some e →
    (∃ c ∈ oks, c.window = window ∧ c.windowToken = e.token) ∨
    ∃ wk ∈ workers, wk.phase.holds F legacy = true ∧ wk.call.window = window ∧
      wk.call.windowToken = e.token

/-- The windows whose lock was taken for good or is held. -/
def mains (workers : List (Worker F)) : List Nat :=
  (workers.filter fun wk => wk.phase.holds F false).map (·.call.window)

def takenWindows (oks : List (Call F)) (workers : List (Worker F)) : List Nat :=
  mains workers ++ oks.map (·.window)

/-- A window is taken once, and its key is stored until no clock shows it. -/
structure Taken (now : Nat) (cache : Cache) (oks : List (Call F)) (workers : List (Worker F)) :
    Prop where
  unique : (takenWindows oks workers).Nodup
  stored : ∀ w ∈ takenWindows oks workers, F.Over now w ∨
    ∃ e, cache (windowKey w false) = some e ∧ F.Over e.expires w

/-- The job's lock is its holder's until it expires, and a body ends before. -/
structure RunLock (now : Nat) (cache : Cache) (workers : List (Worker F)) : Prop where
  stored : ∀ wk ∈ workers, wk.phase.runs = true → now < wk.runUntil →
    cache runKey = some ⟨wk.call.runToken, wk.runUntil⟩
  inBody : ∀ wk ∈ workers, wk.phase.inBody = true → now < wk.runUntil
  tokens : (workers.map (·.call.runToken)).Nodup

/-- The clock of every pod at work showed the window of its call. -/
def Reached (now : Nat) (workers : List (Worker F)) : Prop :=
  ∀ wk ∈ workers, wk.call.window ≠ 0 →
    (wk.call.window * F.period : Int) ≤ now + F.offset wk.call.pod

structure Ledger (now : Nat) (cache : Cache) (oks : List (Call F)) (workers : List (Worker F)) :
    Prop where
  kept : Kept now cache oks workers
  taken : Taken now cache oks workers
  run : RunLock now cache workers
  reached : Reached now workers

variable {now : Nat} {cache cache' : Cache} {oks oks' : List (Call F)}
  {workers workers' : List (Worker F)} {wk : Worker F} {c : Call F} {p p' : Phase}
  {runUntil r' : Nat}

private theorem takenWindows_perm (hp : workers.Perm workers') :
    (takenWindows oks workers).Perm (takenWindows oks workers') :=
  ((hp.filter _).map _).append_right _

theorem Ledger.perm (h : Ledger now cache oks workers) (hp : workers.Perm workers') :
    Ledger now cache oks workers' where
  kept window legacy e he := by
    refine (h.kept window legacy e he).imp_right ?_
    rintro ⟨wk, hwk, hrest⟩
    exact ⟨wk, hp.subset hwk, hrest⟩
  taken :=
    ⟨(takenWindows_perm hp).nodup_iff.mp h.taken.unique,
      fun w hw => h.taken.stored w ((takenWindows_perm hp).symm.subset hw)⟩
  run :=
    ⟨fun wk hwk => h.run.stored wk (hp.symm.subset hwk),
      fun wk hwk => h.run.inBody wk (hp.symm.subset hwk),
      (hp.map _).nodup_iff.mp h.run.tokens⟩
  reached wk hwk := h.reached wk (hp.symm.subset hwk)

theorem takenWindows_cons :
    takenWindows oks (wk :: workers) =
      if wk.phase.holds F false = true then wk.call.window :: takenWindows oks workers
      else takenWindows oks workers := by
  by_cases h : wk.phase.holds F false = true <;> simp [takenWindows, mains, h]

/-- The keys of windows: new ones are the caller's, and those it stops holding are not. -/
theorem Kept.op (h : Kept now cache oks (⟨c, p, runUntil⟩ :: workers))
    (hoks : ∀ c ∈ oks, c ∈ oks')
    (hnew : ∀ window legacy e, cache'.live now (windowKey window legacy) = some e →
      (c.window = window ∧ c.windowToken = e.token ∧ (p'.holds F legacy = true ∨ c ∈ oks')) ∨
      (cache.live now (windowKey window legacy) = some e ∧
        (p.holds F legacy = true → c.window = window → c.windowToken = e.token →
          p'.holds F legacy = true ∨ c ∈ oks'))) :
    Kept now cache' oks' (⟨c, p', r'⟩ :: workers) := by
  intro window legacy e he
  have hmine : c.window = window → c.windowToken = e.token →
      (p'.holds F legacy = true ∨ c ∈ oks') →
      (∃ c ∈ oks', c.window = window ∧ c.windowToken = e.token) ∨
      ∃ u ∈ (⟨c, p', r'⟩ : Worker F) :: workers, u.phase.holds F legacy = true ∧
        u.call.window = window ∧ u.call.windowToken = e.token := by
    rintro hw ht (hholds | hok)
    · exact .inr ⟨_, List.mem_cons_self, hholds, hw, ht⟩
    · exact .inl ⟨c, hok, hw, ht⟩
  rcases hnew window legacy e he with ⟨hw, ht, hor⟩ | ⟨hold, hmay⟩
  · exact hmine hw ht hor
  · rcases h window legacy e hold with ⟨d, hd, hdw, hdt⟩ | ⟨u, hu, hholds, huw, hut⟩
    · exact .inl ⟨d, hoks d hd, hdw, hdt⟩
    · rcases List.mem_cons.mp hu with rfl | hmem
      · exact hmine huw hut (hmay hholds huw hut)
      · exact .inr ⟨u, List.mem_cons_of_mem _ hmem, hholds, huw, hut⟩

theorem Taken.op (h : Taken now cache oks workers)
    (hsub : (takenWindows oks' workers').Subperm (takenWindows oks workers))
    (hstored : ∀ w ∈ takenWindows oks' workers', ¬ F.Over now w →
      cache' (windowKey w false) = cache (windowKey w false)) :
    Taken now cache' oks' workers' where
  unique := by
    obtain ⟨l, hperm, hsublist⟩ := hsub
    exact hperm.nodup_iff.mp (h.unique.sublist hsublist)
  stored w hw := by
    by_cases hover : F.Over now w
    · exact .inl hover
    · rw [hstored w hw hover]
      exact h.stored w (hsub.subset hw)

/-- The job's lock stays where its key does not change. -/
theorem RunLock.op (h : RunLock now cache (⟨c, p, runUntil⟩ :: workers))
    (hself : p'.runs = true → now < r' → cache' runKey = some ⟨c.runToken, r'⟩)
    (hothers : ∀ u ∈ workers, u.phase.runs = true → now < u.runUntil → cache' runKey = cache runKey)
    (hbody : p'.inBody = true → now < r') :
    RunLock now cache' (⟨c, p', r'⟩ :: workers) where
  stored u hu hruns hlt := by
    rcases List.mem_cons.mp hu with rfl | hmem
    · exact hself hruns hlt
    · rw [hothers u hmem hruns hlt]
      exact h.stored u (List.mem_cons_of_mem _ hmem) hruns hlt
  inBody u hu hin := by
    rcases List.mem_cons.mp hu with rfl | hmem
    · exact hbody hin
    · exact h.inBody u (List.mem_cons_of_mem _ hmem) hin
  tokens := h.tokens

end Rustango.DistributedLock
