import Rustango.DistributedLock.Run

/-!
# What a call holds between two operations

The keys of its window that may hold its token, and the job's lock.
-/

namespace Rustango.DistributedLock

open Rustango.Threads

/-- What a call holds: the keys of its window, today's and the 0.63 one, and the job's lock. -/
inductive Phase where
  | outside (main legacy run : Bool)
  /-- In its body. -/
  | body
  /-- After a body that ended with `Ok`. -/
  | done
deriving DecidableEq, Repr

/-- A key of the window may hold the token. -/
def Phase.holds (F : Fleet) : Phase → Bool → Bool
  | .outside main legacy _, l => if l then legacy else main
  | .body, l => if l then F.legacy else true
  | .done, _ => false

/-- The job's lock was taken and its release has not begun. -/
def Phase.runs : Phase → Bool
  | .outside _ _ run => run
  | .body => true
  | .done => false

def Phase.inBody : Phase → Bool
  | .body => true
  | _ => false

variable {F : Fleet} (c : Call F)

/-- How an operation and its answer move the phase. -/
inductive Moves : Phase → (o : Op) → o.Answer → Phase → Prop where
  | addLegacy (ttl : Nat) (taken : Bool) :
      Moves (.outside false false false) (.add (windowKey c.window true) c.windowToken ttl) taken
        (.outside false taken false)
  | addMain (legacy taken : Bool) :
      Moves (.outside false legacy false)
        (.add (windowKey c.window false) c.windowToken (2 * F.period)) taken
        (.outside taken legacy false)
  | addRunLegacy (p : Phase) (ttl : Nat) (taken : Bool) :
      Moves p (.add ⟨.plain, true⟩ c.runToken ttl) taken p
  | addRun (legacy taken : Bool) :
      Moves (.outside true legacy false) (.add runKey c.runToken F.period) taken
        (.outside true legacy taken)
  | enter : Moves (.outside true F.legacy true) .enter () .body
  | leave (ending : Ending) :
      Moves .body .leave ending (if ending = .ok then .done else .outside true F.legacy false)
  | getMain (legacy run : Bool) (stored : Option Token) :
      Moves (.outside true legacy run) (.get (windowKey c.window false)) stored
        (.outside (decide (stored = some c.windowToken)) legacy run)
  | getLegacy (main run : Bool) (stored : Option Token) :
      Moves (.outside main true run) (.get (windowKey c.window true)) stored
        (.outside main (decide (stored = some c.windowToken)) run)
  | getRun (p : Phase) (legacy : Bool) (stored : Option Token) :
      Moves p (.get ⟨.plain, legacy⟩) stored p
  | deleteMain (legacy run : Bool) :
      Moves (.outside true legacy run) (.delete (windowKey c.window false)) ()
        (.outside false legacy run)
  | deleteLegacy (main run : Bool) :
      Moves (.outside main true run) (.delete (windowKey c.window true)) () (.outside main false run)
  | deleteOld (p : Phase) (legacy : Bool) (old : 2 ≤ c.window) :
      Moves p (.delete (windowKey (c.window - 2) legacy)) () p
  | deleteRunLegacy (p : Phase) : Moves p (.delete ⟨.plain, true⟩) () p
  | deleteRun (p : Phase) (free : p.runs = false) : Moves p (.delete runKey) () p

/-- A call returns without its window's lock, or after `Ok`. -/
def Settled (F : Fleet) (_ : Option Ending) (p : Phase) : Prop := ∀ legacy, p.holds F legacy = false

private theorem settled_outside (run : Bool) (out : Option Ending) :
    Settled F out (.outside false false run) := by
  intro legacy
  cases legacy <;> rfl

private theorem settled_done (out : Option Ending) : Settled F out .done := fun _ => rfl

private theorem releaseRun_follows (legacy : Bool) {p : Phase} (free : p.runs = false) :
    (c.runGuard.releaseKey legacy).Follows (Moves c) (fun _ q => q = p) p := by
  intro stored
  refine ⟨p, .getRun p legacy stored, ?_⟩
  change Prog.Follows _ _ (if stored = some c.runToken then _ else _) _
  by_cases hs : stored = some c.runToken
  · rw [if_pos hs]
    cases legacy with
    | true => exact fun _ => ⟨p, .deleteRunLegacy p, rfl⟩
    | false => exact fun _ => ⟨p, .deleteRun p free, rfl⟩
  · rw [if_neg hs]
    rfl

private theorem releaseRunLegacy_follows {p : Phase} (free : p.runs = false) :
    c.runGuard.releaseLegacy.Follows (Moves c) (fun _ q => q = p) p := by
  unfold Guard.releaseLegacy
  by_cases hl : c.runGuard.legacy = true
  · rw [if_pos hl]
    exact releaseRun_follows c true free
  · rw [if_neg hl]
    rfl

private theorem runGuard_release_follows {p : Phase} (free : p.runs = false) :
    c.runGuard.release.Follows (Moves c) (fun _ q => q = p) p := by
  apply (releaseRun_follows c false free).bind
  rintro _ q rfl
  exact releaseRunLegacy_follows c free

private theorem releaseMain_follows (legacy run : Bool) :
    (c.windowGuard.releaseKey false).Follows (Moves c) (fun _ q => q = .outside false legacy run)
      (.outside true legacy run) := by
  intro stored
  refine ⟨_, .getMain legacy run stored, ?_⟩
  change Prog.Follows _ _ (if stored = some c.windowToken then _ else _) _
  by_cases hs : stored = some c.windowToken
  · rw [if_pos hs, decide_eq_true hs]
    exact fun _ => ⟨_, .deleteMain legacy run, rfl⟩
  · rw [if_neg hs, decide_eq_false hs]
    rfl

private theorem releaseLegacy_follows (main run : Bool) :
    c.windowGuard.releaseLegacy.Follows (Moves c) (fun _ q => q = .outside main false run)
      (.outside main F.legacy run) := by
  change Prog.Follows _ _ (if F.legacy = true then c.windowGuard.releaseKey true else _) _
  by_cases hl : F.legacy = true
  · rw [if_pos hl, hl]
    intro stored
    refine ⟨_, .getLegacy main run stored, ?_⟩
    change Prog.Follows _ _ (if stored = some c.windowToken then _ else _) _
    by_cases hs : stored = some c.windowToken
    · rw [if_pos hs, decide_eq_true hs]
      exact fun _ => ⟨_, .deleteLegacy main run, rfl⟩
    · rw [if_neg hs, decide_eq_false hs]
      rfl
  · have hoff : F.legacy = false := by simpa using hl
    rw [if_neg hl, hoff]
    rfl

private theorem windowGuard_release_follows (run : Bool) :
    c.windowGuard.release.Follows (Moves c) (fun _ q => q = .outside false false run)
      (.outside true F.legacy run) := by
  apply (releaseMain_follows c F.legacy run).bind
  rintro _ q rfl
  exact releaseLegacy_follows c false run

private theorem acquireWindow_follows :
    (tryAcquire F.legacy (.at_ c.window) c.windowToken (2 * F.period)).Follows (Moves c)
      (fun g q => (g = none ∧ q = .outside false false false) ∨
        (g = some c.windowGuard ∧ q = .outside true F.legacy false))
      (.outside false false false) := by
  have hkey : (acquireKey c.windowGuard (2 * F.period)).Follows (Moves c)
      (fun g q => (g = none ∧ q = .outside false false false) ∨
        (g = some c.windowGuard ∧ q = .outside true F.legacy false))
      (.outside false F.legacy false) := by
    intro taken
    refine ⟨_, .addMain F.legacy taken, ?_⟩
    cases taken with
    | true => exact .inr ⟨rfl, rfl⟩
    | false =>
      apply (releaseLegacy_follows c false false).bind
      rintro _ q rfl
      exact .inl ⟨rfl, rfl⟩
  unfold tryAcquire
  by_cases hl : F.legacy = true
  · rw [if_pos hl]
    intro taken
    refine ⟨_, .addLegacy _ taken, ?_⟩
    cases taken with
    | false => exact .inl ⟨rfl, rfl⟩
    | true =>
      have hguard : (⟨.at_ c.window, true, c.windowToken⟩ : Guard) = c.windowGuard := by
        simp [Call.windowGuard, hl]
      change (acquireKey ⟨.at_ c.window, true, c.windowToken⟩ _).Follows _ _ _
      rw [hguard]
      rw [hl] at hkey ⊢
      exact hkey
  · have hoff : F.legacy = false := by simpa using hl
    have hguard : (⟨.at_ c.window, false, c.windowToken⟩ : Guard) = c.windowGuard := by
      simp [Call.windowGuard, hoff]
    rw [if_neg hl, hguard]
    rw [hoff] at hkey ⊢
    exact hkey

private theorem acquireRun_follows :
    (tryAcquire F.legacy .plain c.runToken F.period).Follows (Moves c)
      (fun g q => (g = none ∧ q = .outside true F.legacy false) ∨
        (g = some c.runGuard ∧ q = .outside true F.legacy true))
      (.outside true F.legacy false) := by
  have hkey : (acquireKey c.runGuard F.period).Follows (Moves c)
      (fun g q => (g = none ∧ q = .outside true F.legacy false) ∨
        (g = some c.runGuard ∧ q = .outside true F.legacy true))
      (.outside true F.legacy false) := by
    intro taken
    refine ⟨_, .addRun F.legacy taken, ?_⟩
    cases taken with
    | true => exact .inr ⟨rfl, rfl⟩
    | false =>
      apply (releaseRunLegacy_follows c rfl).bind
      rintro _ q rfl
      exact .inl ⟨rfl, rfl⟩
  unfold tryAcquire
  by_cases hl : F.legacy = true
  · rw [if_pos hl]
    intro taken
    refine ⟨_, .addRunLegacy _ _ taken, ?_⟩
    cases taken with
    | false => exact .inl ⟨rfl, rfl⟩
    | true =>
      have hguard : (⟨.plain, true, c.runToken⟩ : Guard) = c.runGuard := by
        simp [Call.runGuard, hl]
      change (acquireKey ⟨.plain, true, c.runToken⟩ _).Follows _ _ _
      rw [hguard]
      exact hkey
  · have hguard : (⟨.plain, false, c.runToken⟩ : Guard) = c.runGuard := by
      simp [Call.runGuard, hl]
    rw [if_neg hl, hguard]
    exact hkey

private theorem dropOld_follows (p : Phase) :
    (dropOld F.legacy c.window).Follows (Moves c) (fun _ q => q = p) p := by
  unfold dropOld
  by_cases hw : 2 ≤ c.window
  · rw [if_pos hw]
    refine fun _ => ⟨p, .deleteOld p false hw, ?_⟩
    by_cases hl : F.legacy = true
    · change Prog.Follows _ _ (if F.legacy = true then _ else _) _
      rw [if_pos hl]
      exact fun _ => ⟨p, .deleteOld p true hw, rfl⟩
    · change Prog.Follows _ _ (if F.legacy = true then _ else _) _
      rw [if_neg hl]
      rfl
  · rw [if_neg hw]
    rfl

private theorem free_follows (run : Bool) (out : Option Ending) :
    (do c.windowGuard.release; pure out : LockProg (Option Ending)).Follows (Moves c) (Settled F)
      (.outside true F.legacy run) := by
  apply (windowGuard_release_follows c run).bind
  rintro _ q rfl
  exact settled_outside run out

private theorem runBody_follows :
    (runBody c.windowGuard c.runGuard).Follows (Moves c) (Settled F) (.outside true F.legacy true) := by
  refine fun _ => ⟨_, .enter, fun ending => ⟨_, .leave ending, ?_⟩⟩
  cases ending with
  | ok =>
    apply (runGuard_release_follows c rfl).bind
    rintro _ q rfl
    exact settled_done _
  | err =>
    apply (runGuard_release_follows c rfl).bind
    rintro _ q rfl
    exact free_follows c false _
  | panic =>
    apply (runGuard_release_follows c rfl).bind
    rintro _ q rfl
    exact free_follows c false _

theorem onceInWindow_follows :
    c.onceInWindow.Follows (Moves c) (Settled F) (.outside false false false) := by
  apply (acquireWindow_follows c).bind
  rintro g q (⟨rfl, rfl⟩ | ⟨rfl, rfl⟩)
  · exact settled_outside false none
  · apply (dropOld_follows c _).bind
    rintro _ q rfl
    apply (acquireRun_follows c).bind
    rintro g q (⟨rfl, rfl⟩ | ⟨rfl, rfl⟩)
    · exact free_follows c false none
    · exact runBody_follows c

theorem cleanup_follows :
    c.cleanup.Follows (Moves c) (Settled F) (.outside true F.legacy false) := by
  apply (runGuard_release_follows c rfl).bind
  rintro _ q rfl
  exact free_follows c false none

end Rustango.DistributedLock
