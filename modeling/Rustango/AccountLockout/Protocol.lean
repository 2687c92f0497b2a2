import Rustango.AccountLockout.Run

/-!
# What a call holds between two operations

The window it knows, the slot it holds, an undo or a lock it still owes, or a window it is clearing.
-/

namespace Rustango.AccountLockout

open Rustango.Threads

/-- What a call holds. -/
inductive Token where
  | idle
  /-- The window it read or opened. -/
  | knows (w : Id)
  /-- An attempt it counted; a good one may still be handed out. -/
  | holding (w : Id) (good : Bool)
  /-- It took the counter below 0. -/
  | fixing (w : Id)
  /-- It counted the last failure and sets the lock next. -/
  | owing
  /-- It deleted the window's attempts. -/
  | closing (w : Id)
deriving DecidableEq, Repr

variable (l : Lockout)

/-- How an operation and its answer move the token. -/
inductive Moves : Token → (o : CacheOp) → o.Answer → Token → Prop where
  | existsLock (t : Token) (locked : Bool) : Moves t .existsLock locked t
  | setLock : Moves .owing .setLock () .idle
  | deleteLock : Moves .idle .deleteLock () .idle
  | now (clock : Id) : Moves .idle .now clock .idle
  | getFailures (t : Token) (w : Id) (n : Option Int) : Moves t (.getFailures w) n t
  | learn (w : Id) : Moves .idle .getWindow (some w) (.knows w)
  | glance (v : Option Id) : Moves .idle .getWindow v .idle
  | keep (w : Id) (good : Bool) (v : Option Id) : Moves (.holding w good) .getWindow v (.holding w good)
  | forget (w : Id) (good : Bool) (v : Id) (other : v ≠ w) :
      Moves (.holding w good) .getWindow (some v) (.knows v)
  | forgetAll (w : Id) (good : Bool) : Moves (.holding w good) .getWindow none .idle
  | opened (w : Id) : Moves .idle (.addWindow w) true (.knows w)
  | lost (w : Id) : Moves .idle (.addWindow w) false .idle
  | reserve (w : Id) (n : Int) :
      Moves (.knows w) (.incrAttempts w .reserve) n (.holding w (decide (n ≤ l.maxAttempts)))
  | failure (w : Id) (n : Int) (t : Token)
      (last : t = .owing ∨ t = .idle ∧ 0 ≤ n ∧ n < l.maxAttempts) :
      Moves (.knows w) (.incrAttempts w .failure) n t
  | giveBack (w : Id) (good : Bool) (n : Int) :
      Moves (.holding w good) (.incrAttempts w .giveBack) n (if n < 0 then .fixing w else .idle)
  | undo (w : Id) (n : Int) : Moves (.fixing w) (.incrAttempts w .undo) n .idle
  | failed (w : Id) (good : Bool) (n : Int) :
      Moves (.holding w good) (.incrFailures w true) n
        (if (l.maxAttempts : Int) ≤ n then .owing else .idle)
  | stray (w : Id) (n : Int) :
      Moves (.knows w) (.incrFailures w false) n
        (if (l.maxAttempts : Int) ≤ n then .owing else .idle)
  | wipe (w : Id) : Moves (.knows w) (.deleteAttempts w) () (.closing w)
  | wipeHeld (w : Id) (good : Bool) : Moves (.holding w good) (.deleteAttempts w) () (.closing w)
  | wipeFailures (w : Id) : Moves (.closing w) (.deleteFailures w) () (.closing w)
  | closed (w : Id) : Moves (.closing w) .deleteWindow () .idle
  | dropWindow : Moves .idle .deleteWindow () .idle

/-- The token a call starts with: the slot it reports. -/
def Call.token (c : Call) : Token :=
  match c.slot? with
  | some (some w) => .holding w true
  | _ => .idle

/-- The token a call returns with: a slot it hands out, and nothing else. -/
def Settled : Outcome → Token → Prop
  | .reserved (.counted (some w)), t => t = .holding w true
  | _, t => t = .idle

/-- What is read or opened is known. -/
def Learnt : Option Id → Token → Prop
  | some w, t => t = .knows w
  | none, t => t = .idle

private theorem windowRounds_follows (open_ : Bool) (rounds : Nat) :
    (windowRounds open_ rounds).Follows (Moves l) Learnt .idle := by
  induction rounds with
  | zero => rfl
  | succ rounds ih =>
    intro found
    cases found with
    | some w => exact ⟨.knows w, .learn w, rfl⟩
    | none =>
      refine ⟨.idle, .glance none, ?_⟩
      cases open_ with
      | false => rfl
      | true =>
        intro clock
        refine ⟨.idle, .now clock, fun added => ?_⟩
        cases added with
        | true => exact ⟨.knows clock, .opened clock, rfl⟩
        | false => exact ⟨.idle, .lost clock, ih⟩

private theorem window_follows (open_ : Bool) : (window open_).Follows (Moves l) Learnt .idle :=
  windowRounds_follows l open_ 2

private theorem decrement_follows (w : Id) (good : Bool) :
    (decrement w).Follows (Moves l) (fun _ t => t = .idle) (.holding w good) := by
  intro n
  refine ⟨_, .giveBack w good n, ?_⟩
  by_cases hn : n < 0
  · rw [if_pos hn]
    change Prog.Follows _ _ (if n < 0 then _ else _) _
    rw [if_pos hn]
    exact fun m => ⟨.idle, .undo w m, rfl⟩
  · rw [if_neg hn]
    change Prog.Follows _ _ (if n < 0 then _ else _) _
    rw [if_neg hn]
    rfl

private theorem wiped_follows (w : Id) (t : Token) (h : Moves l t (.deleteAttempts w) () (.closing w)) :
    (do deleteAttempts w; deleteFailures w; deleteWindow : CacheProg Unit).Follows (Moves l)
      (fun _ t' => t' = .idle) t :=
  fun _ => ⟨.closing w, h, fun _ => ⟨.closing w, .wipeFailures w, fun _ => ⟨.idle, .closed w, rfl⟩⟩⟩

private theorem clearWindow_follows :
    clearWindow.Follows (Moves l) (fun _ t => t = .idle) .idle := by
  intro found
  cases found with
  | some w => exact ⟨.knows w, .learn w, wiped_follows l w (.knows w) (.wipe w)⟩
  | none => exact ⟨.idle, .glance none, fun _ => ⟨.idle, .dropWindow, rfl⟩⟩

private theorem clearWindow_follows_holding (w : Id) (good : Bool) :
    clearWindow.Follows (Moves l) (fun _ t => t = .idle) (.holding w good) := by
  intro found
  cases found with
  | none => exact ⟨.idle, .forgetAll w good, fun _ => ⟨.idle, .dropWindow, rfl⟩⟩
  | some v =>
    by_cases hv : v = w
    · subst hv
      exact ⟨.holding v good, .keep v good (some v),
        wiped_follows l v (.holding v good) (.wipeHeld v good)⟩
    · exact ⟨.knows v, .forget w good v hv, wiped_follows l v (.knows v) (.wipe v)⟩

private theorem lock_follows {α : Type} {Q : α → Token → Prop} {a : α} (h : Q a .idle) :
    (do setLock; clearWindow; pure a : CacheProg α).Follows (Moves l) Q .owing := by
  refine fun _ => ⟨.idle, .setLock, ?_⟩
  apply (clearWindow_follows l).bind
  rintro _ t rfl
  exact h

private theorem reserve_follows :
    l.reserve.Follows (Moves l) (fun r t => Settled (.reserved r) t) .idle := by
  intro locked
  refine ⟨.idle, .existsLock .idle locked, ?_⟩
  cases locked with
  | true => rfl
  | false =>
    apply (window_follows l true).bind
    intro found t ht
    cases found with
    | none => exact ht
    | some w =>
      obtain rfl : t = .knows w := ht
      intro n
      refine ⟨_, .reserve w n, ?_⟩
      change Prog.Follows _ _ (if (l.maxAttempts : Int) < n then _ else _) _
      by_cases hn : (l.maxAttempts : Int) < n
      · rw [if_pos hn]
        apply (decrement_follows l w _).bind
        exact fun _ t ht => ht
      · rw [if_neg hn, decide_eq_true (Int.not_lt.mp hn)]
        intro again
        refine ⟨.holding w true, .existsLock _ again, ?_⟩
        cases again with
        | false => rfl
        | true =>
          apply (decrement_follows l w true).bind
          exact fun _ t ht => ht

private theorem failIn_follows (w : Id) (counted : Bool) (t : Token)
    (h : ∀ n : Int, Moves l t (.incrFailures w counted) n
      (if (l.maxAttempts : Int) ≤ n then .owing else .idle)) :
    (l.failIn counted w).Follows (Moves l) (fun _ t' => t' = .idle) t := by
  intro n
  refine ⟨_, h n, ?_⟩
  change Prog.Follows _ _ (if (l.maxAttempts : Int) ≤ n then _ else _) _
  by_cases hn : (l.maxAttempts : Int) ≤ n
  · rw [if_pos hn, if_pos hn]
    exact fun _ => ⟨.idle, .setLock, clearWindow_follows l⟩
  · rw [if_neg hn, if_neg hn]
    rfl

private theorem reservedFailed_follows (slot : Option Id) :
    (l.reservedFailed slot).Follows (Moves l) (fun _ t => t = .idle)
      (Call.reservedFailed slot).token := by
  cases slot with
  | some w => exact failIn_follows l w true _ (.failed w true)
  | none =>
    apply (window_follows l true).bind
    intro found t ht
    cases found with
    | none => exact ht
    | some w =>
      obtain rfl : t = .knows w := ht
      exact failIn_follows l w false _ (.stray w)

private theorem release_follows (slot : Option Id) :
    (release slot).Follows (Moves l) (fun _ t => t = .idle) (Call.release slot).token := by
  cases slot with
  | some w => exact decrement_follows l w true
  | none => rfl

private theorem failureCount_follows (slot : Option Id) :
    failureCount.Follows (Moves l) (fun _ t => t = (Call.reservedSucceeded slot).token)
      (Call.reservedSucceeded slot).token := by
  intro found
  have hread : Moves l (Call.reservedSucceeded slot).token .getWindow found
      (Call.reservedSucceeded slot).token := by
    cases slot with
    | some w => exact .keep w true found
    | none => exact .glance found
  refine ⟨_, hread, ?_⟩
  cases found with
  | none => rfl
  | some v => exact fun n => ⟨_, .getFailures _ v n, rfl⟩

private theorem reservedSucceeded_follows (slot : Option Id) :
    (reservedSucceeded slot).Follows (Moves l) (fun _ t => t = .idle)
      (Call.reservedSucceeded slot).token := by
  apply (failureCount_follows l slot).bind
  rintro failures t rfl
  by_cases hn : 0 < failures
  · rw [if_pos hn]
    cases slot with
    | some w => exact clearWindow_follows_holding l w true
    | none => exact clearWindow_follows l
  · rw [if_neg hn]
    exact release_follows l slot

private theorem clear_follows : clear.Follows (Moves l) (fun _ t => t = .idle) .idle := by
  apply (clearWindow_follows l).bind
  rintro _ t rfl
  exact fun _ => ⟨.idle, .deleteLock, rfl⟩

/-- The count that `record_failure` goes by. -/
def counter (counted : Option Int) : Nat := (toU32? (counted.getD 0)).getD (2 ^ 32 - 1)

private theorem counter_lt {n : Int} (h : counter (some n) < l.maxAttempts) : 0 ≤ n ∧ n < l.maxAttempts := by
  have hfits := l.fits
  simp only [counter, toU32?, Option.getD_some] at h
  split at h
  · rename_i hn
    simp only [Option.getD_some] at h
    omega
  · simp only [Option.getD_none] at h
    omega

private theorem countFailure_follows :
    countFailure.Follows (Moves l)
      (fun counted t => t = if l.maxAttempts ≤ counter counted then .owing else .idle) .idle := by
  apply (window_follows l true).bind
  intro found t ht
  cases found with
  | none =>
    have hzero : counter none = 0 := rfl
    have hlow : ¬ l.maxAttempts ≤ counter none := by
      have hone := l.atLeastOne
      omega
    obtain rfl : t = .idle := ht
    exact (if_neg hlow).symm
  | some w =>
    obtain rfl : t = .knows w := ht
    refine fun n => ⟨_, .failure w n _ ?_, rfl⟩
    by_cases hn : l.maxAttempts ≤ counter (some n)
    · exact .inl (if_pos hn)
    · exact .inr ⟨if_neg hn, counter_lt l (Nat.lt_of_not_le hn)⟩

private theorem recordFailure_follows :
    l.recordFailure.Follows (Moves l) (fun _ t => t = .idle) .idle := by
  intro locked
  refine ⟨.idle, .existsLock .idle locked, ?_⟩
  cases locked with
  | true => rfl
  | false =>
    apply (countFailure_follows l).bind
    rintro counted t rfl
    change Prog.Follows _ _ (if l.maxAttempts ≤ counter counted then _ else _) _
    by_cases hn : l.maxAttempts ≤ counter counted
    · rw [if_pos hn, if_pos hn]
      exact lock_follows l rfl
    · rw [if_neg hn, if_neg hn]
      rfl

theorem prog_follows (c : Call) : (l.prog c).Follows (Moves l) Settled c.token := by
  cases c with
  | reserve => exact (reserve_follows l).bind fun _ _ h => h
  | reservedFailed slot => exact (reservedFailed_follows l slot).bind fun _ _ h => h
  | reservedSucceeded slot => exact (reservedSucceeded_follows l slot).bind fun _ _ h => h
  | release slot => exact (release_follows l slot).bind fun _ _ h => h
  | recordFailure => exact (recordFailure_follows l).bind fun _ _ h => h
  | clear => exact (clear_follows l).bind fun _ _ h => h

/-- A result that hands out no slot. -/
def Outcome.Uncounted (out : Outcome) : Prop := ∀ slot, out ≠ .reserved (.counted slot)

/-- A program that hands out no slot while the account is locked. -/
def ShutOut (p : CacheProg Outcome) : Prop :=
  p.All Outcome.Uncounted ∨ ∃ next : Bool → CacheProg Outcome,
    p = .op .existsLock next ∧ (next true).All Outcome.Uncounted

theorem prog_shutOut (c : Call) : ShutOut (l.prog c) := by
  cases c with
  | reserve => exact .inr ⟨_, rfl, fun _ => by simp⟩
  | reservedFailed slot => exact .inl (Prog.All.bind fun _ _ => by simp)
  | reservedSucceeded slot => exact .inl (Prog.All.bind fun _ _ => by simp)
  | release slot => exact .inl (Prog.All.bind fun _ _ => by simp)
  | recordFailure => exact .inl (Prog.All.bind fun _ _ => by simp)
  | clear => exact .inl (Prog.All.bind fun _ _ => by simp)

end Rustango.AccountLockout
