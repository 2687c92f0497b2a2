import Rustango.AccountLockout.Keeps

/-!
# Attempts are bounded in every window

Along every run whose operations are sound: the slots of a window never exceed the threshold, the
counter of the current window is exact once no call is in progress, the failures that demand a lock
have set it, and no call that started after a lock hands out a slot. Counters deleted under a
`reserve` that has read the window's id break the first of these.
-/

namespace Rustango.AccountLockout

open Function Rustango.Threads Rustango.Runs

variable {l : Lockout} {s s' : State} {toks : List Token}

/-- A call in progress is known by its token. -/
def Known (l : Lockout) (t : Token) (th : Thread) : Prop := th.prog.Follows (Moves l) Settled t

/-- A call that started after a lock that lasts. -/
def Barred (a : Account) (th : Thread) : Prop :=
  th.shut = true → a.locked = true ∧ ShutOut th.prog

/-- What holds between any two operations of a run. -/
structure Inv (l : Lockout) (s : State) (toks : List Token) : Prop where
  known : List.Forall₂ (Known l) toks s.threads
  ledger : Ledger l s.account s.books s.slots toks
  barred : ∀ th ∈ s.threads, Barred s.account th

theorem Ledger.idle {a : Account} {b : Books} {slots : Id → Nat} (h : Ledger l a b slots toks) :
    Ledger l a b slots (.idle :: toks) where
  window w := by
    have hw := h.window w
    refine { hw with bound := ?_, covered := ?_, tight := ?_, closes := ?_, owed := ?_ }
    · simpa [Token.good] using hw.bound
    · simpa [Token.holds] using hw.covered
    · simpa [Token.holds] using hw.tight
    · exact fun hc hwiped => List.mem_cons_of_mem _ (hw.closes hc hwiped)
    · exact fun ho => (hw.owed ho).imp_right (List.mem_cons_of_mem _)
  token u hu := by
    rcases List.mem_cons.mp hu with rfl | hmem
    · exact tokenLedger_idle
    · exact h.token u hmem

/-- A slot moves between those nobody reported and the call that reports it. -/
theorem Ledger.moveSlot {a : Account} {b : Books} {slots slots' : Id → Nat} {t t' : Token}
    (h : Ledger l a b slots (t :: toks)) (ht' : TokenLedger b t')
    (hholds : ∀ w, slots' w + t'.holds w = slots w + t.holds w)
    (hgood : ∀ w, slots' w + t'.good w = slots w + t.good w)
    (hc : ∀ w, t ≠ .closing w) (hno : t ≠ .owing) :
    Ledger l a b slots' (t' :: toks) where
  window w := by
    have hw := h.window w
    have hh := hholds w
    have hg := hgood w
    refine { hw with bound := ?_, covered := ?_, tight := ?_, closes := ?_, owed := ?_ }
    · have hbound := hw.bound
      rw [good_cons] at hbound ⊢
      omega
    · intro hwiped
      have hcov := hw.covered hwiped
      rw [held_cons] at hcov ⊢
      omega
    · intro hcur hwiped
      have htight := hw.tight hcur hwiped
      rw [held_cons] at htight ⊢
      omega
    · exact fun hcur hwiped => mem_retoken (fun heq => absurd heq (hc w)) (hw.closes hcur hwiped)
    · exact fun ho => (hw.owed ho).imp_right (mem_retoken fun heq => absurd heq hno)
  token u hu := by
    rcases List.mem_cons.mp hu with rfl | hmem
    · exact ht'
    · exact h.token u (List.mem_cons_of_mem _ hmem)

theorem Ledger.opened_of_slot {a : Account} {b : Books} {slots : Id → Nat}
    (h : Ledger l a b slots toks) {w : Id} (hs : slots w ≠ 0) : b.opened w = true := by
  by_contra hopen
  have hw := h.window w
  have hnone := hw.unopened (by simpa using hopen)
  have hcov := hw.covered hnone.2
  omega

theorem Inv.start (h : Inv l s toks) {c : Call} {t : Token} (slots : Id → Nat) (n : Nat)
    (ht : t = c.token) (hledger : Ledger l s.account s.books slots (t :: toks)) :
    Inv l (({ s with slots := slots, uncounted := n } : State).start l c) (toks ++ [t]) where
  known := by
    have hone : List.Forall₂ (Known l) [t] [⟨s.account.locked, l.prog c⟩] := by
      refine .cons ?_ .nil
      rw [ht]
      exact prog_follows l c
    exact List.rel_append h.known hone
  ledger := hledger.perm (List.perm_append_singleton t toks).symm
  barred th hth := by
    rcases List.mem_append.mp hth with hmem | hmem
    · exact h.barred th hmem
    · obtain rfl := List.mem_singleton.mp hmem
      exact fun hlocked => ⟨hlocked, prog_shutOut l c⟩

theorem Inv.call (h : Inv l s toks) {c : Call} (hstep : step l (.call c) s = some s') :
    ∃ toks', Inv l s' toks' := by
  have hidle := h.ledger.idle
  simp only [step] at hstep
  split at hstep
  · rename_i slot hslot
    obtain ⟨u, hu, rfl⟩ := Option.map_eq_some_iff.mp hstep
    cases slot with
    | none =>
      have ht : Token.idle = c.token := by simp [Call.token, hslot]
      simp only [State.report] at hu
      split_ifs at hu with hn
      obtain rfl := Option.some.inj hu
      exact ⟨_, h.start s.slots (s.uncounted - 1) ht hidle⟩
    | some w =>
      have ht : Token.holding w true = c.token := by simp [Call.token, hslot]
      simp only [State.report] at hu
      split_ifs at hu with hn
      obtain rfl := Option.some.inj hu
      have hopened := h.ledger.opened_of_slot hn
      refine ⟨_, h.start _ s.uncounted ht ?_⟩
      refine hidle.moveSlot (tokenLedger_holding hopened) ?_ ?_ nofun nofun
      · intro v
        by_cases hv : v = w
        · subst hv
          simp only [update_self, Token.holds, if_pos]
          omega
        · simp [hv, Ne.symm hv, Token.holds]
      · intro v
        by_cases hv : v = w
        · subst hv
          simp only [update_self, Token.good, if_pos]
          omega
        · simp [hv, Ne.symm hv, Token.good]
  · rename_i hslot
    obtain rfl := Option.some.inj hstep
    have ht : Token.idle = c.token := by simp [Call.token, hslot]
    exact ⟨_, h.start s.slots s.uncounted ht hidle⟩

theorem Ledger.drop {a : Account} {b : Books} {slots : Id → Nat}
    (h : Ledger l a b slots (.idle :: toks)) : Ledger l a b slots toks where
  window w := by
    have hw := h.window w
    refine { hw with bound := ?_, covered := ?_, tight := ?_, closes := ?_, owed := ?_ }
    · simpa [Token.good] using hw.bound
    · simpa [Token.holds] using hw.covered
    · simpa [Token.holds] using hw.tight
    · intro hc hwiped
      simpa using hw.closes hc hwiped
    · intro ho
      simpa using hw.owed ho
  token u hu := h.token u (List.mem_cons_of_mem _ hu)

/-- A call that hands out its slot, or none. -/
theorem Ledger.hand {a : Account} {b : Books} {t : Token} {out : Outcome}
    (h : Ledger l a b s.slots (t :: toks)) (ht : Settled out t) :
    Ledger l a b (s.hand out).slots toks := by
  have hplain : t = .idle → Ledger l a b s.slots toks := by
    rintro rfl
    exact h.drop
  cases out with
  | recorded n => exact hplain ht
  | done => exact hplain ht
  | reserved r =>
    cases r with
    | locked => exact hplain ht
    | full => exact hplain ht
    | counted slot =>
      cases slot with
      | none => exact hplain ht
      | some w =>
        obtain rfl : t = .holding w true := ht
        refine (h.moveSlot (tokenLedger_idle (b := b)) ?_ ?_ nofun nofun).drop
        · intro v
          by_cases hv : v = w
          · subst hv
            simp [State.hand, Token.holds]
          · simp [State.hand, hv, Ne.symm hv, Token.holds]
        · intro v
          by_cases hv : v = w
          · subst hv
            simp [State.hand, Token.good]
          · simp [State.hand, hv, Ne.symm hv, Token.good]

@[simp] theorem hand_account (out : Outcome) : (s.hand out).account = s.account := by
  unfold State.hand; split <;> rfl

@[simp] theorem hand_books (out : Outcome) : (s.hand out).books = s.books := by
  unfold State.hand; split <;> rfl

@[simp] theorem hand_threads (out : Outcome) : (s.hand out).threads = s.threads := by
  unfold State.hand; split <;> rfl

theorem Inv.finish (h : Inv l s toks) {i : Nat} (hstep : step l (.finish i) s = some s') :
    ∃ toks', Inv l s' toks' := by
  simp only [step] at hstep
  split at hstep
  · rename_i shut out hi
    obtain rfl := Option.some.inj hstep
    obtain ⟨before, t, after, rfl, hknown, -, herase⟩ := forall₂_at h.known hi
    have hledger := Ledger.hand (s := { s with threads := s.threads.eraseIdx i })
      (h.ledger.perm List.perm_middle) hknown
    refine ⟨before ++ after, ?_, ?_, ?_⟩
    · rw [hand_threads]
      exact herase
    · rw [hand_account, hand_books]
      exact hledger
    · intro th hth
      rw [hand_account]
      rw [hand_threads] at hth
      exact h.barred th (List.mem_of_mem_eraseIdx hth)
  · cases hstep

private theorem run_locked {o : CacheOp} {clock : Id} {a : Account} (ho : o.lifts = false)
    (h : a.locked = true) : (o.run clock a).2.locked = true := by
  cases o with
  | deleteLock => cases ho
  | addWindow id =>
    by_cases hw : a.window.isSome = true <;> simp [CacheOp.run, hw, h]
  | setLock => rfl
  | _ => exact h

theorem ShutOut.op {o : CacheOp} {next : o.Answer → CacheProg Outcome} {clock : Id} {a : Account}
    (h : ShutOut (.op o next)) (hlocked : a.locked = true) : ShutOut (next (o.run clock a).1) := by
  rcases h with hall | ⟨next', heq, htrue⟩
  · exact .inl (hall _)
  · cases heq
    refine .inl ?_
    change (next' a.locked).All _
    rw [hlocked]
    exact htrue

theorem Inv.step (h : Inv l s toks) {i : Nat} {clock : Id} (hok : Allowed l (.step i clock) s)
    (hstep : step l (.step i clock) s = some s') : ∃ toks', Inv l s' toks' := by
  simp only [AccountLockout.step] at hstep
  split at hstep
  · rename_i shut o next hi
    obtain rfl := Option.some.inj hstep
    obtain ⟨before, t, after, rfl, hknown, hset, -⟩ := forall₂_at h.known hi
    obtain ⟨t', hmove, hnext⟩ := hknown (o.run clock s.account).1
    have hsound : Sound l s o := by simpa only [Allowed, hi] using hok
    have hledger := (h.ledger.perm List.perm_middle).op hsound rfl hmove
    have hset' := hset t' ⟨shut, next (o.run clock s.account).1⟩ hnext
    refine ⟨before ++ t' :: after, ?_, hledger.perm List.perm_middle.symm, ?_⟩
    · change List.Forall₂ (Known l) _ (relieve o _)
      unfold relieve
      split_ifs
      · exact List.forall₂_map_right_iff.mpr hset'
      · exact hset'
    · intro th hth hshut
      change th ∈ relieve o _ at hth
      unfold relieve at hth
      split_ifs at hth with hlifts
      · obtain ⟨u, -, rfl⟩ := List.mem_map.mp hth
        cases hshut
      · rcases List.mem_or_eq_of_mem_set hth with hmem | rfl
        · have hbar := h.barred th hmem hshut
          exact ⟨run_locked (by simpa using hlifts) hbar.1, hbar.2⟩
        · have hbar := h.barred _ (List.mem_of_getElem? hi) hshut
          exact ⟨run_locked (by simpa using hlifts) hbar.1, hbar.2.op hbar.1⟩
  · cases hstep

private theorem inv_fresh : Inv l fresh [] where
  known := .nil
  ledger := by
    constructor
    · intro w
      constructor <;> simp [fresh, good, held, Books.reported, Account.attemptsOf,
        Account.failuresOf]
    · intro _ h
      cases h
  barred _ h := by cases h

theorem Inv.next (h : Inv l s toks) {e : Event} (hok : Allowed l e s)
    (hstep : AccountLockout.step l e s = some s') : ∃ toks', Inv l s' toks' := by
  cases e with
  | call c => exact h.call hstep
  | step i clock => exact h.step hok hstep
  | finish i => exact h.finish hstep

theorem Inv.bounded (h : Inv l s toks) : Bounded l s where
  slots w := by
    have hbound := (h.ledger.window w).bound
    omega
  counter hnone w hcur := by
    have hknown := h.known
    rw [hnone] at hknown
    cases hknown
    have hw := h.ledger.window w
    have hwiped : s.books.wiped w = false := by
      by_contra hwiped
      cases hw.closes hcur (by simpa using hwiped)
    have hcov := hw.covered hwiped
    have htight := hw.tight hcur hwiped
    simp only [held, List.map_nil, List.sum_nil, Account.attemptsOf] at hcov htight
    omega
  locks hnone w ho := by
    have hknown := h.known
    rw [hnone] at hknown
    cases hknown
    rcases (h.ledger.window w).owed ho with hlocked | hmem
    · exact hlocked
    · cases hmem
  shut th hth hshut slot hret := by
    obtain ⟨-, hall | ⟨next, heq, -⟩⟩ := h.barred th hth hshut
    · rw [hret] at hall
      exact hall slot rfl
    · rw [hret] at heq
      cases heq

/-- Where every operation is sound, the attempts on an account stay bounded. -/
theorem attempts_bounded (l : Lockout) (s : State) (h : Reach (step l) (Allowed l) fresh s) :
    Bounded l s := by
  have hinv : ∃ toks, Inv l s toks := by
    apply h.invariant ⟨[], inv_fresh⟩
    intro e x y hok hstep hx
    obtain ⟨toks, hx⟩ := hx
    exact hx.next hok hstep
  obtain ⟨toks, hinv⟩ := hinv
  exact hinv.bounded

/-- One attempt reserved in a window opened at 7. -/
private def oneAttempt : List Event :=
  .call .reserve :: List.replicate 6 (.step 0 7) ++ [.finish 0]

/-- The reserved attempt holds the window's one slot. -/
theorem oneAttempt_bounded :
    ∃ s, Reach (step .new) (Allowed .new) fresh s ∧ s.slots 7 = 1 ∧ Bounded .new s := by
  have hrun : (steps (guarded (step .new) (Allowed .new)) oneAttempt fresh).map (·.slots 7) =
      some 1 := by rfl
  obtain ⟨s, hs, hslots⟩ := Option.map_eq_some_iff.mp hrun
  have hreach : Reach (step .new) (Allowed .new) fresh s := .of_guarded hs
  exact ⟨s, hreach, hslots, attempts_bounded .new s hreach⟩

/-- An account that locks at the first failure. -/
private def strict : Lockout := Lockout.new.withMaxAttempts 1 (by decide)

/-- A `clear` and a second `reserve` have both read the window of a reserved attempt; the counter is
deleted before the second attempt is counted. -/
private def pastClear : List Event :=
  oneAttempt ++ [.call .clear, .step 0 8, .call .reserve, .step 1 8, .step 1 8, .step 0 8, .step 1 8,
    .step 1 8, .finish 1]

/-- Two slots of one window, where one is the most. -/
theorem reserve_past_clear :
    ∃ s, steps (step strict) pastClear fresh = some s ∧ ¬ Bounded strict s := by
  have hrun : (steps (step strict) pastClear fresh).map (·.slots 7) = some 2 := by rfl
  obtain ⟨s, hs, hslots⟩ := Option.map_eq_some_iff.mp hrun
  refine ⟨s, hs, fun hb => ?_⟩
  have hle := hb.slots 7
  rw [hslots] at hle
  exact absurd hle (by decide)

end Rustango.AccountLockout
