import Mathlib.Tactic.SplitIfs
import Rustango.AccountLockout.Ledger

/-!
# Every operation keeps the ledger
-/

namespace Rustango.AccountLockout

open Function Rustango.Threads

variable {l : Lockout} {a : Account} {b : Books} {slots : Id → Nat} {toks : List Token}
  {id : Id} {clock : Id}

private theorem attemptsOf_incr (why : Why) (w : Id) :
    ((CacheOp.incrAttempts id why).run clock a).2.attemptsOf w =
      if w = id then a.attemptsOf id + why.by_ else a.attemptsOf w := by
  by_cases hw : w = id
  · subst hw
    simp [CacheOp.run, Account.attemptsOf]
  · simp [CacheOp.run, Account.attemptsOf, hw]

private theorem failuresOf_incr (counted : Bool) (w : Id) :
    ((CacheOp.incrFailures id counted).run clock a).2.failuresOf w =
      if w = id then a.failuresOf id + 1 else a.failuresOf w := by
  by_cases hw : w = id
  · subst hw
    simp [CacheOp.run, Account.failuresOf]
  · simp [CacheOp.run, Account.failuresOf, hw]

section Demand
variable (l b)

@[simp] theorem demand_recorded : (b.demand l id).recorded = b.recorded := by
  unfold Books.demand; split_ifs <;> rfl

@[simp] theorem demand_failed : (b.demand l id).failed = b.failed := by
  unfold Books.demand; split_ifs <;> rfl

@[simp] theorem demand_opened : (b.demand l id).opened = b.opened := by
  unfold Books.demand; split_ifs <;> rfl

@[simp] theorem demand_wiped : (b.demand l id).wiped = b.wiped := by
  unfold Books.demand; split_ifs <;> rfl

@[simp] theorem demand_reported (w : Id) : (b.demand l id).reported w = b.reported w := by
  simp [Books.reported]

private theorem demand_owed_of_ne {w : Id} (hw : w ≠ id) : (b.demand l id).owed w = b.owed w := by
  unfold Books.demand
  split_ifs
  · exact update_of_ne hw _ _
  · rfl

private theorem owed_of_demand (h : (b.demand l id).owed id = true) :
    b.owed id = true ∨ b.wiped id = false ∧ l.maxAttempts ≤ b.reported id := by
  unfold Books.demand at h
  split_ifs at h with hd
  · exact .inr hd
  · exact .inl h

end Demand

/-- One more failure of `record_failure` in a window. -/
def Books.addRecorded (b : Books) (id : Id) : Books :=
  { b with recorded := update b.recorded id (b.recorded id + 1) }

/-- One more failure of `reserved_failed` in a window. -/
def Books.addFailed (b : Books) (id : Id) : Books :=
  { b with failed := update b.failed id (b.failed id + 1) }

private theorem addRecorded_reported (w : Id) :
    (b.addRecorded id).reported w = if w = id then b.reported id + 1 else b.reported w := by
  by_cases hw : w = id
  · subst hw
    simp only [Books.reported, Books.addRecorded, update_self, if_pos]
    omega
  · simp [Books.reported, Books.addRecorded, hw]

private theorem addFailed_reported (w : Id) :
    (b.addFailed id).reported w = if w = id then b.reported id + 1 else b.reported w := by
  by_cases hw : w = id
  · subst hw
    simp only [Books.reported, Books.addFailed, update_self, if_pos]
    omega
  · simp [Books.reported, Books.addFailed, hw]

private theorem addFailed_failed (w : Id) :
    (b.addFailed id).failed w = if w = id then b.failed id + 1 else b.failed w := by
  by_cases hw : w = id
  · subst hw
    simp [Books.addFailed]
  · simp [Books.addFailed, hw]

private theorem local_incr (why : Why) {t t' : Token} (hbusy : t.window? = some id) (hc : t ≠ .closing id)
    (hholds : ∀ w, w ≠ id → t'.holds w = t.holds w) (hgood : ∀ w, w ≠ id → t'.good w = t.good w) :
    Local id a ((CacheOp.incrAttempts id why).run clock a).2 b b t t' where
  window := rfl
  locked := rfl
  attempts w hw := by rw [attemptsOf_incr, if_neg hw]
  failures _ _ := rfl
  reported _ _ := rfl
  failed _ _ := rfl
  wiped _ _ := rfl
  owed _ _ := rfl
  holds := hholds
  good := hgood
  opened := rfl
  wipes := fun hw => hw
  closing := by
    rintro w rfl
    obtain rfl : w = id := Option.some.inj hbusy
    exact absurd rfl hc
  owing := by
    rintro rfl
    cases hbusy

theorem tokenLedger_idle : TokenLedger b .idle where
  known _ hw := nomatch hw
  fixing _ hw := nomatch hw
  closing _ hw := nomatch hw

private theorem tokenLedger_owing : TokenLedger b .owing where
  known _ hw := nomatch hw
  fixing _ hw := nomatch hw
  closing _ hw := nomatch hw

private theorem tokenLedger_knows (h : b.opened id = true) : TokenLedger b (.knows id) where
  known _ hw := Option.some.inj hw ▸ h
  fixing _ hw := nomatch hw
  closing _ hw := nomatch hw

theorem tokenLedger_holding {g : Bool} (h : b.opened id = true) : TokenLedger b (.holding id g) where
  known _ hw := Option.some.inj hw ▸ h
  fixing _ hw := nomatch hw
  closing _ hw := nomatch hw

private theorem tokenLedger_fixing (h : b.opened id = true) (hw : b.wiped id = true) :
    TokenLedger b (.fixing id) where
  known _ hw := Option.some.inj hw ▸ h
  fixing w heq := by
    cases heq
    exact hw
  closing _ hw := nomatch hw

private theorem tokenLedger_closing (h : b.opened id = true) (hw : b.wiped id = true) :
    TokenLedger b (.closing id) where
  known _ hw := Option.some.inj hw ▸ h
  fixing _ hw := nomatch hw
  closing w heq := by
    cases heq
    exact hw

/-- The ledger of a window whose numbers change by a call that is neither clearing nor locking. -/
theorem WindowLedger.recount {a' : Account} {b' : Books} {t t' : Token}
    (h : WindowLedger l a b slots (t :: toks) id) (hopened : b.opened id = true)
    (hbusy : t.window? = some id) (hc : t ≠ .closing id)
    (hwindow : a'.window = a.window) (hlocked : a'.locked = a.locked)
    (hopens : b'.opened id = b.opened id) (hwiped : b'.wiped id = b.wiped id)
    (bound : slots id + t'.good id + good toks id ≤ l.maxAttempts)
    (covered : b.wiped id = false →
      b'.reported id + slots id + t'.holds id + held toks id ≤ a'.attemptsOf id)
    (tight : a.window = some id → b.wiped id = false →
      a'.attemptsOf id ≤ b'.reported id + slots id + t'.holds id + held toks id)
    (failures : b.wiped id = false → a'.failuresOf id = b'.failed id)
    (owed : b'.owed id = true → b.owed id = true ∨ t' = .owing) :
    WindowLedger l a' b' slots (t' :: toks) id where
  bound := by
    rw [good_cons]
    omega
  covered hw := by
    rw [hwiped] at hw
    have hcov := covered hw
    rw [held_cons]
    omega
  tight hcur hw := by
    rw [hwindow] at hcur
    rw [hwiped] at hw
    have htight := tight hcur hw
    rw [held_cons]
    omega
  failures hw := failures (hwiped ▸ hw)
  unopened ho := by
    rw [hopens, hopened] at ho
    cases ho
  current hcur := by
    rw [hopens]
    exact hopened
  closes hcur hw := by
    rw [hwindow] at hcur
    rw [hwiped] at hw
    exact mem_retoken (fun heq => absurd heq hc) (h.closes hcur hw)
  owed ho := by
    have hnot : t ≠ .owing := by
      rintro rfl
      cases hbusy
    rw [hlocked]
    rcases owed ho with hold | rfl
    · exact (h.owed hold).imp_right (mem_retoken fun heq => absurd heq hnot)
    · exact .inr List.mem_cons_self

/-- `reserve` counts its attempt: a good one is still within the threshold. -/
theorem Ledger.reserve (h : Ledger l a b slots (.knows id :: toks)) (hw : b.wiped id = false) :
    Ledger l ((CacheOp.incrAttempts id .reserve).run clock a).2 b slots
      (.holding id (decide (a.attemptsOf id + 1 ≤ l.maxAttempts)) :: toks) := by
  have hopened := h.opened (w := id) rfl
  have hid := h.window id
  have hcov := hid.covered hw
  have hle := good_le_held toks id
  have hbound := hid.bound
  have hnew : ((CacheOp.incrAttempts id .reserve).run clock a).2.attemptsOf id =
      a.attemptsOf id + 1 := by rw [attemptsOf_incr, if_pos rfl]; rfl
  simp only [held_cons, good_cons, Token.holds, Token.good] at hcov hbound
  refine h.local_ id (local_incr _ rfl (by simp) ?_ ?_)
    (hid.recount hopened rfl (by simp) rfl rfl rfl rfl ?_ ?_ ?_ hid.failures .inl)
    (tokenLedger_holding hopened)
  · intro w hne
    simp [Token.holds, hne.symm]
  · intro w hne
    by_cases hn : a.attemptsOf id + 1 ≤ l.maxAttempts <;> simp [Token.good, hn, hne.symm]
  · by_cases hn : a.attemptsOf id + 1 ≤ l.maxAttempts
    · simp only [hn, decide_true, Token.good, if_pos]
      omega
    · simp only [hn, decide_false, Token.good]
      omega
  · intro _
    rw [hnew]
    simp only [Token.holds, if_pos]
    omega
  · intro hcur _
    have htight := hid.tight hcur hw
    rw [hnew]
    simp only [held_cons, Token.holds, if_pos] at htight ⊢
    omega

/-- An attempt is given back; below 0 only in a window that was cleared. -/
theorem Ledger.giveBack {g : Bool} (h : Ledger l a b slots (.holding id g :: toks)) :
    Ledger l ((CacheOp.incrAttempts id .giveBack).run clock a).2 b slots
      ((if a.attemptsOf id - 1 < 0 then .fixing id else .idle) :: toks) := by
  have hopened := h.opened (w := id) rfl
  have hid := h.window id
  have hbound := hid.bound
  have hnew : ((CacheOp.incrAttempts id .giveBack).run clock a).2.attemptsOf id =
      a.attemptsOf id - 1 := by rw [attemptsOf_incr, if_pos rfl]; rfl
  have hnone : ∀ (t' : Token), (∀ w, t'.holds w = 0) → (∀ w, t'.good w = 0) → TokenLedger b t' →
      Ledger l ((CacheOp.incrAttempts id .giveBack).run clock a).2 b slots (t' :: toks) := by
    intro t' hholds hgood ht'
    refine h.local_ id (local_incr _ rfl (by simp) ?_ ?_)
      (hid.recount hopened rfl (by simp) rfl rfl rfl rfl ?_ ?_ ?_ hid.failures .inl) ht'
    · intro w hne
      rw [hholds]
      simp [Token.holds, hne.symm]
    · intro w hne
      rw [hgood]
      cases g <;> simp [Token.good, hne.symm]
    · rw [hgood]
      rw [good_cons] at hbound
      omega
    · intro hw
      have hcov := hid.covered hw
      rw [hnew, hholds]
      simp only [held_cons, Token.holds, if_pos] at hcov
      omega
    · intro hcur hw
      have htight := hid.tight hcur hw
      rw [hnew, hholds]
      simp only [held_cons, Token.holds, if_pos] at htight
      omega
  by_cases hn : a.attemptsOf id - 1 < 0
  · rw [if_pos hn]
    refine hnone _ (fun _ => rfl) (fun _ => rfl) (tokenLedger_fixing hopened ?_)
    by_contra hw
    have hpos := h.attempts_pos rfl (by simpa using hw)
    omega
  · rw [if_neg hn]
    exact hnone _ (fun _ => rfl) (fun _ => rfl) tokenLedger_idle

theorem Ledger.undo (h : Ledger l a b slots (.fixing id :: toks)) :
    Ledger l ((CacheOp.incrAttempts id .undo).run clock a).2 b slots (.idle :: toks) := by
  have hopened := h.opened (w := id) rfl
  have hwiped := (h.token _ List.mem_cons_self).fixing id rfl
  have hid := h.window id
  have hbound := hid.bound
  have hnot : b.wiped id ≠ false := by simp [hwiped]
  refine h.local_ id (local_incr _ rfl (by simp) (fun _ _ => rfl) (fun _ _ => rfl))
    (hid.recount hopened rfl (by simp) rfl rfl rfl rfl ?_ (fun hw => absurd hw hnot)
      (fun _ hw => absurd hw hnot) hid.failures .inl) tokenLedger_idle
  simp only [good_cons, Token.good] at hbound ⊢
  omega

/-- `record_failure` counts a failure: at the threshold the call owes the lock. -/
theorem Ledger.failure {t' : Token} (h : Ledger l a b slots (.knows id :: toks))
    (ht : t' = .owing ∨ t' = .idle ∧ a.attemptsOf id + 1 < l.maxAttempts) :
    Ledger l ((CacheOp.incrAttempts id .failure).run clock a).2 ((b.addRecorded id).demand l id)
      slots (t' :: toks) := by
  have hopened := h.opened (w := id) rfl
  have hid := h.window id
  have hbound := hid.bound
  have hnew : ((CacheOp.incrAttempts id .failure).run clock a).2.attemptsOf id =
      a.attemptsOf id + 1 := by rw [attemptsOf_incr, if_pos rfl]; rfl
  have hreported : ((b.addRecorded id).demand l id).reported id = b.reported id + 1 := by
    rw [demand_reported, addRecorded_reported, if_pos rfl]
  have hholds : ∀ w, t'.holds w = 0 := by
    rcases ht with rfl | ⟨rfl, -⟩ <;> exact fun _ => rfl
  have hgood : ∀ w, t'.good w = 0 := by
    rcases ht with rfl | ⟨rfl, -⟩ <;> exact fun _ => rfl
  have htoken : TokenLedger ((b.addRecorded id).demand l id) t' := by
    rcases ht with rfl | ⟨rfl, -⟩
    · exact tokenLedger_owing
    · exact tokenLedger_idle
  have hcover : b.wiped id = false → (b.reported id + 1 : Int) ≤ a.attemptsOf id + 1 := by
    intro hw
    have hcov := hid.covered hw
    omega
  refine h.local_ id ?_
    (hid.recount hopened rfl (by simp) rfl rfl (by rw [demand_opened]; rfl)
      (by rw [demand_wiped]; rfl) ?_ ?_ ?_ ?_ ?_) htoken
  · refine { (local_incr .failure rfl (by simp) (fun w _ => hholds w) (fun w _ => hgood w) :
        Local id a ((CacheOp.incrAttempts id .failure).run clock a).2 b b (.knows id) t') with
      reported := ?_, failed := ?_, wiped := ?_, owed := ?_, opened := ?_, wipes := ?_ }
    · intro w hne
      rw [demand_reported, addRecorded_reported, if_neg hne]
    · intro w _
      rw [demand_failed]
      rfl
    · intro w _
      rw [demand_wiped]
      rfl
    · intro w hne
      rw [demand_owed_of_ne l _ hne]
      rfl
    · rw [demand_opened]
      rfl
    · rw [demand_wiped]
      exact fun hw => hw
  · rw [hgood]
    rw [good_cons] at hbound
    omega
  · intro hw
    have hcov := hid.covered hw
    rw [hnew, hreported, hholds]
    simp only [held_cons, Token.holds] at hcov
    omega
  · intro hcur hw
    have htight := hid.tight hcur hw
    rw [hnew, hreported, hholds]
    simp only [held_cons, Token.holds] at htight
    omega
  · rw [demand_failed]
    exact hid.failures
  · intro ho
    rcases owed_of_demand l _ ho with hold | ⟨hw, hdue⟩
    · exact .inl hold
    · right
      rcases ht with rfl | ⟨-, hlow⟩
      · rfl
      · rw [addRecorded_reported, if_pos rfl] at hdue
        have hcov := hcover hw
        omega

/-- `reserved_failed` counts a failure of an attempt it holds, or in a window that was cleared. -/
theorem Ledger.fail {t t' : Token} (h : Ledger l a b slots (t :: toks))
    (hbusy : t.window? = some id) (hc : t ≠ .closing id) (hothers : ∀ w, w ≠ id → t.holds w = 0)
    (ht : b.wiped id = false → t.holds id = 1 ∧
      (l.maxAttempts ≤ b.reported id + 1 → l.maxAttempts ≤ b.failed id + 1))
    (ht' : t' = if (l.maxAttempts : Int) ≤ a.failuresOf id + 1 then .owing else .idle)
    (counted : Bool) :
    Ledger l ((CacheOp.incrFailures id counted).run clock a).2 ((b.addFailed id).demand l id) slots
      (t' :: toks) := by
  have hopened := h.opened hbusy
  have hid := h.window id
  have hbound := hid.bound
  have hempty : (∀ w, t'.holds w = 0) ∧ (∀ w, t'.good w = 0) ∧
      TokenLedger ((b.addFailed id).demand l id) t' := by
    rw [ht']
    split_ifs
    · exact ⟨fun _ => rfl, fun _ => rfl, tokenLedger_owing⟩
    · exact ⟨fun _ => rfl, fun _ => rfl, tokenLedger_idle⟩
  have hgoods : ∀ w, w ≠ id → t.good w = 0 := fun w hne =>
    Nat.le_zero.mp (hothers w hne ▸ t.good_le_holds w)
  have hnew : ((CacheOp.incrFailures id counted).run clock a).2.failuresOf id =
      a.failuresOf id + 1 := by rw [failuresOf_incr, if_pos rfl]
  have hreported : ((b.addFailed id).demand l id).reported id = b.reported id + 1 := by
    rw [demand_reported, addFailed_reported, if_pos rfl]
  obtain ⟨hholds, hgood, htoken⟩ := hempty
  refine h.local_ id ?_
    (hid.recount hopened hbusy hc rfl rfl (by rw [demand_opened]; rfl)
      (by rw [demand_wiped]; rfl) ?_ ?_ ?_ ?_ ?_) htoken
  · constructor
    · rfl
    · rfl
    · exact fun _ _ => rfl
    · intro w hne
      rw [failuresOf_incr, if_neg hne]
    · intro w hne
      rw [demand_reported, addFailed_reported, if_neg hne]
    · intro w hne
      rw [demand_failed, addFailed_failed, if_neg hne]
    · intro w _
      rw [demand_wiped]
      rfl
    · intro w hne
      rw [demand_owed_of_ne l _ hne]
      rfl
    · intro w hne
      rw [hholds, hothers w hne]
    · intro w hne
      rw [hgood, hgoods w hne]
    · rw [demand_opened]
      rfl
    · rw [demand_wiped]
      exact fun hw => hw
    · rintro w rfl
      obtain rfl : w = id := Option.some.inj hbusy
      exact absurd rfl hc
    · rintro rfl
      cases hbusy
  · rw [hgood]
    rw [good_cons] at hbound
    omega
  · intro hw
    have hcov := hid.covered hw
    have hone := (ht hw).1
    change _ ≤ a.attemptsOf id
    rw [held_cons] at hcov
    rw [hreported, hholds]
    omega
  · intro hcur hw
    have htight := hid.tight hcur hw
    have hone := (ht hw).1
    change a.attemptsOf id ≤ _
    rw [held_cons] at htight
    rw [hreported, hholds]
    omega
  · intro hw
    have hfailures := hid.failures hw
    rw [hnew, demand_failed, addFailed_failed, if_pos rfl]
    omega
  · intro ho
    rcases owed_of_demand l _ ho with hold | ⟨hw, hdue⟩
    · exact .inl hold
    · right
      rw [addFailed_reported, if_pos rfl] at hdue
      have hfailures := hid.failures hw
      have hown := (ht hw).2 hdue
      rw [ht', if_pos (by omega)]

private theorem attemptsOf_delete (w : Id) (hw : w ≠ id) :
    ((CacheOp.deleteAttempts id).run clock a).2.attemptsOf w = a.attemptsOf w := by
  simp [CacheOp.run, Account.attemptsOf, hw]

private theorem failuresOf_delete (w : Id) (hw : w ≠ id) :
    ((CacheOp.deleteFailures id).run clock a).2.failuresOf w = a.failuresOf w := by
  simp [CacheOp.run, Account.failuresOf, hw]

/-- The window as cleared. -/
def Books.wipe (b : Books) (id : Id) : Books := { b with wiped := update b.wiped id true }

private theorem wipe_wiped : (b.wipe id).wiped id = true := update_self _ _ _

/-- A call deletes the counter of a window, with the slot it holds there. -/
theorem Ledger.wipe {t : Token} (h : Ledger l a b slots (t :: toks)) (hbusy : t.window? = some id)
    (hothers : ∀ w, w ≠ id → t.holds w = 0) (hc : ∀ w, t ≠ .closing w) (hno : t ≠ .owing) :
    Ledger l ((CacheOp.deleteAttempts id).run clock a).2 (b.wipe id) slots
      (.closing id :: toks) := by
  have hopened := h.opened hbusy
  have hid := h.window id
  have hbound := hid.bound
  have hgoods : ∀ w, w ≠ id → t.good w = 0 := fun w hne =>
    Nat.le_zero.mp (hothers w hne ▸ t.good_le_holds w)
  have hnot : (b.wipe id).wiped id ≠ false := by simp [wipe_wiped]
  refine h.local_ id ?_ ?_ (tokenLedger_closing hopened wipe_wiped)
  · constructor
    · rfl
    · rfl
    · exact attemptsOf_delete
    · exact fun _ _ => rfl
    · exact fun _ _ => rfl
    · exact fun _ _ => rfl
    · exact fun w hne => update_of_ne hne _ _
    · exact fun _ _ => rfl
    · exact fun w hne => (hothers w hne).symm
    · exact fun w hne => (hgoods w hne).symm
    · rfl
    · exact fun _ => wipe_wiped
    · exact fun w heq => absurd heq (hc w)
    · exact fun heq => absurd heq hno
  · constructor
    · rw [good_cons] at hbound ⊢
      simp only [Token.good]
      omega
    · exact fun hw => absurd hw hnot
    · exact fun _ hw => absurd hw hnot
    · exact fun hw => absurd hw hnot
    · exact fun ho => absurd (hopened.symm.trans ho) (by decide)
    · exact hid.current
    · exact fun _ _ => List.mem_cons_self
    · exact fun ho => (hid.owed ho).imp_right (mem_retoken fun heq => absurd heq hno)

theorem Ledger.wipeFailures (h : Ledger l a b slots (.closing id :: toks)) :
    Ledger l ((CacheOp.deleteFailures id).run clock a).2 b slots (.closing id :: toks) := by
  have hopened := h.opened (w := id) rfl
  have hwiped := (h.token _ List.mem_cons_self).closing id rfl
  have hid := h.window id
  have hnot : b.wiped id ≠ false := by simp [hwiped]
  refine h.local_ id ?_ ?_ (tokenLedger_closing hopened hwiped)
  · constructor
    case failures => exact failuresOf_delete
    case wipes => exact fun hw => hw
    case closing => exact fun _ heq => heq
    case owing => exact fun heq => heq
    all_goals first | rfl | exact fun _ _ => rfl
  · exact { hid with failures := fun hw => absurd hw hnot }

/-- The window key is dropped, whichever window it named by then. -/
theorem Ledger.dropWindow {t : Token} (h : Ledger l a b slots (t :: toks))
    (hholds : ∀ w, t.holds w = 0) (hno : t ≠ .owing) :
    Ledger l (CacheOp.deleteWindow.run clock a).2 b slots (.idle :: toks) where
  window w := by
    have hw := h.window w
    have hbound := hw.bound
    constructor
    · rw [good_cons] at hbound ⊢
      simp only [Token.good]
      omega
    · intro hwiped
      have hcov := hw.covered hwiped
      rw [held_cons, hholds w] at hcov
      rw [held_cons]
      exact hcov
    · intro hc
      cases hc
    · exact hw.failures
    · exact hw.unopened
    · intro hc
      cases hc
    · intro hc
      cases hc
    · exact fun ho => (hw.owed ho).imp_right (mem_retoken fun heq => absurd heq hno)
  token u hu := by
    rcases List.mem_cons.mp hu with rfl | hmem
    · exact tokenLedger_idle
    · exact h.token u (List.mem_cons_of_mem _ hmem)

/-- A window as opened. -/
def Books.open_ (b : Books) (id : Id) : Books := { b with opened := update b.opened id true }

/-- A window is opened under an id no window had: its counters are empty. -/
theorem Ledger.open_ (h : Ledger l a b slots (.idle :: toks)) (hnew : b.opened id = false) :
    Ledger l { a with window := some id } (b.open_ id) slots (.knows id :: toks) := by
  have hopens : ∀ w, b.opened w = true → (b.open_ id).opened w = true := by
    intro w hw
    by_cases hne : w = id
    · rw [hne]
      exact update_self _ _ _
    · exact (update_of_ne hne _ _).trans hw
  have hself : (b.open_ id).opened id = true := update_self _ _ _
  constructor
  · intro w
    have hw := h.window w
    constructor
    · exact hw.bound
    · exact hw.covered
    · intro hc hwiped
      obtain rfl : id = w := Option.some.inj hc
      have hzero : a.attemptsOf id = 0 := (hw.unopened hnew).1
      change a.attemptsOf id ≤ _
      omega
    · exact hw.failures
    · intro ho
      apply hw.unopened
      by_contra hopen
      rw [hopens w (by simpa using hopen)] at ho
      cases ho
    · intro hc
      obtain rfl : id = w := Option.some.inj hc
      exact hself
    · intro hc hwiped
      obtain rfl : id = w := Option.some.inj hc
      exact absurd ((hw.unopened hnew).2.symm.trans hwiped) (by decide)
    · intro ho
      refine (hw.owed ho).imp_right ?_
      exact mem_retoken nofun
  · intro u hu
    rcases List.mem_cons.mp hu with rfl | hmem
    · exact tokenLedger_knows hself
    · have hold := h.token u (List.mem_cons_of_mem _ hmem)
      exact ⟨fun w hw => hopens w (hold.known w hw), hold.fixing, hold.closing⟩

theorem Ledger.setLock (h : Ledger l a b slots (.owing :: toks)) :
    Ledger l (CacheOp.setLock.run clock a).2 b slots (.idle :: toks) where
  window w := by
    have hw := h.window w
    have hcloses : ∀ v, .closing v ∈ .owing :: toks → .closing v ∈ .idle :: toks :=
      fun _ => mem_retoken nofun
    exact { hw with
      closes := fun hc hwiped => hcloses w (hw.closes hc hwiped)
      owed := fun _ => .inl rfl }
  token u hu := by
    rcases List.mem_cons.mp hu with rfl | hmem
    · exact tokenLedger_idle
    · exact h.token u (List.mem_cons_of_mem _ hmem)

theorem Ledger.deleteLock (h : Ledger l a b slots toks) :
    Ledger l (CacheOp.deleteLock.run clock a).2 { b with owed := fun _ => false } slots toks where
  window w := { h.window w with owed := fun ho => nomatch ho }
  token u hu := { h.token u hu with }

theorem Eases.drop {t t' : Token} (hholds : ∀ w, t'.holds w = 0)
    (hcurrent : ∀ w, a.window = some w → t.holds w = 0) (ht' : TokenLedger b t')
    (hc : ∀ w, t ≠ .closing w) (hno : t ≠ .owing) : Eases a b t t' where
  holds w := by
    rw [hholds]
    exact Nat.zero_le _
  good w := by
    have hle := t'.good_le_holds w
    rw [hholds w] at hle
    exact Nat.le_trans hle (Nat.zero_le _)
  current w hw := (hholds w).trans (hcurrent w hw).symm
  token := ht'
  closing w heq := absurd heq (hc w)
  owing heq := absurd heq hno

/-- Every operation that keeps to the protocol and is sound keeps the ledger. -/
theorem Ledger.op {s : State} {t t' : Token} {o : CacheOp} {ans : o.Answer}
    (h : Ledger l s.account s.books s.slots (t :: toks)) (hsound : Sound l s o)
    (hans : ans = (o.run clock s.account).1) (hmove : Moves l t o ans t') :
    Ledger l (o.run clock s.account).2 (s.books.note l s.account o) s.slots (t' :: toks) := by
  have hhead := h.token t List.mem_cons_self
  have hcurrent : ∀ w, s.account.window = some w → s.books.opened w = true :=
    fun w hw => (h.window w).current hw
  cases hmove with
  | existsLock => exact h
  | getFailures => exact h
  | now => exact h
  | glance => exact h
  | keep => exact h
  | setLock => exact h.setLock
  | deleteLock => exact h.deleteLock
  | learn w =>
    refine h.ease (.drop (fun _ => rfl) (fun _ _ => rfl) ?_ nofun nofun)
    exact tokenLedger_knows (hcurrent w hans.symm)
  | forget w g v hne =>
    refine h.ease (.drop (fun _ => rfl) ?_ (tokenLedger_knows (hcurrent v hans.symm)) nofun nofun)
    intro u hu
    obtain rfl : v = u := Option.some.inj (hans.trans hu)
    exact if_neg hne.symm
  | forgetAll w g =>
    refine h.ease (.drop (fun _ => rfl) ?_ tokenLedger_idle nofun nofun)
    intro u hu
    cases hans.trans hu
  | opened w =>
    have hnone : s.account.window = none := by
      cases hw : s.account.window with
      | none => rfl
      | some v => simp [CacheOp.run, hw] at hans
    have hopen := h.open_ (hsound hnone)
    simpa [CacheOp.run, Books.note, Books.open_, hnone] using hopen
  | lost w =>
    obtain ⟨v, hsome⟩ : ∃ v, s.account.window = some v := by
      cases hw : s.account.window with
      | none => simp [CacheOp.run, hw] at hans
      | some v => exact ⟨v, rfl⟩
    simpa [CacheOp.run, Books.note, hsome] using h
  | reserve w n =>
    subst hans
    exact h.reserve hsound
  | failure w n _ hlast =>
    subst hans
    apply h.failure
    exact hlast.imp_right fun hlow => ⟨hlow.1, hlow.2.2⟩
  | giveBack w g n =>
    subst hans
    exact h.giveBack
  | undo w n => exact h.undo
  | failed w g n =>
    subst hans
    refine h.fail rfl nofun (fun v hne => if_neg hne.symm) ?_ rfl true
    exact fun hw => ⟨if_pos rfl, (hsound hw).2⟩
  | stray w n =>
    subst hans
    refine h.fail rfl nofun (fun _ _ => rfl) ?_ rfl false
    exact fun hw => nomatch (hsound hw).1
  | wipe w => exact h.wipe rfl (fun _ _ => rfl) nofun nofun
  | wipeHeld w g => exact h.wipe rfl (fun v hne => if_neg hne.symm) nofun nofun
  | wipeFailures w => exact h.wipeFailures
  | closed w => exact h.dropWindow (fun _ => rfl) nofun
  | dropWindow => exact h.dropWindow (fun _ => rfl) nofun

end Rustango.AccountLockout
