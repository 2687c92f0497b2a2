import Rustango.AccountLockout.Protocol

/-!
# What holds between two operations

The invariant of an account, its books, the slots nobody reported and the tokens of the calls in
progress, and that every operation of the protocol keeps it.
-/

namespace Rustango.AccountLockout

open Function Rustango.Threads

/-- The slots of a window a token holds. -/
def Token.holds : Token → Id → Nat
  | .holding v _, w => if v = w then 1 else 0
  | _, _ => 0

/-- The slots of a window a token may still hand out. -/
def Token.good : Token → Id → Nat
  | .holding v true, w => if v = w then 1 else 0
  | _, _ => 0

/-- The window a token names. -/
def Token.window? : Token → Option Id
  | .knows w | .holding w _ | .fixing w | .closing w => some w
  | .idle | .owing => none

theorem Token.good_le_holds (t : Token) (w : Id) : t.good w ≤ t.holds w := by
  cases t with
  | holding v good => cases good <;> simp [Token.good, Token.holds]
  | _ => simp [Token.good]

def held (toks : List Token) (w : Id) : Nat := (toks.map (·.holds w)).sum
def good (toks : List Token) (w : Id) : Nat := (toks.map (·.good w)).sum

@[simp] theorem held_cons (t : Token) (toks : List Token) (w : Id) :
    held (t :: toks) w = t.holds w + held toks w := by simp [held]

@[simp] theorem good_cons (t : Token) (toks : List Token) (w : Id) :
    good (t :: toks) w = t.good w + good toks w := by simp [good]

theorem good_le_held (toks : List Token) (w : Id) : good toks w ≤ held toks w := by
  induction toks with
  | nil => simp [good]
  | cons t toks ih =>
    have hhead := t.good_le_holds w
    rw [good_cons, held_cons]
    omega

def Account.attemptsOf (a : Account) (w : Id) : Int := (a.attempts w).getD 0
def Account.failuresOf (a : Account) (w : Id) : Int := (a.failures w).getD 0

/-- What holds of one window. -/
structure WindowLedger (l : Lockout) (a : Account) (b : Books) (slots : Id → Nat)
    (toks : List Token) (w : Id) : Prop where
  /-- Slots in use never exceed the threshold. -/
  bound : slots w + good toks w ≤ l.maxAttempts
  /-- Until it is deleted, the counter covers failures, slots and attempts in progress. -/
  covered : b.wiped w = false → b.reported w + slots w + held toks w ≤ a.attemptsOf w
  /-- In the current window it is no more than these. -/
  tight : a.window = some w → b.wiped w = false →
    a.attemptsOf w ≤ b.reported w + slots w + held toks w
  failures : b.wiped w = false → a.failuresOf w = b.failed w
  unopened : b.opened w = false → a.attemptsOf w = 0 ∧ b.wiped w = false
  current : a.window = some w → b.opened w = true
  /-- A current window whose counter was deleted is about to be dropped. -/
  closes : a.window = some w → b.wiped w = true → .closing w ∈ toks
  owed : b.owed w = true → a.locked = true ∨ .owing ∈ toks

/-- What a token may be. -/
structure TokenLedger (b : Books) (t : Token) : Prop where
  known : ∀ w, t.window? = some w → b.opened w = true
  fixing : ∀ w, t = .fixing w → b.wiped w = true
  closing : ∀ w, t = .closing w → b.wiped w = true

/-- What holds of an account and the calls on it. -/
structure Ledger (l : Lockout) (a : Account) (b : Books) (slots : Id → Nat)
    (toks : List Token) : Prop where
  window : ∀ w, WindowLedger l a b slots toks w
  token : ∀ t ∈ toks, TokenLedger b t

variable {l : Lockout} {a : Account} {b : Books} {slots : Id → Nat} {toks : List Token} {t t' : Token}

theorem Ledger.perm {toks' : List Token} (h : Ledger l a b slots toks) (hp : toks.Perm toks') :
    Ledger l a b slots toks' where
  window w := by
    have hheld : held toks' w = held toks w := (hp.map fun t : Token => t.holds w).sum_nat.symm
    have hgood : good toks' w = good toks w := (hp.map fun t : Token => t.good w).sum_nat.symm
    have hw := h.window w
    constructor
    · rw [hgood]; exact hw.bound
    · rw [hheld]; exact hw.covered
    · rw [hheld]; exact hw.tight
    · exact hw.failures
    · exact hw.unopened
    · exact hw.current
    · exact fun hc hwiped => hp.subset (hw.closes hc hwiped)
    · exact fun ho => (hw.owed ho).imp_right fun hmem => hp.subset hmem
  token t ht := h.token t (hp.symm.subset ht)

theorem Ledger.attempts_pos (h : Ledger l a b slots (t :: toks)) {w : Id} {g : Bool}
    (ht : t = .holding w g) (hw : b.wiped w = false) : 1 ≤ a.attemptsOf w := by
  have hcov := (h.window w).covered hw
  subst ht
  simp only [held_cons, Token.holds, if_pos] at hcov
  omega

theorem Ledger.opened (h : Ledger l a b slots (t :: toks)) {w : Id} (ht : t.window? = some w) :
    b.opened w = true :=
  (h.token t List.mem_cons_self).known w ht

theorem mem_retoken {u : Token} (h : t = u → t' = u) (hmem : u ∈ t :: toks) : u ∈ t' :: toks := by
  rcases List.mem_cons.mp hmem with heq | hrest
  · rw [h heq.symm]
    exact List.mem_cons_self
  · exact List.mem_cons_of_mem _ hrest

/-- A token that holds no more than another, and the same of the current window. -/
structure Eases (a : Account) (b : Books) (t t' : Token) : Prop where
  holds : ∀ w, t'.holds w ≤ t.holds w
  good : ∀ w, t'.good w ≤ t.good w
  current : ∀ w, a.window = some w → t'.holds w = t.holds w
  token : TokenLedger b t'
  closing : ∀ w, t = .closing w → t' = .closing w
  owing : t = .owing → t' = .owing

theorem Ledger.ease (h : Ledger l a b slots (t :: toks)) (he : Eases a b t t') :
    Ledger l a b slots (t' :: toks) where
  window w := by
    have hw := h.window w
    have hgood := he.good w
    have hholds := he.holds w
    constructor
    · have hbound := hw.bound
      rw [good_cons] at hbound ⊢
      omega
    · intro hwiped
      have hcov := hw.covered hwiped
      rw [held_cons] at hcov ⊢
      omega
    · intro hc hwiped
      have htight := hw.tight hc hwiped
      rw [held_cons] at htight ⊢
      rw [he.current w hc]
      exact htight
    · exact hw.failures
    · exact hw.unopened
    · exact hw.current
    · exact fun hc hwiped => mem_retoken (he.closing w) (hw.closes hc hwiped)
    · exact fun ho => (hw.owed ho).imp_right (mem_retoken he.owing)
  token u hu := by
    rcases List.mem_cons.mp hu with rfl | hmem
    · exact he.token
    · exact h.token u (List.mem_cons_of_mem _ hmem)

/-- A change that every window but one does not see. -/
structure Local (id : Id) (a a' : Account) (b b' : Books) (t t' : Token) : Prop where
  window : a'.window = a.window
  locked : a'.locked = a.locked
  attempts : ∀ w, w ≠ id → a'.attemptsOf w = a.attemptsOf w
  failures : ∀ w, w ≠ id → a'.failuresOf w = a.failuresOf w
  reported : ∀ w, w ≠ id → b'.reported w = b.reported w
  failed : ∀ w, w ≠ id → b'.failed w = b.failed w
  wiped : ∀ w, w ≠ id → b'.wiped w = b.wiped w
  owed : ∀ w, w ≠ id → b'.owed w = b.owed w
  holds : ∀ w, w ≠ id → t'.holds w = t.holds w
  good : ∀ w, w ≠ id → t'.good w = t.good w
  opened : b'.opened = b.opened
  wipes : b.wiped id = true → b'.wiped id = true
  closing : ∀ w, t = .closing w → t' = .closing w
  owing : t = .owing → t' = .owing

/-- A local change keeps the invariant where it keeps it in its own window. -/
theorem Ledger.local_ (h : Ledger l a b slots (t :: toks)) (id : Id) {a' : Account} {b' : Books}
    (hl : Local id a a' b b' t t') (hid : WindowLedger l a' b' slots (t' :: toks) id)
    (ht : TokenLedger b' t') : Ledger l a' b' slots (t' :: toks) where
  window w := by
    by_cases hne : w = id
    · rw [hne]
      exact hid
    · have hw := h.window w
      have hbound := hw.bound
      rw [good_cons, ← hl.good w hne, ← good_cons] at hbound
      have hheld : held (t' :: toks) w = held (t :: toks) w := by
        rw [held_cons, held_cons, hl.holds w hne]
      constructor
      · exact hbound
      · rw [hl.wiped w hne, hl.reported w hne, hl.attempts w hne, hheld]
        exact hw.covered
      · rw [hl.wiped w hne, hl.reported w hne, hl.attempts w hne, hheld, hl.window]
        exact hw.tight
      · rw [hl.wiped w hne, hl.failures w hne, hl.failed w hne]
        exact hw.failures
      · rw [hl.opened, hl.attempts w hne, hl.wiped w hne]
        exact hw.unopened
      · rw [hl.opened, hl.window]
        exact hw.current
      · rw [hl.window, hl.wiped w hne]
        exact fun hc hwiped => mem_retoken (hl.closing w) (hw.closes hc hwiped)
      · rw [hl.owed w hne, hl.locked]
        exact fun ho => (hw.owed ho).imp_right (mem_retoken hl.owing)
  token u hu := by
    rcases List.mem_cons.mp hu with rfl | hmem
    · exact ht
    · have hold := h.token u (List.mem_cons_of_mem _ hmem)
      have hwipes : ∀ w, b.wiped w = true → b'.wiped w = true := by
        intro w hw
        by_cases hne : w = id
        · rw [hne] at hw ⊢
          exact hl.wipes hw
        · rw [hl.wiped w hne]
          exact hw
      constructor
      · rw [hl.opened]
        exact hold.known
      · exact fun w hw => hwipes w (hold.fixing w hw)
      · exact fun w hw => hwipes w (hold.closing w hw)

end Rustango.AccountLockout
