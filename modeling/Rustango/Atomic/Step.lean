import Mathlib.Tactic.SplitIfs
import Rustango.Lib.Outcome
import Rustango.Atomic.Tx

/-!
# What a step of a transaction can do

A statement the server accepts changes the log and nothing else of the transaction; one it refuses
gives the transaction up. So a step gives it up, does nothing, or is one of the turns below, taken
on the transaction as it is or, where the step acquires it, as `settle` leaves it.
-/

namespace Rustango.Atomic

open Function Savepoints Outcome

variable {slot slot' : Slot} {tx tx' : Tx} {verb : Verb} {name : Name} {e : Event}
  {p s : Scope} {n d : Nat}

/-- The slots agree on all but the log and the answers still to come. -/
structure SameState (slot slot' : Slot) : Prop where
  depth : slot'.depth = slot.depth
  poisoned : slot'.poisoned = slot.poisoned
  retryPoints : slot'.retryPoints = slot.retryPoints
  cancelled : slot'.cancelled = slot.cancelled
  cancelledPoint : slot'.cancelledPoint = slot.cancelledPoint
  fatal : slot'.fatal = slot.fatal
  lock : slot'.lock = slot.lock

theorem SameState.refl (slot : Slot) : SameState slot slot := ⟨rfl, rfl, rfl, rfl, rfl, rfl, rfl⟩

theorem SameState.trans {slot'' : Slot} (h : SameState slot slot') (h' : SameState slot' slot'') :
    SameState slot slot'' :=
  ⟨h'.depth.trans h.depth, h'.poisoned.trans h.poisoned, h'.retryPoints.trans h.retryPoints,
    h'.cancelled.trans h.cancelled, h'.cancelledPoint.trans h.cancelledPoint,
    h'.fatal.trans h.fatal, h'.lock.trans h.lock⟩

/-- The server ran the statement. -/
structure Accepted (verb : Verb) (name : Name) (slot slot' : Slot) : Prop where
  log : verb.apply name slot.log = some slot'.log
  same : SameState slot slot'

/-- The server rolled back to a savepoint and released it. -/
structure Undone (name : Name) (slot slot' : Slot) : Prop where
  isOpen : isOpen name slot.log = true
  log : slot'.log = before name slot.log
  same : SameState slot slot'

private theorem namedSavepoint_ok (h : slot.namedSavepoint verb name = .ok slot') :
    Accepted verb name slot slot' := by
  unfold Slot.namedSavepoint at h
  cases hlog : verb.apply name slot.log with
  | none => rw [hlog] at h; cases h
  | some log =>
    rw [hlog] at h
    simp only at h
    split at h
    · cases h
      exact ⟨hlog, ⟨rfl, rfl, rfl, rfl, rfl, rfl, rfl⟩⟩
    · cases h

private theorem namedSavepoint_error (h : slot.namedSavepoint verb name = .error slot') :
    slot'.poisoned = true := by
  unfold Slot.namedSavepoint at h
  cases hlog : verb.apply name slot.log with
  | none => rw [hlog] at h; cases h; rfl
  | some log =>
    rw [hlog] at h
    simp only at h
    split at h
    · cases h
    · cases h
      rfl

theorem cutOff_same (ran : Bool) (verb : Verb) (name : Name) (slot : Slot) :
    SameState slot (slot.cutOff ran verb name) := by
  unfold Slot.cutOff
  split <;> exact ⟨rfl, rfl, rfl, rfl, rfl, rfl, rfl⟩

theorem Accepted.undone {slot'' : Slot} (h : Accepted .rollbackTo name slot slot')
    (h' : Accepted .release name slot' slot'') : Undone name slot slot'' where
  isOpen := (rollbackTo_eq_some.mp h.log).1
  log := Option.some.inj (h'.log.symm.trans (release_rollbackTo h.log))
  same := h.same.trans h'.same

private theorem error_of_bind {x : Except Slot Slot} {f : Slot → Except Slot Slot}
    (h : x >>= f = .error slot') :
    x = .error slot' ∨ ∃ mid, x = .ok mid ∧ f mid = .error slot' := by
  cases x with
  | error mid => exact .inl h
  | ok mid => exact .inr ⟨mid, rfl, h⟩

private theorem undoPoint_ok (h : slot.undoPoint n = .ok slot') : Undone (.rp n) slot slot' := by
  obtain ⟨mid, hmid, hrest⟩ := bind_eq_ok.mp h
  exact (namedSavepoint_ok hmid).undone (namedSavepoint_ok hrest)

private theorem undoPoint_error (h : slot.undoPoint n = .error slot') : slot'.poisoned = true := by
  rcases error_of_bind h with h | ⟨mid, _, h⟩
  · exact namedSavepoint_error h
  · exact namedSavepoint_error h

private theorem rollbackTo_ok (h : slot.rollbackTo d = .ok slot') :
    ∃ mid, Undone (.sp d) slot mid ∧ slot' = { mid with depth := d - 1 } := by
  obtain ⟨mid, hmid, hrest⟩ := bind_eq_ok.mp h
  obtain ⟨last, hlast, hdepth⟩ := bind_eq_ok.mp hrest
  refine ⟨last, (namedSavepoint_ok hmid).undone (namedSavepoint_ok hlast), ?_⟩
  exact (Except.ok.inj hdepth).symm

private theorem rollbackTo_error (h : slot.rollbackTo d = .error slot') : slot'.poisoned = true := by
  rcases error_of_bind h with h | ⟨mid, _, h⟩
  · exact namedSavepoint_error h
  · rcases error_of_bind h with h | ⟨last, _, h⟩
    · exact namedSavepoint_error h
    · cases h

/-- What `settleCancelled` leaves behind. -/
inductive CancelledSettled (slot slot' : Slot) : Prop where
  | none (idle : slot.cancelled = 0 ∨ slot.depth < slot.cancelled)
      (eq : slot' = { slot with cancelled := 0 })
  | undone (mid : Slot) (pos : slot.cancelled ≠ 0) (le : slot.cancelled ≤ slot.depth)
      (undone : Undone (.sp slot.cancelled) { slot with cancelled := 0 } mid)
      (eq : slot' = { mid with depth := slot.cancelled - 1 })

/-- What `settlePoint` leaves behind. -/
inductive PointSettled (slot slot' : Slot) : Prop where
  | none (none : slot.cancelledPoint = none) (eq : slot' = slot)
  | gone (n d : Nat) (point : slot.cancelledPoint = some (n, d)) (lt : slot.depth < d)
      (eq : slot' = { slot with cancelledPoint := .none })
  | undone (n : Nat) (point : slot.cancelledPoint = some (n, slot.depth))
      (undone : Undone (.rp n) { slot with cancelledPoint := .none } slot')
  | waits (n d : Nat) (point : slot.cancelledPoint = some (n, d)) (lt : d < slot.depth)
      (eq : slot' = slot)

/-- The transaction after `acquire`: free, and with no dropped scope to roll back at its depth. -/
structure Quiet (slot : Slot) : Prop where
  free : slot.lock = none
  sound : slot.poisoned = false
  cancelled : slot.cancelled = 0
  point : ∀ n d, slot.cancelledPoint = some (n, d) → d < slot.depth

private theorem settleCancelled_ok (h : slot.settleCancelled = .ok slot') :
    CancelledSettled slot slot' := by
  unfold Slot.settleCancelled at h
  simp only at h
  split_ifs at h with hd
  · obtain ⟨mid, hundone, rfl⟩ := rollbackTo_ok h
    exact .undone mid hd.1 hd.2 hundone rfl
  · refine .none ?_ (Except.ok.inj h).symm
    by_cases h0 : slot.cancelled = 0
    · exact .inl h0
    · exact .inr (not_le.mp fun hle => hd ⟨h0, hle⟩)

private theorem settleCancelled_error (h : slot.settleCancelled = .error slot') :
    slot'.poisoned = true := by
  unfold Slot.settleCancelled at h
  simp only at h
  split_ifs at h
  exact rollbackTo_error h

private theorem settlePoint_ok (h : slot.settlePoint = .ok slot') : PointSettled slot slot' := by
  unfold Slot.settlePoint at h
  split at h
  · rename_i hpoint
    exact .none hpoint (Except.ok.inj h).symm
  · rename_i n d hpoint
    split_ifs at h with hgt heq
    · exact .gone n d hpoint hgt (Except.ok.inj h).symm
    · obtain rfl := heq
      exact .undone n hpoint (undoPoint_ok h)
    · exact .waits n d hpoint (by omega) (Except.ok.inj h).symm

private theorem settlePoint_error (h : slot.settlePoint = .error slot') : slot'.poisoned = true := by
  unfold Slot.settlePoint at h
  split at h
  · cases h
  · split_ifs at h
    exact undoPoint_error h

theorem settle_ok (h : slot.settle = .ok slot') : slot.poisoned = false ∧ slot.fatal = false ∧
    ∃ mid, CancelledSettled slot mid ∧ PointSettled mid slot' := by
  unfold Slot.settle at h
  split_ifs at h with hstop
  obtain ⟨mid, hmid, hrest⟩ := bind_eq_ok.mp h
  push Not at hstop
  exact ⟨by simpa using hstop.1, by simpa using hstop.2, mid, settleCancelled_ok hmid,
    settlePoint_ok hrest⟩

private theorem settle_error (h : slot.settle = .error slot') :
    slot'.poisoned = true ∨ slot' = slot := by
  unfold Slot.settle at h
  split_ifs at h
  · exact .inr (Except.error.inj h).symm
  · rcases error_of_bind h with h | ⟨mid, _, h⟩
    · exact .inl (settleCancelled_error h)
    · exact .inl (settlePoint_error h)

theorem settle_quiet (h : slot.settle = .ok slot') (free : slot.lock = none) : Quiet slot' := by
  obtain ⟨sound, _, mid, hmid, hrest⟩ := settle_ok h
  have middle : mid.lock = none ∧ mid.poisoned = false ∧ mid.cancelled = 0 := by
    cases hmid with
    | none _ eq => rw [eq]; exact ⟨free, sound, rfl⟩
    | undone last _ _ undone eq =>
      rw [eq]
      exact ⟨undone.same.lock.trans free, undone.same.poisoned.trans sound, undone.same.cancelled⟩
  obtain ⟨free', sound', cancelled⟩ := middle
  cases hrest with
  | none none eq =>
    refine eq ▸ ⟨free', sound', cancelled, fun n d hp => ?_⟩
    rw [none] at hp
    cases hp
  | gone n d point lt eq =>
    refine eq ▸ ⟨free', sound', cancelled, fun n d hp => ?_⟩
    cases hp
  | undone n point undone =>
    have same := undone.same
    refine ⟨same.lock.trans free', same.poisoned.trans sound', same.cancelled.trans cancelled,
      fun n d hp => ?_⟩
    rw [same.cancelledPoint] at hp
    cases hp
  | waits n d point lt eq =>
    refine eq ▸ ⟨free', sound', cancelled, fun n' d' hp => ?_⟩
    rw [point] at hp
    cases hp
    exact lt

/-- What a step does to a transaction that it found, or left by `settle`, in the first state. -/
inductive Turn : Event → Tx → Tx → Prop where
  | givenUp {e : Event} {tx tx' : Tx} (poisoned : tx'.slot.poisoned = true)
      (outcome : tx'.outcome = none) (hooks : tx'.hooks = tx.hooks) : Turn e tx tx'
  | refused (e : Event) (tx : Tx) : Turn e tx tx
  | lock {tx : Tx} {p : Scope} (mem : p ∈ tx.scopes.live) (quiet : Quiet tx.slot)
      (top : tx.slot.depth = p.depth) : Turn (.lock p) tx (tx.lockedBy (.guard p.savepoints))
  | unlock {tx : Tx} {savepoints : List Nat} (held : tx.slot.lock = some (.guard savepoints)) :
      Turn .unlock tx tx.unlocked
  | write {tx : Tx} {p : Scope} (mem : p ∈ tx.scopes.live)
      (held : tx.slot.lock = some (.guard p.savepoints) ∨ tx.slot.lock = some (.joined p)) :
      Turn (.write p) tx (tx.wrote p)
  | join {tx : Tx} {p : Scope} {slot : Slot} (mem : p ∈ tx.scopes.live) (kind : p.kind ≠ .write)
      (quiet : Quiet tx.slot) (top : tx.slot.depth = p.depth)
      (accepted : Accepted .savepoint (.sp (p.joined tx.scopes.next).depth) tx.slot slot) :
      Turn (.join p .awaited) tx { tx with
        slot := { slot with
          depth := (p.joined tx.scopes.next).depth
          lock := some (.joined (p.joined tx.scopes.next)) }
        scopes := tx.scopes.add (p.joined tx.scopes.next) }
  | joinCut {tx : Tx} {p : Scope} (ran : Bool) (mem : p ∈ tx.scopes.live) (quiet : Quiet tx.slot)
      (top : tx.slot.depth = p.depth) :
      Turn (.join p (.cut ran)) tx { tx with
        slot := (tx.slot.cutOff ran .savepoint (.sp (p.joined tx.scopes.next).depth)).markCancelled
          (p.joined tx.scopes.next).depth }
  | release {tx : Tx} {w : Scope} {slot : Slot} (held : tx.slot.lock = some (.joined w))
      (accepted : Accepted .release (.sp w.depth) tx.slot slot) :
      Turn (.release .awaited) tx { tx with
        slot := { slot with depth := w.depth - 1, lock := none }
        scopes := tx.scopes.keep w true }
  | releaseCut {tx : Tx} {w : Scope} (ran : Bool) (held : tx.slot.lock = some (.joined w)) :
      Turn (.release (.cut ran)) tx
        ({ tx with slot := tx.slot.cutOff ran .release (.sp w.depth) }.dropped w).unlocked
  | retryPoint {tx : Tx} {p : Scope} {slot : Slot} (mem : p ∈ tx.scopes.live)
      (kind : p.kind ≠ .write) (quiet : Quiet tx.slot) (top : tx.slot.depth = p.depth)
      (accepted : Accepted .savepoint (.rp (tx.slot.retryPoints + 1))
        { tx.slot with retryPoints := tx.slot.retryPoints + 1 } slot) :
      Turn (.retryPoint p .awaited) tx { tx with
        slot, scopes := tx.scopes.add (p.step tx.scopes.next (tx.slot.retryPoints + 1)) }
  | retryPointCut {tx : Tx} {p : Scope} (ran : Bool) (quiet : Quiet tx.slot)
      (top : tx.slot.depth = p.depth) :
      Turn (.retryPoint p (.cut ran)) tx { tx with
        slot := { tx.slot with retryPoints := tx.slot.retryPoints + 1 }.cutOff ran .savepoint
          (.rp (tx.slot.retryPoints + 1)) }
  /-- A kept point that is left open. -/
  | leavePoint {tx : Tx} {s : Scope} {n : Nat} {sent : Sent} (mem : s ∈ tx.scopes.live)
      (kind : s.kind = .step n) (past : tx.over s = true) :
      Turn (.endPoint s true sent) tx { tx with scopes := tx.scopes.keep s true }
  | keepPoint {tx : Tx} {s : Scope} {n : Nat} {slot : Slot} (mem : s ∈ tx.scopes.live)
      (kind : s.kind = .step n) (past : tx.over s = true) (quiet : Quiet tx.slot)
      (top : tx.slot.depth = s.depth) (accepted : Accepted .release (.rp n) tx.slot slot) :
      Turn (.endPoint s true .awaited) tx { tx with slot, scopes := tx.scopes.keep s true }
  | undoPoint {tx : Tx} {s : Scope} {n : Nat} {slot : Slot} (mem : s ∈ tx.scopes.live)
      (kind : s.kind = .step n) (past : tx.over s = true) (quiet : Quiet tx.slot)
      (top : tx.slot.depth = s.depth) (undone : Undone (.rp n) tx.slot slot) :
      Turn (.endPoint s false .awaited) tx { tx with slot, scopes := tx.scopes.keep s false }
  /-- The future is dropped at the last statement, after the rollback of a step not kept. -/
  | cutPoint {tx : Tx} {s : Scope} {n : Nat} {slot : Slot} (keep ran : Bool)
      (mem : s ∈ tx.scopes.live) (kind : s.kind = .step n) (past : tx.over s = true)
      (quiet : Quiet tx.slot) (top : tx.slot.depth = s.depth)
      (rolledBack : if keep then slot = tx.slot else Accepted .rollbackTo (.rp n) tx.slot slot) :
      Turn (.endPoint s keep (.cut ran)) tx
        ({ tx with slot := slot.cutOff ran .release (.rp n) }.dropped s)
  | enter {tx : Tx} {p : Scope} (mem : p ∈ tx.scopes.live) (kind : p.kind ≠ .write)
      (quiet : Quiet tx.slot) (top : tx.slot.depth = p.depth) :
      Turn (.enter p) tx ({ tx with
        scopes := { tx.scopes with all := p.nested tx.scopes.next :: tx.scopes.all } }.lockedBy
          (.opening (p.nested tx.scopes.next) false))
  | opened {tx : Tx} {s : Scope} {slot : Slot} (held : tx.slot.lock = some (.opening s false))
      (accepted : Accepted .savepoint (.sp s.depth) tx.slot slot) :
      Turn .opened tx { tx with
        slot := { slot with depth := s.depth, lock := none }
        scopes := { tx.scopes with live := s :: tx.scopes.live } }
  | openedLate {tx : Tx} {s : Scope} {slot : Slot} (held : tx.slot.lock = some (.opening s true))
      (accepted : Accepted .savepoint (.sp s.depth) tx.slot slot) :
      Turn .opened tx { tx with
        slot := { slot with depth := s.depth, lock := none }.markCancelled s.depth }
  | leave {tx : Tx} {s : Scope} (ok : Bool) (mem : s ∈ tx.scopes.live) (kind : s.kind = .block)
      (nested : s ≠ root) (past : tx.over s = true) (quiet : Quiet tx.slot) :
      Turn (.leave s ok) tx
        ({ tx with scopes := tx.scopes.keep s ok }.lockedBy (.finishing s ok true))
  | keepBlock {tx : Tx} {s : Scope} {slot : Slot} {claimed : Bool}
      (held : tx.slot.lock = some (.finishing s true claimed)) (top : tx.slot.depth = s.depth)
      (accepted : Accepted .release (.sp s.depth) tx.slot slot) :
      Turn .finished tx { tx with
        slot := { slot with depth := s.depth - 1, lock := none }
        hooks := tx.hooks.handOver s }
  | undoBlock {tx : Tx} {s : Scope} {slot : Slot} {claimed : Bool}
      (held : tx.slot.lock = some (.finishing s false claimed)) (top : tx.slot.depth = s.depth)
      (undone : Undone (.sp s.depth) tx.slot slot) :
      Turn .finished tx { tx with slot := { slot with depth := s.depth - 1, lock := none } }
  /-- A block or a step fails before its savepoint is finished. -/
  | drop {e : Event} {tx : Tx} {s : Scope} (mem : s ∈ tx.scopes.live) (kind : s.kind ≠ .write)
      (nested : s ≠ root) (past : tx.over s = true) : Turn e tx (tx.dropped s)
  | dropJoined {tx : Tx} {w : Scope} (held : tx.slot.lock = some (.joined w)) :
      Turn (.drop w) tx (tx.dropped w).unlocked
  | abandonOpening {tx : Tx} {s : Scope} (held : tx.slot.lock = some (.opening s false)) :
      Turn .abandon tx ({ tx with
        scopes := { tx.scopes with failed := s :: tx.scopes.failed } }.lockedBy (.opening s true))
  | abandonFinishing {tx : Tx} {s : Scope} {keep : Bool}
      (held : tx.slot.lock = some (.finishing s keep true)) :
      Turn .abandon tx (tx.lockedBy (.finishing s keep false))
  | onCommit {tx : Tx} {p : Scope} (mem : p ∈ tx.scopes.live) (kind : p.kind ≠ .write) :
      Turn (.onCommit p) tx { tx with hooks := onCommit tx.hooks p }
  | fatal (tx : Tx) : Turn .fatal tx { tx with slot := { tx.slot with fatal := true, log := [] } }
  | failed {e : Event} {tx tx' : Tx} (outcome : tx'.outcome = some .failed)
      (hooks : tx'.hooks = tx.hooks) : Turn e tx tx'
  | commit {tx : Tx} (past : tx.over root = true) (quiet : Quiet tx.slot)
      (top : tx.slot.depth = 0) :
      Turn (.outermost true true) tx { tx with
        hooks := tx.hooks.taken
        outcome := some (.committed (writes tx.slot.log) tx.hooks.registered.length) }

/-- The transaction as a step finds it, settled if the step acquires it. -/
def Acquired (tx tx' : Tx) : Prop :=
  tx' = tx ∨ tx.slot.lock = none ∧ ∃ slot, tx.slot.settle = .ok slot ∧ tx' = { tx with slot }

/-- A step is a turn on the transaction it acquired. -/
def Turns (e : Event) (tx tx' : Tx) : Prop := ∃ mid, Acquired tx mid ∧ Turn e mid tx'

theorem Turn.turns (h : Turn e tx tx') : Turns e tx tx' := ⟨tx, .inl rfl, h⟩

private theorem acquire_turns {error ok : Tx → Option Tx} (h : tx.acquire error ok = some tx')
    (outcome : tx.outcome = none)
    (onError : ∀ mid : Tx, mid.outcome = none → error mid = some tx' →
      tx'.outcome = none ∧ tx'.hooks = mid.hooks ∧ tx'.slot.poisoned = mid.slot.poisoned ∧
        (mid = tx → Turn e tx tx'))
    (onOk : ∀ mid, Quiet mid.slot → mid.scopes = tx.scopes → mid.outcome = none →
      (∀ s, mid.over s = tx.over s) → ok mid = some tx' → Turn e mid tx') :
    Turns e tx tx' := by
  unfold Tx.acquire at h
  split at h
  · cases h
  · rename_i free
    split at h
    · rename_i slot hslot
      obtain ⟨out, hooks, poisoned, same⟩ := onError { tx with slot } outcome h
      rcases settle_error hslot with hp | rfl
      · exact Turn.turns (.givenUp (poisoned.trans hp) out hooks)
      · exact (same rfl).turns
    · rename_i slot hslot
      have quiet : Quiet slot := settle_quiet hslot free
      refine ⟨{ tx with slot }, .inr ⟨free, slot, hslot, rfl⟩, onOk _ quiet rfl outcome ?_ h⟩
      intro s
      simp [Tx.over, quiet.free, free]

private theorem acquire_turns_refused {ok : Tx → Option Tx} (h : tx.acquire some ok = some tx')
    (outcome : tx.outcome = none)
    (onOk : ∀ mid, Quiet mid.slot → mid.scopes = tx.scopes → mid.outcome = none →
      (∀ s, mid.over s = tx.over s) → ok mid = some tx' → Turn e mid tx') :
    Turns e tx tx' := by
  refine acquire_turns h outcome (fun mid hout herror => ?_) onOk
  obtain rfl := Option.some.inj herror
  exact ⟨hout, rfl, rfl, fun h => h ▸ .refused e mid⟩

private theorem dropped_poisoned (tx : Tx) (s : Scope) :
    (tx.dropped s).slot.poisoned = tx.slot.poisoned := by
  unfold Tx.dropped
  cases s.kind <;> rfl

private theorem lock_turns (h : lock tx p = some tx') (out : tx.outcome = none) (mem : p ∈ tx.scopes.live) :
    Turns (.lock p) tx tx' := by
  refine acquire_turns_refused h out fun mid quiet scopes _ _ hok => ?_
  split_ifs at hok with htop
  · obtain rfl := Option.some.inj hok
    exact .refused _ _
  · obtain rfl := Option.some.inj hok
    exact .lock (scopes ▸ mem) quiet (not_not.mp htop)

private theorem write_turns (h : write tx p = some tx') (mem : p ∈ tx.scopes.live) :
    Turns (.write p) tx tx' := by
  obtain ⟨hmay, h⟩ := Option.ite_none_right_eq_some.mp h
  obtain rfl := Option.some.inj h
  refine (Turn.write mem ?_).turns
  have hheld := ((Bool.and_eq_true _ _).mp hmay).2
  split at hheld
  · rename_i savepoints hlock
    exact .inl (by rw [hlock, of_decide_eq_true hheld])
  · rename_i w hlock
    exact .inr (by rw [hlock, of_decide_eq_true hheld])
  · cases hheld

private theorem join_turns {sent : Sent} (h : join tx p sent = some tx') (out : tx.outcome = none)
    (mem : p ∈ tx.scopes.live) (kind : p.kind ≠ .write) : Turns (.join p sent) tx tx' := by
  refine acquire_turns_refused h out fun mid quiet scopes hout _ hok => ?_
  split_ifs at hok with htop
  · obtain rfl := Option.some.inj hok
    exact .refused _ _
  · have top := not_not.mp htop
    cases sent with
    | cut ran =>
      obtain rfl := Option.some.inj hok
      exact .joinCut ran (scopes ▸ mem) quiet top
    | awaited =>
      simp only at hok
      split at hok
      · rename_i slot hslot
        obtain rfl := Option.some.inj hok
        exact .givenUp (show slot.poisoned = true from namedSavepoint_error hslot) hout rfl
      · rename_i slot hslot
        obtain rfl := Option.some.inj hok
        exact .join (scopes ▸ mem) kind quiet top (namedSavepoint_ok hslot)

private theorem release_turns {sent : Sent} (h : release tx sent = some tx') (out : tx.outcome = none) :
    Turns (.release sent) tx tx' := by
  unfold release at h
  split at h
  · rename_i w held
    cases sent with
    | cut ran =>
      obtain rfl := Option.some.inj h
      exact (Turn.releaseCut ran held).turns
    | awaited =>
      simp only at h
      split at h
      · rename_i slot hslot
        obtain rfl := Option.some.inj h
        refine Turn.turns (.givenUp ?_ out rfl)
        exact (dropped_poisoned { tx with slot } w).trans (namedSavepoint_error hslot)
      · rename_i slot hslot
        obtain rfl := Option.some.inj h
        exact (Turn.release held (namedSavepoint_ok hslot)).turns
  · cases h

private theorem retryPoint_turns {sent : Sent} (h : retryPoint tx p sent = some tx')
    (out : tx.outcome = none) (mem : p ∈ tx.scopes.live) (kind : p.kind ≠ .write) :
    Turns (.retryPoint p sent) tx tx' := by
  refine acquire_turns_refused h out fun mid quiet scopes hout _ hok => ?_
  split_ifs at hok with htop
  · obtain rfl := Option.some.inj hok
    exact .refused _ _
  · have top := not_not.mp htop
    cases sent with
    | cut ran =>
      obtain rfl := Option.some.inj hok
      exact .retryPointCut ran quiet top
    | awaited =>
      simp only at hok
      split at hok
      · rename_i slot hslot
        obtain rfl := Option.some.inj hok
        exact .givenUp (namedSavepoint_error hslot) hout rfl
      · rename_i slot hslot
        obtain rfl := Option.some.inj hok
        exact .retryPoint (scopes ▸ mem) kind quiet top (namedSavepoint_ok hslot)

private theorem deferPoint_turn {keep : Bool} {sent : Sent} (mem : s ∈ tx.scopes.live)
    (kind : s.kind = .step n) (past : tx.over s = true) :
    Turn (.endPoint s keep sent) tx (deferPoint tx s keep) := by
  unfold deferPoint
  cases keep with
  | true => exact .leavePoint mem kind past
  | false =>
    refine .drop mem (fun h => ?_) (fun h => ?_) past
    · rw [kind] at h
      cases h
    · rw [h] at kind
      cases kind

private theorem keepPoint_turn {sent : Sent}
    (h : releasePoint tx s n true sent = some tx') (out : tx.outcome = none)
    (mem : s ∈ tx.scopes.live) (kind : s.kind = .step n) (past : tx.over s = true)
    (quiet : Quiet tx.slot) (top : tx.slot.depth = s.depth) :
    Turn (.endPoint s true sent) tx tx' := by
  unfold releasePoint at h
  cases sent with
  | cut ran =>
    obtain rfl := Option.some.inj h
    exact .cutPoint true ran mem kind past quiet top rfl
  | awaited =>
    simp only at h
    split at h
    · rename_i slot hslot
      obtain rfl := Option.some.inj h
      exact .givenUp ((dropped_poisoned ..).trans (namedSavepoint_error hslot)) out rfl
    · rename_i slot hslot
      obtain rfl := Option.some.inj h
      exact .keepPoint mem kind past quiet top (namedSavepoint_ok hslot)

private theorem undoPoint_turn {sent : Sent}
    (h : (match tx.slot.namedSavepoint .rollbackTo (.rp n) with
      | .error slot => some ({ tx with slot }.dropped s)
      | .ok slot => releasePoint { tx with slot } s n false sent) = some tx')
    (out : tx.outcome = none) (mem : s ∈ tx.scopes.live) (kind : s.kind = .step n)
    (past : tx.over s = true) (quiet : Quiet tx.slot) (top : tx.slot.depth = s.depth) :
    Turn (.endPoint s false sent) tx tx' := by
  split at h
  · rename_i slot hslot
    obtain rfl := Option.some.inj h
    exact .givenUp ((dropped_poisoned ..).trans (namedSavepoint_error hslot)) out rfl
  · rename_i slot hslot
    have rolledBack := namedSavepoint_ok hslot
    unfold releasePoint at h
    cases sent with
    | cut ran =>
      obtain rfl := Option.some.inj h
      exact .cutPoint false ran mem kind past quiet top rolledBack
    | awaited =>
      simp only at h
      split at h
      · rename_i slot' hslot'
        obtain rfl := Option.some.inj h
        exact .givenUp ((dropped_poisoned ..).trans (namedSavepoint_error hslot')) out rfl
      · rename_i slot' hslot'
        obtain rfl := Option.some.inj h
        exact .undoPoint mem kind past quiet top (rolledBack.undone (namedSavepoint_ok hslot'))

private theorem endPoint_turns {keep : Bool} {sent : Sent} (h : endPoint tx s n keep sent = some tx')
    (out : tx.outcome = none) (mem : s ∈ tx.scopes.live) (kind : s.kind = .step n)
    (past : tx.over s = true) : Turns (.endPoint s keep sent) tx tx' := by
  have noWrite : s.kind ≠ .write := by
    intro h
    rw [kind] at h
    cases h
  have nested : s ≠ root := by
    intro h
    rw [h] at kind
    cases kind
  unfold endPoint at h
  split at h
  · split_ifs at h
    obtain rfl := Option.some.inj h
    exact (deferPoint_turn mem kind past).turns
  · refine acquire_turns h out (fun mid hout herror => ?_)
      fun mid quiet scopes hout hover hok => ?_
    · obtain rfl := Option.some.inj herror
      exact ⟨hout, rfl, dropped_poisoned .., fun h => h ▸ .drop (h ▸ mem) noWrite nested (h ▸ past)⟩
    · have mem' : s ∈ mid.scopes.live := scopes ▸ mem
      have past' : mid.over s = true := (hover s).trans past
      split_ifs at hok with htop hkeep
      · obtain rfl := Option.some.inj hok
        exact deferPoint_turn mem' kind past'
      · obtain rfl := hkeep
        exact keepPoint_turn hok hout mem' kind past' quiet (not_not.mp htop)
      · obtain rfl := Bool.eq_false_iff.mpr hkeep
        exact undoPoint_turn hok hout mem' kind past' quiet (not_not.mp htop)

private theorem enter_turns (h : enter tx p = some tx') (out : tx.outcome = none)
    (mem : p ∈ tx.scopes.live) (kind : p.kind ≠ .write) : Turns (.enter p) tx tx' := by
  refine acquire_turns_refused h out fun mid quiet scopes _ _ hok => ?_
  split_ifs at hok with htop
  · obtain rfl := Option.some.inj hok
    exact .refused _ _
  · obtain rfl := Option.some.inj hok
    exact .enter (scopes ▸ mem) kind quiet (not_not.mp htop)

private theorem openSavepoint_turns (h : openSavepoint tx = some tx') (out : tx.outcome = none) :
    Turns .opened tx tx' := by
  unfold openSavepoint at h
  split at h
  · rename_i s abandoned held
    split at h
    · rename_i slot hslot
      obtain rfl := Option.some.inj h
      have hp : slot.poisoned = true := namedSavepoint_error hslot
      exact Turn.turns (.givenUp hp out rfl)
    · rename_i slot hslot
      have accepted := namedSavepoint_ok hslot
      cases abandoned with
      | true =>
        obtain rfl := Option.some.inj h
        exact (Turn.openedLate held accepted).turns
      | false =>
        obtain rfl := Option.some.inj h
        exact (Turn.opened held accepted).turns
  · cases h

private theorem leave_turns {ok : Bool} (h : leave tx s ok = some tx') (out : tx.outcome = none)
    (mem : s ∈ tx.scopes.live) (kind : s.kind = .block) (nested : s ≠ root)
    (past : tx.over s = true) : Turns (.leave s ok) tx tx' := by
  have noWrite : s.kind ≠ .write := by
    intro h
    rw [kind] at h
    cases h
  unfold leave at h
  split at h
  · split_ifs at h
    obtain rfl := Option.some.inj h
    exact (Turn.drop mem noWrite nested past).turns
  · refine acquire_turns h out (fun mid hout herror => ?_)
      fun mid quiet scopes _ hover hok => ?_
    · obtain rfl := Option.some.inj herror
      exact ⟨hout, rfl, dropped_poisoned .., fun h => h ▸ .drop (h ▸ mem) noWrite nested (h ▸ past)⟩
    · obtain rfl := Option.some.inj hok
      exact .leave ok (scopes ▸ mem) kind nested ((hover s).trans past) quiet

private theorem finishSavepoint_turns (h : finishSavepoint tx = some tx') (out : tx.outcome = none) :
    Turns .finished tx tx' := by
  unfold finishSavepoint at h
  split at h
  · rename_i s keep claimed held
    split_ifs at h with htop hkeep
    · obtain rfl := Option.some.inj h
      exact Turn.turns (.givenUp rfl out rfl)
    · obtain rfl := hkeep
      split at h
      · rename_i slot hslot
        obtain rfl := Option.some.inj h
        have hp : slot.poisoned = true := namedSavepoint_error hslot
        exact Turn.turns (.givenUp hp out rfl)
      · rename_i slot hslot
        obtain rfl := Option.some.inj h
        exact (Turn.keepBlock held (not_not.mp htop) (namedSavepoint_ok hslot)).turns
    · obtain rfl := Bool.eq_false_iff.mpr hkeep
      split at h
      · rename_i slot hslot
        obtain rfl := Option.some.inj h
        have hp : slot.poisoned = true := rollbackTo_error hslot
        exact Turn.turns (.givenUp hp out rfl)
      · rename_i slot hslot
        obtain rfl := Option.some.inj h
        obtain ⟨mid, undone, rfl⟩ := rollbackTo_ok hslot
        exact (Turn.undoBlock held (not_not.mp htop) undone).turns
  · cases h

private theorem abandon_turns (h : abandon tx = some tx') : Turns .abandon tx tx' := by
  unfold abandon at h
  split at h
  · rename_i s held
    obtain rfl := Option.some.inj h
    exact (Turn.abandonOpening held).turns
  · rename_i s keep held
    obtain rfl := Option.some.inj h
    exact (Turn.abandonFinishing held).turns
  · cases h

private theorem drop_turns (h : drop tx s = some tx') (mem : s ∈ tx.scopes.live) :
    Turns (.drop s) tx tx' := by
  have other (kind : s.kind ≠ .write)
      (h : (if !tx.over s then none
        else if s = root then some { tx with outcome := some .failed }
        else some (tx.dropped s)) = some tx') : Turns (.drop s) tx tx' := by
    split_ifs at h with hover hroot
    · obtain rfl := Option.some.inj h
      exact Turn.turns (.failed rfl rfl)
    · obtain rfl := Option.some.inj h
      exact (Turn.drop mem kind hroot (by simpa using hover)).turns
  unfold drop at h
  split at h
  · split_ifs at h with held
    obtain rfl := Option.some.inj h
    exact (Turn.dropJoined held).turns
  · rename_i kind
    exact other kind h

private theorem outermost_turns {ok commits : Bool} (h : outermost tx ok commits = some tx')
    (past : tx.over root = true) : Turns (.outermost ok commits) tx tx' := by
  unfold outermost at h
  split at h
  · cases h
  · rename_i free
    split at h
    · obtain rfl := Option.some.inj h
      exact Turn.turns (.failed rfl rfl)
    · rename_i slot hslot
      have quiet := settle_quiet hslot free
      split_ifs at h with hcommit
      · obtain rfl := Option.some.inj h
        obtain ⟨top, rfl, rfl⟩ := hcommit
        refine ⟨{ tx with slot }, .inr ⟨free, slot, hslot, rfl⟩, .commit ?_ quiet top⟩
        simpa [Tx.over, quiet.free, free] using past
      · obtain rfl := Option.some.inj h
        exact Turn.turns (.failed rfl rfl)

/-- A step before the end of the outermost block is a turn. -/
theorem running_turns (h : running tx e = some tx') (out : tx.outcome = none) :
    Turns e tx tx' := by
  cases e with
  | lock p =>
    obtain ⟨mem, h⟩ := Option.ite_none_right_eq_some.mp h
    exact lock_turns h out mem
  | unlock =>
    simp only [running] at h
    split at h
    · rename_i savepoints held
      obtain rfl := Option.some.inj h
      exact (Turn.unlock held).turns
    · cases h
  | write p =>
    obtain ⟨mem, h⟩ := Option.ite_none_right_eq_some.mp h
    exact write_turns h mem
  | join p sent =>
    obtain ⟨⟨mem, kind⟩, h⟩ := Option.ite_none_right_eq_some.mp h
    exact join_turns h out mem kind
  | release sent => exact release_turns h out
  | retryPoint p sent =>
    obtain ⟨⟨mem, kind⟩, h⟩ := Option.ite_none_right_eq_some.mp h
    exact retryPoint_turns h out mem kind
  | endPoint s keep sent =>
    simp only [running] at h
    split at h
    · rename_i n kind
      obtain ⟨⟨mem, past⟩, h⟩ := Option.ite_none_right_eq_some.mp h
      exact endPoint_turns h out mem kind past
    · cases h
  | enter p =>
    obtain ⟨⟨mem, kind⟩, h⟩ := Option.ite_none_right_eq_some.mp h
    exact enter_turns h out mem kind
  | opened => exact openSavepoint_turns h out
  | leave s ok =>
    obtain ⟨⟨mem, kind, nested, past⟩, h⟩ := Option.ite_none_right_eq_some.mp h
    exact leave_turns h out mem kind nested past
  | finished => exact finishSavepoint_turns h out
  | drop s =>
    obtain ⟨mem, h⟩ := Option.ite_none_right_eq_some.mp h
    exact drop_turns h mem
  | abandon => exact abandon_turns h
  | onCommit p =>
    obtain ⟨⟨mem, kind⟩, h⟩ := Option.ite_none_right_eq_some.mp h
    obtain rfl := Option.some.inj h
    exact (Turn.onCommit mem kind).turns
  | fatal =>
    obtain rfl := Option.some.inj h
    exact (Turn.fatal tx).turns
  | outermost ok commits =>
    obtain ⟨past, h⟩ := Option.ite_none_right_eq_some.mp h
    exact outermost_turns h past
  | fire panics => cases h

/-- A transaction that was given up stays so. -/
theorem Turn.poisoned (ht : Turn e tx tx') (h : tx.slot.poisoned = true)
    (out : tx'.outcome = none) : tx'.slot.poisoned = true := by
  have noQuiet (quiet : Quiet tx.slot) : False := by
    have hsound := quiet.sound
    rw [h] at hsound
    cases hsound
  cases ht with
  | givenUp poisoned => exact poisoned
  | refused | unlock | write | leavePoint | abandonOpening | abandonFinishing | onCommit
  | fatal => exact h
  | lock _ quiet | join _ _ quiet | joinCut _ _ quiet | retryPoint _ _ quiet
  | retryPointCut _ quiet | keepPoint _ _ _ quiet | undoPoint _ _ _ quiet
  | cutPoint _ _ _ _ _ quiet | enter _ _ quiet | leave _ _ _ _ _ quiet =>
    exact (noQuiet quiet).elim
  | release _ accepted | opened _ accepted | openedLate _ accepted | keepBlock _ _ accepted =>
    exact accepted.same.poisoned.trans h
  | undoBlock _ _ undone => exact undone.same.poisoned.trans h
  | @releaseCut _ w ran held =>
    have same := cutOff_same ran .release (.sp w.depth) tx.slot
    exact (dropped_poisoned ..).trans (same.poisoned.trans h)
  | drop | dropJoined => exact (dropped_poisoned ..).trans h
  | failed outcome => rw [outcome] at out; cases out
  | commit => cases out

end Rustango.Atomic
