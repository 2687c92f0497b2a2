import Rustango.Atomic.Forest
import Rustango.Atomic.Step

/-!
# The open savepoints of a transaction

In every transaction not given up, `depth` counts the nested blocks and joined writes whose
savepoint is open, these lie in each other, and the savepoints of a scope whose code may run are
the oldest of them. So only the innermost open block can use the transaction, and what is rolled
back for a dropped scope is inside it.
-/

namespace Rustango.Atomic

open Function Savepoints

variable {scopes : Scopes} {depth cancelled : Nat} {lock : Option Holder} {os post : List Nat}
  {p q s w : Scope} {b c : Scope} {i n : Nat}

/-- What runs is in scopes that run. -/
structure Live (scopes : Scopes) : Prop where
  forest : Forest scopes.all
  live_mem : ∀ s ∈ scopes.live, s ∈ scopes.all
  failed_mem : ∀ s ∈ scopes.failed, s ∈ scopes.all
  root : root ∈ scopes.live
  around : ∀ s ∈ scopes.live, ∀ q ∈ scopes.all, q.id ∈ s.path → q ∈ scopes.live
  apart : ∀ s ∈ scopes.failed, s ∉ scopes.live

/-- What the holder of the lock is, with the savepoints of `os` open. -/
def Held (scopes : Scopes) (os : List Nat) : Holder → Prop
  | .guard savepoints => savepoints = os
  | .joined w => w ∈ scopes.live ∧ w.kind = .write ∧ w.savepoints = os
  | .opening s abandoned =>
    s ∈ scopes.all ∧ s.kind = .block ∧ s.savepoints = s.id :: os ∧ s ∉ scopes.live ∧
      (∀ q ∈ scopes.all, s.id ∈ q.path → q = s) ∧
      if abandoned then s ∈ scopes.failed
      else s ∉ scopes.failed ∧ ∀ q ∈ scopes.all, q.id ∈ s.path → q = s ∨ q ∈ scopes.live
  | .finishing s keep _ =>
    s ∈ scopes.all ∧ s.kind = .block ∧ s ≠ root ∧ s ∉ scopes.live ∧ s.savepoints <:+ os ∧
      if keep then s ∉ scopes.failed else s ∈ scopes.failed

/-- The savepoint at a depth is that of a scope that failed. -/
def FailedAt (scopes : Scopes) (os : List Nat) (d : Nat) : Prop :=
  ∃ s ∈ scopes.failed, ∃ post, (s.id :: post) <:+ os ∧ post.length + 1 = d

/-- The scopes whose savepoints are open are `os`, innermost first. -/
structure Stack (depth cancelled : Nat) (lock : Option Holder) (scopes : Scopes) (os : List Nat) :
    Prop extends Live scopes where
  count : depth = os.length
  within : ∀ s ∈ scopes.live, s.savepoints <:+ os
  held : ∀ h, lock = some h → Held scopes os h
  failedAt : cancelled ≠ 0 → cancelled ≤ os.length → FailedAt scopes os cancelled
  cancelled_le : lock ≠ none → cancelled ≤ os.length

def Tx.Stacked (tx : Tx) (os : List Nat) : Prop :=
  Stack tx.slot.depth tx.slot.cancelled tx.slot.lock tx.scopes os

private theorem live_initial : Live (Tx.initial fun _ => true).scopes where
  forest := .start
  live_mem _ h := h
  failed_mem _ h := nomatch h
  root := List.mem_singleton_self _
  around _ _ _ hq _ := hq
  apart _ h := nomatch h

theorem stacked_initial (answers : Nat → Bool) : (Tx.initial answers).Stacked [] where
  toLive := live_initial
  count := rfl
  within s hs := by
    rw [List.mem_singleton.mp hs]
    exact List.nil_suffix
  held _ h := nomatch h
  failedAt h := absurd rfl h
  cancelled_le h := absurd rfl h

theorem mem_live_keep {kept : Bool} :
    q ∈ (scopes.keep s kept).live ↔ q ∈ scopes.live ∧ q ≠ s := by
  simp [Scopes.keep, Scopes.remove]

theorem mem_failed_keep {kept : Bool} :
    q ∈ (scopes.keep s kept).failed ↔ q ∈ scopes.failed ∨ kept = false ∧ q = s := by
  cases kept <;> simp [Scopes.keep, Scopes.remove, or_comm]

namespace Live

variable (h : Live scopes)
include h

theorem id_lt (hs : s ∈ scopes.live) : s.id < scopes.next := h.forest.id_lt s (h.live_mem s hs)

theorem not_failed (hs : s ∈ scopes.live) (hq : q ∈ scopes.failed) : q.id ∉ s.path := by
  intro hpath
  exact h.apart q hq (h.around s hs q (h.failed_mem q hq) hpath)

theorem not_failed_savepoint (hs : s ∈ scopes.live) (hq : q ∈ scopes.failed) :
    q.id ∉ s.savepoints := fun hmem =>
  h.not_failed hs hq (h.forest.savepoints_sub_path s (h.live_mem s hs) hmem)

theorem innermost (hp : p ∈ scopes.live) (hkind : p.kind ≠ .write) :
    ∃ b ∈ scopes.live, Innermost scopes.all p b := by
  obtain ⟨b, hb⟩ := h.forest.innermost p (h.live_mem p hp) hkind
  exact ⟨b, h.around p hp b hb.mem hb.path, hb⟩

/-- A scope opened in a live one. -/
theorem add (hp : p ∈ scopes.live) (hforest : Forest (s :: scopes.all))
    (hpath : s.path = scopes.next :: p.path) (hid : s.id = scopes.next) :
    Live (scopes.add s) where
  forest := hforest
  live_mem q hq := by
    rcases List.mem_cons.mp hq with rfl | hq
    · exact List.mem_cons_self
    · exact List.mem_cons_of_mem _ (h.live_mem q hq)
  failed_mem q hq := List.mem_cons_of_mem _ (h.failed_mem q hq)
  root := List.mem_cons_of_mem _ h.root
  around t ht q hq hqt := by
    rcases List.mem_cons.mp hq with rfl | hq'
    · exact List.mem_cons_self
    · refine List.mem_cons_of_mem _ ?_
      rcases List.mem_cons.mp ht with rfl | ht'
      · rw [hpath] at hqt
        rcases List.mem_cons.mp hqt with heq | hqt
        · exact absurd heq (h.forest.id_lt q hq').ne
        · exact h.around p hp q hq' hqt
      · exact h.around t ht' q hq' hqt
  apart q hq hlive := by
    rcases List.mem_cons.mp hlive with rfl | hlive
    · exact (h.forest.id_lt q (h.failed_mem q hq)).ne hid
    · exact h.apart q hq hlive

theorem keep (hs : s ∈ scopes.live) (hroot : s ≠ Atomic.root)
    (alone : ∀ q ∈ scopes.live, s.id ∈ q.path → q = s) (kept : Bool) :
    Live (scopes.keep s kept) where
  forest := h.forest
  live_mem q hq := h.live_mem q (mem_live_keep.mp hq).1
  failed_mem q hq := by
    rcases mem_failed_keep.mp hq with hq | ⟨_, rfl⟩
    · exact h.failed_mem q hq
    · exact h.live_mem q hs
  root := mem_live_keep.mpr ⟨h.root, Ne.symm hroot⟩
  around t ht q hq hqt := by
    obtain ⟨htl, hts⟩ := mem_live_keep.mp ht
    refine mem_live_keep.mpr ⟨h.around t htl q hq hqt, fun hqs => hts ?_⟩
    exact alone t htl (hqs ▸ hqt)
  apart q hq hlive := by
    obtain ⟨hql, hqs⟩ := mem_live_keep.mp hlive
    rcases mem_failed_keep.mp hq with hq | ⟨_, heq⟩
    · exact h.apart q hq hql
    · exact hqs heq

end Live

theorem over_alone {tx : Tx} (h : tx.over s = true) :
    ∀ q ∈ tx.scopes.live, s.id ∈ q.path → q = s := by
  intro q hq hpath
  simp only [Tx.over, Bool.and_eq_true, List.all_eq_true, decide_eq_true_eq] at h
  exact (h.1 q hq).resolve_left (not_not.mpr hpath)

private theorem over_held {tx : Tx} {hd : Holder} (h : tx.over s = true) (held : tx.slot.lock = some hd)
    (busy : hd.busy = true) : s.id ∉ hd.path := by
  simp only [Tx.over, Bool.and_eq_true, held, Option.all_some, Bool.or_eq_true, Bool.not_eq_true',
    decide_eq_true_eq] at h
  exact h.2.resolve_left (by simp [busy])

theorem FailedAt.mono {scopes' : Scopes} {os' : List Nat}
    (hf : ∀ s ∈ scopes.failed, s ∈ scopes'.failed) (hos : os <:+ os')
    (h : FailedAt scopes os n) : FailedAt scopes' os' n := by
  obtain ⟨s, hs, post, hpost, hlen⟩ := h
  exact ⟨s, hf s hs, post, hpost.trans hos, hlen⟩

theorem FailedAt.of_suffix (h : FailedAt scopes os n) (hos : post <:+ os)
    (hn : n ≤ post.length) : FailedAt scopes post n := by
  obtain ⟨s, hs, rest, hrest, hlen⟩ := h
  refine ⟨s, hs, rest, List.suffix_of_suffix_length_le hrest hos ?_, hlen⟩
  rw [List.length_cons]
  omega

namespace Stack

variable (h : Stack depth cancelled lock scopes os)
include h

theorem top (hs : s ∈ scopes.live) (hdepth : depth = s.depth) : s.savepoints = os :=
  (h.within s hs).eq_of_length (by rw [← h.count, hdepth, Scope.depth])

theorem unlock : Stack depth cancelled none scopes os where
  toLive := h.toLive
  count := h.count
  within := h.within
  held _ hd := nomatch hd
  failedAt := h.failedAt
  cancelled_le hd := absurd rfl hd

theorem take (hd : Holder) (held : Held scopes os hd) (le : cancelled ≤ os.length) :
    Stack depth cancelled (some hd) scopes os where
  toLive := h.toLive
  count := h.count
  within := h.within
  held _ heq := Option.some.inj heq ▸ held
  failedAt := h.failedAt
  cancelled_le _ := le

theorem below (hs : s ∈ scopes.failed) (hpost : (s.id :: post) <:+ os) (hq : q ∈ scopes.live) :
    q.savepoints <:+ post := by
  have hnot : s.id ∉ q.savepoints := h.not_failed_savepoint hq hs
  rcases List.suffix_or_suffix_of_suffix (h.within q hq) hpost with hsub | hsub
  · rcases List.suffix_cons_iff.mp hsub with heq | hsub
    · exact absurd (heq ▸ List.mem_cons_self) hnot
    · exact hsub
  · exact absurd (hsub.subset List.mem_cons_self) hnot

theorem rollback (hs : s ∈ scopes.failed) (hpost : (s.id :: post) <:+ os) :
    Stack post.length 0 none scopes post where
  toLive := h.toLive
  count := rfl
  within _ hq := h.below hs hpost hq
  held _ hd := nomatch hd
  failedAt hd := absurd rfl hd
  cancelled_le hd := absurd rfl hd

theorem pop (hos : os = s.id :: post) (hlive : ∀ q ∈ scopes.live, s.id ∉ q.path) :
    Stack post.length cancelled none scopes post where
  toLive := h.toLive
  count := rfl
  within q hq := by
    have hsub := hos ▸ h.within q hq
    rcases List.suffix_cons_iff.mp hsub with heq | hsub
    · have hmem : s.id ∈ q.savepoints := heq ▸ List.mem_cons_self
      exact absurd (h.forest.savepoints_sub_path q (h.live_mem q hq) hmem) (hlive q hq)
    · exact hsub
  held _ hd := nomatch hd
  failedAt hd hle := by
    have hsub : post <:+ os := hos ▸ List.suffix_cons _ _
    exact (h.failedAt hd (hle.trans hsub.length_le)).of_suffix hsub hle
  cancelled_le hd := absurd rfl hd

/-- A scope ends that has no savepoint of its own, or whose savepoint stays for now. -/
theorem ended (hs : s ∈ scopes.live) (hroot : s ≠ Atomic.root)
    (alone : ∀ q ∈ scopes.live, s.id ∈ q.path → q = s)
    (waits : ∀ hd, lock = some hd → hd.busy = true → s.id ∉ hd.path)
    (noWrite : s.kind ≠ .write) (kept : Bool) :
    Stack depth cancelled lock (scopes.keep s kept) os where
  toLive := h.toLive.keep hs hroot alone kept
  count := h.count
  within q hq := h.within q (mem_live_keep.mp hq).1
  held hd hlock := by
    have hheld := h.held hd hlock
    cases hd with
    | guard savepoints => exact hheld
    | joined w =>
      obtain ⟨hw, hkind, hsp⟩ := hheld
      refine ⟨mem_live_keep.mpr ⟨hw, fun heq => noWrite (heq ▸ hkind)⟩, hkind, hsp⟩
    | opening t abandoned =>
      obtain ⟨ht, hkind, hsp, hlive, hin, hrest⟩ := hheld
      have hts : t ≠ s := fun heq => hlive (heq ▸ hs)
      refine ⟨ht, hkind, hsp, fun hl => hlive (mem_live_keep.mp hl).1, hin, ?_⟩
      cases abandoned with
      | true => exact mem_failed_keep.mpr (.inl hrest)
      | false =>
        refine ⟨fun hf => ?_, fun q hq hpath => (hrest.2 q hq hpath).imp_right fun hl => ?_⟩
        · exact (mem_failed_keep.mp hf).elim hrest.1 fun heq => hts heq.2
        · refine mem_live_keep.mpr ⟨hl, fun heq => ?_⟩
          exact waits _ hlock rfl (heq ▸ hpath)
    | finishing t keep claimed =>
      obtain ⟨ht, hkind, hnested, hlive, hsp, hrest⟩ := hheld
      have hts : t ≠ s := fun heq => hlive (heq ▸ hs)
      refine ⟨ht, hkind, hnested, fun hl => hlive (mem_live_keep.mp hl).1, hsp, ?_⟩
      cases keep with
      | true => exact fun hf => (mem_failed_keep.mp hf).elim hrest fun heq => hts heq.2
      | false => exact mem_failed_keep.mpr (.inl hrest)
  failedAt hd hle :=
    (h.failedAt hd hle).mono (fun _ hf => mem_failed_keep.mpr (.inl hf)) List.suffix_rfl
  cancelled_le := h.cancelled_le

theorem join (hp : p ∈ scopes.live) (kind : p.kind ≠ .write) (hsp : p.savepoints = os)
    (hc : cancelled ≤ os.length) :
    Stack (os.length + 1) cancelled (some (.joined (p.joined scopes.next)))
      (scopes.add (p.joined scopes.next)) (scopes.next :: os) where
  toLive := h.toLive.add hp (.joined h.forest (h.live_mem p hp) kind) rfl rfl
  count := rfl
  within q hq := by
    rcases List.mem_cons.mp hq with rfl | hq
    · exact hsp ▸ List.suffix_rfl
    · exact (h.within q hq).trans (List.suffix_cons _ _)
  held _ heq := by
    obtain rfl := Option.some.inj heq
    exact ⟨List.mem_cons_self, rfl, congrArg (scopes.next :: ·) hsp⟩
  failedAt hd _ := (h.failedAt hd hc).mono (fun _ hf => hf) (List.suffix_cons _ _)
  cancelled_le _ := hc.trans (Nat.le_succ _)

theorem retry (free : lock = none) (hp : p ∈ scopes.live) (kind : p.kind ≠ .write) (n : Nat) :
    Stack depth cancelled lock (scopes.add (p.step scopes.next n)) os where
  toLive := h.toLive.add hp (.step n h.forest (h.live_mem p hp) kind) rfl rfl
  count := h.count
  within q hq := by
    rcases List.mem_cons.mp hq with rfl | hq
    · exact h.within p hp
    · exact h.within q hq
  held _ heq := nomatch free.symm.trans heq
  failedAt hd hle := (h.failedAt hd hle).mono (fun _ hf => hf) List.suffix_rfl
  cancelled_le := h.cancelled_le

theorem enter (hp : p ∈ scopes.live) (kind : p.kind ≠ .write) (hsp : p.savepoints = os)
    (hc : cancelled ≤ os.length) :
    Stack depth cancelled (some (.opening (p.nested scopes.next) false))
      { scopes with all := p.nested scopes.next :: scopes.all } os := by
  have hforest : Forest (p.nested scopes.next :: scopes.all) :=
    .nested h.forest (h.live_mem p hp) kind
  have fresh : ∀ q ∈ scopes.all, scopes.next ∉ q.path := fun q hq hi =>
    (h.forest.lt_of_mem_path hq hi).ne rfl
  have hlive : p.nested scopes.next ∉ scopes.live := fun hl =>
    (h.toLive.id_lt hl).ne rfl
  have hfailed : p.nested scopes.next ∉ scopes.failed := fun hf =>
    (h.forest.id_lt _ (h.failed_mem _ hf)).ne rfl
  refine ⟨⟨hforest, fun s hs => List.mem_cons_of_mem _ (h.live_mem s hs),
    fun s hs => List.mem_cons_of_mem _ (h.failed_mem s hs), h.root, fun s hs q hq hqs => ?_,
    h.apart⟩, h.count, h.within, fun hd heq => ?_, h.failedAt, fun _ => hc⟩
  · rcases List.mem_cons.mp hq with rfl | hq
    · exact absurd hqs (fresh s (h.live_mem s hs))
    · exact h.around s hs q hq hqs
  · obtain rfl := Option.some.inj heq
    refine ⟨List.mem_cons_self, rfl, congrArg (scopes.next :: ·) hsp, hlive, fun q hq hqs => ?_,
      hfailed, fun q hq hqs => ?_⟩
    · rcases List.mem_cons.mp hq with rfl | hq
      · rfl
      · exact absurd hqs (fresh q hq)
    · rcases List.mem_cons.mp hq with rfl | hq
      · exact .inl rfl
      · rcases List.mem_cons.mp hqs with heq | hqs
        · exact absurd heq (h.forest.id_lt q hq).ne
        · exact .inr (h.around p hp q hq hqs)

/-- The savepoint of a nested block whose caller still waits is open. -/
theorem opened (held : lock = some (.opening s false)) :
    Stack (os.length + 1) cancelled none { scopes with live := s :: scopes.live } (s.id :: os) := by
  obtain ⟨hs, hkind, hsp, hlive, hin, hfailed, hpath⟩ := h.held _ held
  refine ⟨⟨h.forest, fun q hq => ?_, h.failed_mem, List.mem_cons_of_mem _ h.root,
    fun t ht q hq hqt => ?_, fun q hq hl => ?_⟩, rfl, fun q hq => ?_, nofun, fun hd _ => ?_,
    fun hd => absurd rfl hd⟩
  · rcases List.mem_cons.mp hq with rfl | hq
    · exact hs
    · exact h.live_mem q hq
  · rcases List.mem_cons.mp ht with rfl | ht
    · exact (hpath q hq hqt).elim (fun heq => heq ▸ List.mem_cons_self)
        (List.mem_cons_of_mem _)
    · exact List.mem_cons_of_mem _ (h.around t ht q hq hqt)
  · rcases List.mem_cons.mp hl with rfl | hl
    · exact hfailed hq
    · exact h.apart q hq hl
  · rcases List.mem_cons.mp hq with rfl | hq
    · exact hsp ▸ List.suffix_rfl
    · exact (h.within q hq).trans (List.suffix_cons _ _)
  · have hle : cancelled ≤ os.length := h.cancelled_le (held ▸ Option.some_ne_none _)
    exact (h.failedAt hd hle).mono (fun _ hf => hf) (List.suffix_cons _ _)

theorem openedLate (held : lock = some (.opening s true)) :
    s ∈ scopes.failed ∧ s.savepoints = s.id :: os ∧
      Stack (os.length + 1) cancelled none scopes (s.id :: os) := by
  obtain ⟨hs, hkind, hsp, hlive, hin, hfailed⟩ := h.held _ held
  refine ⟨hfailed, hsp, h.toLive, rfl, fun q hq => ?_, nofun, fun hd _ => ?_,
    fun hd => absurd rfl hd⟩
  · exact (h.within q hq).trans (List.suffix_cons _ _)
  · have hle : cancelled ≤ os.length := h.cancelled_le (held ▸ Option.some_ne_none _)
    exact (h.failedAt hd hle).mono (fun _ hf => hf) (List.suffix_cons _ _)

theorem leave (free : lock = none) (hs : s ∈ scopes.live) (hkind : s.kind = .block)
    (hroot : s ≠ Atomic.root) (alone : ∀ q ∈ scopes.live, s.id ∈ q.path → q = s) (ok claimed : Bool)
    (hc : cancelled ≤ os.length) :
    Stack depth cancelled (some (.finishing s ok claimed)) (scopes.keep s ok) os := by
  have hended := h.ended hs hroot alone (fun hd heq => nomatch free.symm.trans heq)
    (fun heq => nomatch hkind.symm.trans heq) ok
  refine ⟨hended.toLive, hended.count, hended.within, fun hd heq => ?_, hended.failedAt,
    fun _ => hc⟩
  obtain rfl := Option.some.inj heq
  refine ⟨h.live_mem s hs, hkind, hroot, fun hl => (mem_live_keep.mp hl).2 rfl, h.within s hs, ?_⟩
  cases ok with
  | true =>
    intro hf
    rcases mem_failed_keep.mp hf with hf | ⟨heq, _⟩
    · exact h.apart s hf hs
    · cases heq
  | false => exact mem_failed_keep.mpr (.inr ⟨rfl, rfl⟩)

theorem joined_alone (held : lock = some (.joined w)) :
    ∀ q ∈ scopes.live, w.id ∈ q.path → q = w := by
  obtain ⟨hw, hkind, _⟩ := h.held _ held
  intro q hq hpath
  exact h.forest.write_alone (h.live_mem w hw) hkind q (h.live_mem q hq) hpath

theorem joinedEnded (held : lock = some (.joined w)) (kept : Bool) :
    Stack depth cancelled none (scopes.keep w kept) os ∧
      ∃ post, os = w.id :: post ∧ w.savepoints = os := by
  obtain ⟨hw, hkind, hsp⟩ := h.held _ held
  have hroot : w ≠ Atomic.root := fun heq => nomatch (heq ▸ hkind : Atomic.root.kind = .write)
  refine ⟨⟨h.toLive.keep hw hroot (h.joined_alone held) kept, h.count,
    fun q hq => h.within q (mem_live_keep.mp hq).1, nofun,
    fun hd hle => (h.failedAt hd hle).mono (fun _ hf => mem_failed_keep.mpr (.inl hf))
      List.suffix_rfl, fun hd => absurd rfl hd⟩, ?_⟩
  obtain ⟨post, hpost⟩ := h.forest.write_savepoints w (h.live_mem w hw) hkind
  exact ⟨post, hsp ▸ hpost, hsp⟩

theorem finishing {keep claimed : Bool} (held : lock = some (.finishing s keep claimed))
    (top : depth = s.depth) : ∃ b, Around scopes.all s b ∧ os = s.id :: b.savepoints ∧
      Stack (s.depth - 1) cancelled none scopes b.savepoints := by
  obtain ⟨hs, hkind, hroot, hlive, hsub, _⟩ := h.held _ held
  obtain ⟨b, hb⟩ := h.forest.around s hs hkind hroot
  have hos : os = s.id :: b.savepoints := by
    rw [← hb.savepoints]
    exact (hsub.eq_of_length (by rw [← h.count, top, Scope.depth])).symm
  refine ⟨b, hb, hos, ?_⟩
  have hpop := h.pop hos fun q hq hpath => hlive (h.around q hq s hs hpath)
  rwa [Scope.depth, hb.savepoints, List.length_cons, Nat.add_sub_cancel]

/-- A failed scope's savepoint is marked to be rolled back. -/
theorem mark {slot : Slot} (hslot : slot.cancelled = cancelled) (hs : s ∈ scopes.failed)
    (hsub : s.savepoints <:+ os) (hsp : ∃ post, s.savepoints = s.id :: post) :
    Stack depth (slot.markCancelled s.depth).cancelled lock scopes os where
  toLive := h.toLive
  count := h.count
  within := h.within
  held := h.held
  failedAt hd hle := by
    obtain ⟨post, hpost⟩ := hsp
    have hfailed : FailedAt scopes os s.depth :=
      ⟨s, hs, post, hpost ▸ hsub, by rw [Scope.depth, hpost, List.length_cons]⟩
    simp only [Slot.markCancelled, hslot] at hd hle ⊢
    split_ifs with h0
    · exact hfailed
    · rcases Nat.le_total s.depth cancelled with hmin | hmin
      · rw [min_eq_right hmin]
        exact hfailed
      · rw [min_eq_left hmin]
        exact h.failedAt h0 (hmin.trans hsub.length_le)
  cancelled_le _ := by
    simp only [Slot.markCancelled, hslot]
    split_ifs with h0
    · exact hsub.length_le
    · exact (min_le_right _ _).trans hsub.length_le

end Stack

variable {tx mid tx' : Tx} {slot slot' : Slot} {e : Event}

theorem SameState.stacked (same : SameState slot slot')
    (h : Stack slot.depth slot.cancelled slot.lock scopes os) :
    Stack slot'.depth slot'.cancelled slot'.lock scopes os := by
  rw [same.depth, same.cancelled, same.lock]
  exact h

private theorem cancelledSettled_stacked (hs : CancelledSettled tx.slot slot) (h : tx.Stacked os) :
    Stack slot.depth 0 none tx.scopes os ∨
      ∃ s ∈ tx.scopes.failed, ∃ post, (s.id :: post) <:+ os ∧ post.length + 1 = tx.slot.cancelled ∧
        Stack slot.depth 0 none tx.scopes post := by
  cases hs with
  | none idle eq =>
    subst eq
    refine .inl ?_
    exact ⟨h.toLive, h.count, h.within, nofun, fun hd => absurd rfl hd, fun hd => absurd rfl hd⟩
  | undone last pos le undone eq =>
    subst eq
    obtain ⟨s, hsf, post, hpost, hlen⟩ := h.failedAt pos (h.count ▸ le)
    refine .inr ⟨s, hsf, post, hpost, hlen, ?_⟩
    have hstack := h.rollback hsf hpost
    rwa [show tx.slot.cancelled - 1 = post.length by omega]

theorem PointSettled.same (hs : PointSettled slot slot') : slot'.depth = slot.depth ∧
    slot'.cancelled = slot.cancelled ∧ slot'.lock = slot.lock := by
  cases hs with
  | none _ eq | gone _ _ _ _ eq | waits _ _ _ _ eq => rw [eq]; exact ⟨rfl, rfl, rfl⟩
  | undone n point undone =>
    exact ⟨undone.same.depth, undone.same.cancelled, undone.same.lock⟩

private theorem not_root_of_step (kind : s.kind = .step n) : s ≠ root := by
  intro heq
  rw [heq] at kind
  cases kind

private theorem dropped_stacked (h : tx.Stacked os) (hs : s ∈ tx.scopes.live) (kind : s.kind ≠ .write)
    (hroot : s ≠ root) (past : tx.over s = true) : (tx.dropped s).Stacked os := by
  have hended := h.ended hs hroot (over_alone past) (fun hd => over_held past) kind false
  unfold Tx.Stacked Tx.dropped
  cases hkind : s.kind with
  | write => exact absurd hkind kind
  | step n => exact hended
  | block =>
    obtain ⟨b, hb⟩ := h.forest.around s (h.live_mem s hs) hkind hroot
    exact hended.mark rfl (mem_failed_keep.mpr (.inr ⟨rfl, rfl⟩)) (h.within s hs)
      ⟨b.savepoints, hb.savepoints⟩

private theorem joined_dropped_stacked (h : tx.Stacked os) (held : tx.slot.lock = some (.joined w)) :
    (tx.dropped w).unlocked.Stacked os := by
  obtain ⟨hw, hkind, hsp⟩ := h.held _ held
  obtain ⟨hended, post, hpost, _⟩ := h.joinedEnded held false
  have hfailed : w ∈ (tx.scopes.keep w false).failed := mem_failed_keep.mpr (.inr ⟨rfl, rfl⟩)
  have same : tx.slot.cancelled = tx.slot.cancelled := rfl
  have hmark := hended.mark same hfailed (h.within w hw) ⟨post, hsp.trans hpost⟩
  unfold Tx.Stacked Tx.unlocked Tx.dropped
  simp only [hkind]
  exact hmark

theorem Acquired.stacked (hm : Acquired tx mid) (h : tx.Stacked os) : ∃ os', mid.Stacked os' := by
  rcases hm with rfl | ⟨free, slot, hslot, rfl⟩
  · exact ⟨os, h⟩
  · obtain ⟨_, _, last, hlast, hrest⟩ := settle_ok hslot
    have quiet := settle_quiet hslot free
    have hstack : ∃ os', Stack last.depth 0 none tx.scopes os' := by
      rcases cancelledSettled_stacked hlast h with hs | ⟨_, _, post, _, _, hs⟩
      · exact ⟨os, hs⟩
      · exact ⟨post, hs⟩
    obtain ⟨os', hs⟩ := hstack
    refine ⟨os', ?_⟩
    unfold Tx.Stacked
    rw [quiet.cancelled, quiet.free, hrest.same.1]
    exact hs

private theorem joined_depth (hsp : p.savepoints = os) : (p.joined n).depth = os.length + 1 :=
  congrArg (fun l => l.length + 1) hsp

/-- A turn keeps the savepoints stacked, unless it ends the transaction or gives it up. -/
theorem Turn.stacked (ht : Turn e tx tx') (h : tx.Stacked os) (out : tx'.outcome = none)
    (sound : tx'.slot.poisoned = false) : ∃ os', tx'.Stacked os' := by
  have quiet_le (quiet : Quiet tx.slot) : tx.slot.cancelled ≤ os.length := by
    rw [quiet.cancelled]
    exact Nat.zero_le _
  cases ht with
  | givenUp poisoned => rw [poisoned] at sound; cases sound
  | refused => exact ⟨os, h⟩
  | lock mem quiet top => exact ⟨os, h.take _ (h.top mem top) (quiet_le quiet)⟩
  | unlock held => exact ⟨os, h.unlock⟩
  | write mem held => exact ⟨os, h⟩
  | @join _ p slot mem kind quiet top accepted =>
    have hsp := h.top mem top
    refine ⟨tx.scopes.next :: os, ?_⟩
    unfold Tx.Stacked
    rw [joined_depth hsp, accepted.same.cancelled]
    exact h.join mem kind hsp (quiet_le quiet)
  | @joinCut _ p ran mem quiet top =>
    have same := cutOff_same ran .savepoint (.sp (p.joined tx.scopes.next).depth) tx.slot
    have hcancelled : (tx.slot.cutOff ran .savepoint
        (.sp (p.joined tx.scopes.next).depth)).cancelled = 0 := same.cancelled.trans quiet.cancelled
    have hfree : (tx.slot.cutOff ran .savepoint
        (.sp (p.joined tx.scopes.next).depth)).lock = none := same.lock.trans quiet.free
    refine ⟨os, h.toLive, same.depth.trans h.count, h.within, fun hd heq => ?_, fun _ hle => ?_,
      fun hd => absurd hfree hd⟩
    · exact nomatch hfree.symm.trans heq
    · have hmark : (Slot.markCancelled (p.joined tx.scopes.next).depth (tx.slot.cutOff ran
          .savepoint (.sp (p.joined tx.scopes.next).depth))).cancelled = os.length + 1 := by
        simp only [Slot.markCancelled]
        rw [if_pos hcancelled]
        exact joined_depth (h.top mem top)
      have hle' := hmark ▸ hle
      omega
  | @release _ w slot held accepted =>
    obtain ⟨hended, post, hpost, hsp⟩ := h.joinedEnded held true
    have hpop := hended.pop (s := w) hpost fun q hq hpath =>
      (mem_live_keep.mp hq).2 (h.joined_alone held q (mem_live_keep.mp hq).1 hpath)
    refine ⟨post, ?_⟩
    unfold Tx.Stacked
    rw [show w.depth - 1 = post.length by rw [Scope.depth, hsp, hpost]; rfl,
      accepted.same.cancelled]
    exact hpop
  | @releaseCut _ w ran held =>
    have same := cutOff_same ran .release (.sp w.depth) tx.slot
    exact ⟨os, joined_dropped_stacked (same.stacked h) (same.lock.trans held)⟩
  | retryPoint mem kind quiet top accepted =>
    refine ⟨os, ?_⟩
    have same := accepted.same
    unfold Tx.Stacked
    rw [same.depth, same.cancelled, same.lock]
    exact h.retry quiet.free mem kind _
  | retryPointCut ran quiet top =>
    exact ⟨os, (cutOff_same ran .savepoint (.rp (tx.slot.retryPoints + 1))
      { tx.slot with retryPoints := tx.slot.retryPoints + 1 }).stacked h⟩
  | leavePoint mem kind past =>
    exact ⟨os, h.ended mem (not_root_of_step kind) (over_alone past) (fun hd => over_held past)
      (fun heq => nomatch kind.symm.trans heq) true⟩
  | keepPoint mem kind past quiet top accepted =>
    exact ⟨os, accepted.same.stacked
      (h.ended mem (not_root_of_step kind) (over_alone past) (fun hd => over_held past)
        (fun heq => nomatch kind.symm.trans heq) true)⟩
  | undoPoint mem kind past quiet top undone =>
    exact ⟨os, undone.same.stacked
      (h.ended mem (not_root_of_step kind) (over_alone past) (fun hd => over_held past)
        (fun heq => nomatch kind.symm.trans heq) false)⟩
  | @cutPoint _ s n slot keep ran mem kind past quiet top rolledBack =>
    have same : SameState tx.slot slot := by
      cases keep with
      | true => exact rolledBack ▸ .refl _
      | false => exact rolledBack.same
    have same' := same.trans (cutOff_same ran .release (.rp n) slot)
    refine ⟨os, dropped_stacked (same'.stacked h) mem (fun heq => nomatch kind.symm.trans heq)
      (not_root_of_step kind) ?_⟩
    simpa [Tx.over, same'.lock] using past
  | enter mem kind quiet top => exact ⟨os, h.enter mem kind (h.top mem top) (quiet_le quiet)⟩
  | @opened _ s slot held accepted =>
    obtain ⟨_, _, hsp, _⟩ := h.held _ held
    refine ⟨s.id :: os, ?_⟩
    unfold Tx.Stacked
    rw [show s.depth = os.length + 1 from congrArg List.length hsp, accepted.same.cancelled]
    exact h.opened held
  | @openedLate _ s slot held accepted =>
    obtain ⟨hfailed, hsp, hstack⟩ := h.openedLate held
    have hdepth : s.depth = os.length + 1 := congrArg List.length hsp
    have hmark := hstack.mark accepted.same.cancelled hfailed (hsp ▸ List.suffix_rfl) ⟨os, hsp⟩
    refine ⟨s.id :: os, ?_⟩
    unfold Tx.Stacked
    rw [← hdepth] at hmark
    exact hmark
  | leave ok mem kind nested past quiet =>
    exact ⟨os, h.leave quiet.free mem kind nested (over_alone past) ok true (quiet_le quiet)⟩
  | keepBlock held top accepted =>
    obtain ⟨b, _, _, hstack⟩ := h.finishing held top
    refine ⟨b.savepoints, ?_⟩
    unfold Tx.Stacked
    rw [accepted.same.cancelled]
    exact hstack
  | undoBlock held top undone =>
    obtain ⟨b, _, _, hstack⟩ := h.finishing held top
    refine ⟨b.savepoints, ?_⟩
    unfold Tx.Stacked
    rw [undone.same.cancelled]
    exact hstack
  | drop mem kind nested past => exact ⟨os, dropped_stacked h mem kind nested past⟩
  | dropJoined held => exact ⟨os, joined_dropped_stacked h held⟩
  | @abandonOpening _ s held =>
    obtain ⟨hs, hkind, hsp, hlive, hin, hfailed, hpath⟩ := h.held _ held
    refine ⟨os, ⟨h.forest, h.live_mem, fun q hq => ?_, h.root, h.around, fun q hq hl => ?_⟩,
      h.count, h.within, fun hd heq => ?_, fun hd hle => ?_, fun _ => h.cancelled_le ?_⟩
    · rcases List.mem_cons.mp hq with rfl | hq
      · exact hs
      · exact h.failed_mem q hq
    · rcases List.mem_cons.mp hq with rfl | hq
      · exact hlive hl
      · exact h.apart q hq hl
    · obtain rfl := Option.some.inj heq
      exact ⟨hs, hkind, hsp, hlive, hin, List.mem_cons_self⟩
    · exact (h.failedAt hd hle).mono (fun _ hf => List.mem_cons_of_mem _ hf) List.suffix_rfl
    · exact held ▸ Option.some_ne_none _
  | @abandonFinishing _ s keep held =>
    have hheld := h.held _ held
    exact ⟨os, h.take _ hheld (h.cancelled_le (held ▸ Option.some_ne_none _))⟩
  | onCommit mem kind => exact ⟨os, h⟩
  | fatal => exact ⟨os, h⟩
  | failed outcome => rw [outcome] at out; cases out
  | commit => cases out

end Rustango.Atomic
