import Rustango.Atomic.Queued

/-!
# `on_commit` hooks follow the fate of their scope

Of every run in which a block queues no callback of its own while a nested block holds some, and no
callback registered inside a retry step that was undone is still queued at the commit: the
callbacks run once, in their order, after the commit, and exactly those whose scopes all kept their
writes.
-/

namespace Rustango.Atomic

open Function Savepoints Rustango.Runs

variable {scopes : Scopes} {lock : Option Holder} {hooks : Hooks} {os : List Nat}
  {tx mid tx' : Tx} {slot slot' : Slot} {e : Event} {p q s w : Scope} {b c : Scope} {k l n : Nat}
  {depth cancelled depth' cancelled' : Nat}

private theorem handOver_parent : (hooks.handOver s).callbacks s.parent =
    hooks.callbacks s.parent ++ hooks.callbacks s.id :=
  update_self ..

private theorem handOver_other {i : Nat} (hs : i ≠ s.id) (hp : i ≠ s.parent) :
    (hooks.handOver s).callbacks i = hooks.callbacks i :=
  (update_of_ne hp ..).trans (update_of_ne hs ..)

private theorem onCommit_block : (onCommit hooks p).callbacks p.block =
    hooks.callbacks p.block ++ [hooks.registered.length] :=
  update_self ..

private theorem onCommit_other {i : Nat} (hi : i ≠ p.block) :
    (onCommit hooks p).callbacks i = hooks.callbacks i :=
  update_of_ne hi ..

theorem Placed.mono {lock' : Option Holder} (h : Placed lock scopes b p)
    (stand : ∀ c, Standing lock' scopes c → Standing lock scopes c) :
    Placed lock' scopes b p :=
  ⟨h.inside, fun c hc => h.innermost c (stand c hc), h.kept⟩

/-- Once the savepoint of a nested block is released, its callbacks are those of the block around
it. -/
theorem Queued.handOver {claimed : Bool} (h : Queued lock scopes hooks)
    (hstack : Stack depth cancelled lock scopes os)
    (held : lock = some (.finishing s true claimed)) (top : depth = s.depth) :
    Queued none scopes (hooks.handOver s) := by
  obtain ⟨hs, hkind, hroot, hlive, _⟩ := hstack.held _ held
  obtain ⟨b, hb, hos, _⟩ := hstack.finishing held top
  have live : ∀ c, Standing none scopes c ↔ c ∈ scopes.live ∧ c.kind = .block :=
    fun c => standing_iff_live fun t claimed heq => by cases heq
  have stand : ∀ c, Standing none scopes c → Standing lock scopes c :=
    fun c hc => .inl ((live c).mp hc)
  have standing : b ∈ scopes.live → Standing lock scopes s := fun hbl =>
    .inr ⟨⟨claimed, held⟩, b, hbl, hb⟩
  have hne : ∀ c ∈ scopes.live, c.id ≠ s.id := fun c hc heq =>
    hlive (hstack.forest.id_inj (hstack.live_mem c hc) hs heq ▸ hc)
  have queue : ∀ c ∈ scopes.live, (hooks.handOver s).callbacks c.id =
      if c = b then hooks.callbacks b.id ++ hooks.callbacks s.id else hooks.callbacks c.id := by
    intro c hc
    split_ifs with hcb
    · rw [hcb, hb.id]
      exact handOver_parent
    · refine handOver_other (hne c hc) fun heq => hcb ?_
      exact hstack.forest.id_inj (hstack.live_mem c hc) hb.mem (heq.trans hb.id.symm)
  have below : ∀ c, c ∈ scopes.live → c.kind = .block → c.savepoints <:+ s.savepoints →
      c.savepoints <:+ b.savepoints := by
    intro c hc hck hsub
    rw [hb.savepoints] at hsub
    rcases List.suffix_cons_iff.mp hsub with heq | hsub
    · have hcs := hstack.forest.block_inj (hstack.live_mem c hc) hs hck hkind
        (heq.trans hb.savepoints.symm)
      exact absurd (hcs ▸ hc) hlive
    · exact hsub
  have hbs : b.savepoints <:+ s.savepoints := hb.savepoints ▸ List.suffix_cons _ _
  have hbne : b ∈ scopes.live → b ≠ s := fun hbl heq => hlive (heq ▸ hbl)
  refine ⟨h.known, fun i hi => ?_, fun _ _ heq => (nomatch heq), fun c hc => ?_,
    fun c hc k hk => ?_, fun k p hp => ?_, fun c d hc hd hsub hcd k hk l hl => ?_⟩
  · have hsi : i ≠ s.id := fun heq => (heq ▸ hstack.forest.id_lt s hs).not_ge hi
    have hpi : i ≠ s.parent := fun heq => (heq ▸ hb.id ▸ hstack.forest.id_lt b hb.mem).not_ge hi
    rw [handOver_other hsi hpi]
    exact h.unused i hi
  · obtain ⟨hcl, hck⟩ := (live c).mp hc
    rw [queue c hcl]
    split_ifs with hcb
    · subst hcb
      rw [List.pairwise_append]
      exact ⟨h.sorted c (stand c hc), h.sorted s (standing hcl),
        h.ordered c s (stand c hc) (standing hcl) hbs (hbne hcl)⟩
    · exact h.sorted c (stand c hc)
  · obtain ⟨hcl, hck⟩ := (live c).mp hc
    rw [queue c hcl] at hk
    split_ifs at hk with hcb
    · subst hcb
      rcases List.mem_append.mp hk with hk | hk
      · obtain ⟨p, hp, hplaced⟩ := h.placed c (stand c hc) k hk
        exact ⟨p, hp, hplaced.mono stand⟩
      · obtain ⟨p, hp, hplaced⟩ := h.placed s (standing hcl) k hk
        refine ⟨p, hp, hbs.trans hplaced.inside, fun d hd hpath => ?_, hplaced.kept⟩
        obtain ⟨hdl, hdk⟩ := (live d).mp hd
        exact below d hdl hdk (hplaced.innermost d (stand d hd) hpath)
    · obtain ⟨p, hp, hplaced⟩ := h.placed c (stand c hc) k hk
      exact ⟨p, hp, hplaced.mono stand⟩
  · rcases h.found k p hp with hfailed | ⟨c, hc, hk⟩
    · exact .inl hfailed
    · rcases hc with ⟨hcl, hck⟩ | ⟨⟨claimed', heq⟩, a, ha, haround⟩
      · refine .inr ⟨c, (live c).mpr ⟨hcl, hck⟩, ?_⟩
        rw [queue c hcl]
        split_ifs with hcb
        · subst hcb
          exact List.mem_append_left _ hk
        · exact hk
      · cases held.symm.trans heq
        have hab : a = b :=
          hstack.forest.id_inj haround.mem hb.mem (haround.id.trans hb.id.symm)
        have hbl : b ∈ scopes.live := hab ▸ ha
        refine .inr ⟨b, (live b).mpr ⟨hbl, hb.kind⟩, ?_⟩
        rw [queue b hbl, if_pos rfl]
        exact List.mem_append_right _ hk
  · obtain ⟨hcl, hck⟩ := (live c).mp hc
    obtain ⟨hdl, hdk⟩ := (live d).mp hd
    rw [queue c hcl] at hk
    rw [queue d hdl] at hl
    split_ifs at hk hl with hcb hdb hdb
    · exact absurd (hcb.trans hdb.symm) hcd
    · subst hcb
      have hds : d.savepoints <:+ s.savepoints := by
        rw [hb.savepoints, ← hos]
        exact hstack.within d hdl
      have heq := (below d hdl hdk hds).eq_of_length
        (le_antisymm (below d hdl hdk hds).length_le hsub.length_le)
      exact absurd (hstack.forest.block_inj hb.mem (hstack.live_mem d hdl) hck hdk heq.symm) hcd
    · subst hdb
      rcases List.mem_append.mp hl with hl | hl
      · exact h.ordered c d (stand c hc) (stand d hd) hsub hcd k hk l hl
      · exact h.ordered c s (stand c hc) (standing hdl) (hsub.trans hbs)
          (fun heq => hlive (heq ▸ hcl)) k hk l hl
    · exact h.ordered c d (stand c hc) (stand d hd) hsub hcd k hk l hl

theorem Queued.lt_registered (h : Queued lock scopes hooks) (hb : Standing lock scopes b)
    (hk : k ∈ hooks.callbacks b.id) : k < hooks.registered.length := by
  obtain ⟨p, hp, _⟩ := h.placed b hb k hk
  exact (List.getElem?_eq_some_iff.mp hp).1

private theorem savepoints_suffix (h : Live scopes) (hp : p ∈ scopes.live) (hc : c ∈ scopes.all)
    (hkind : c.kind = .block) (hpath : c.id ∈ p.path) : c.savepoints <:+ p.savepoints := by
  by_cases hroot : c = root
  · rw [hroot]
    exact List.nil_suffix
  · have hmem := h.forest.mem_savepoints hc hkind hroot p (h.live_mem p hp) hpath
    obtain ⟨pre, post, heq⟩ := List.append_of_mem hmem
    have hsub : (c.id :: post) <:+ p.savepoints := heq ▸ List.suffix_append _ _
    obtain ⟨q, hq, hid, hsp⟩ := h.forest.owner p (h.live_mem p hp) c.id post hsub
    rw [← h.forest.id_inj hq hc hid, hsp]
    exact hsub

/-- No block nested in the innermost one around `p` holds callbacks that it may hand over. -/
def Tx.NoneNested (tx : Tx) (p : Scope) : Prop :=
  ∀ c, Standing tx.slot.lock tx.scopes c → p.block ∈ c.path → c.id ≠ p.block →
    tx.hooks.callbacks c.id = []

theorem Queued.onCommit (h : tx.Stacked os) (hq : Queued tx.slot.lock tx.scopes tx.hooks)
    (hp : p ∈ tx.scopes.live) (hkind : p.kind ≠ .write) (nested : tx.NoneNested p) :
    Queued tx.slot.lock tx.scopes (onCommit tx.hooks p) := by
  obtain ⟨b, hbl, hb⟩ := h.innermost hp hkind
  have hstand : Standing tx.slot.lock tx.scopes b := standing_live hbl hb.kind
  have queue : ∀ c ∈ tx.scopes.all, (Atomic.onCommit tx.hooks p).callbacks c.id =
      if c = b then tx.hooks.callbacks b.id ++ [tx.hooks.registered.length]
      else tx.hooks.callbacks c.id := by
    intro c hc
    split_ifs with hcb
    · rw [hcb, hb.id]
      exact onCommit_block
    · refine onCommit_other fun heq => hcb ?_
      exact h.forest.id_inj hc hb.mem (heq.trans hb.id.symm)
  have older : ∀ k q, tx.hooks.registered[k]? = some q →
      (Atomic.onCommit tx.hooks p).registered[k]? = some q := fun k q hk =>
    (List.getElem?_append_left (List.getElem?_eq_some_iff.mp hk).1).trans hk
  refine ⟨fun q hq' => ?_, fun i hi => ?_, fun s abandoned heq => ?_, fun c hc => ?_,
    fun c hc k hk => ?_, fun k q hk => ?_, fun c d hc hd hsub hcd k hk l hl => ?_⟩
  · rcases List.mem_append.mp hq' with hq' | hq'
    · exact hq.known q hq'
    · rw [List.mem_singleton.mp hq']
      exact ⟨h.live_mem p hp, hkind⟩
  · have hib : i ≠ p.block := fun heq => (heq ▸ hb.id ▸ h.forest.id_lt b hb.mem).not_ge hi
    rw [onCommit_other hib]
    exact hq.unused i hi
  · obtain ⟨hs, _, _, hlive, _⟩ := h.held _ heq
    obtain ⟨hempty, hpath⟩ := hq.opening s abandoned heq
    refine ⟨?_, fun q hq' => ?_⟩
    · have hsb : s ≠ b := fun heq => hlive (heq ▸ hbl)
      rw [queue s hs, if_neg hsb]
      exact hempty
    · rcases List.mem_append.mp hq' with hq' | hq'
      · exact hpath q hq'
      · rw [List.mem_singleton.mp hq']
        exact fun hmem => hlive (h.around p hp s hs hmem)
  · rw [queue c (hc.block h).1]
    split_ifs with hcb
    · rw [List.pairwise_append]
      refine ⟨hq.sorted b hstand, List.pairwise_singleton _ _, fun k hk l hl => ?_⟩
      rw [List.mem_singleton.mp hl]
      exact hq.lt_registered hstand hk
    · exact hq.sorted c hc
  · rw [queue c (hc.block h).1] at hk
    have old (hk : k ∈ tx.hooks.callbacks c.id) : ∃ q,
        (Atomic.onCommit tx.hooks p).registered[k]? = some q ∧
          Placed tx.slot.lock tx.scopes c q := by
      obtain ⟨q, hq', hplaced⟩ := hq.placed c hc k hk
      exact ⟨q, older k q hq', hplaced⟩
    split_ifs at hk with hcb
    · subst hcb
      rcases List.mem_append.mp hk with hk | hk
      · exact old hk
      · refine ⟨p, ?_, hb.savepoints ▸ List.suffix_rfl, fun d hd hpath => ?_,
          fun s hs _ => h.not_failed hp hs⟩
        · rw [List.mem_singleton.mp hk]
          exact List.getElem?_concat_length ..
        · rw [hb.savepoints]
          exact savepoints_suffix h.toLive hp (hd.block h).1 (hd.block h).2 hpath
    · exact old hk
  · rcases Nat.lt_or_ge k tx.hooks.registered.length with hlt | hge
    · have hk' : tx.hooks.registered[k]? = some q :=
        (List.getElem?_append_left hlt).symm.trans hk
      rcases hq.found k q hk' with hfailed | ⟨c, hc, hmem⟩
      · exact .inl hfailed
      · refine .inr ⟨c, hc, ?_⟩
        rw [queue c (hc.block h).1]
        split_ifs with hcb
        · exact List.mem_append_left _ (hcb ▸ hmem)
        · exact hmem
    · refine .inr ⟨b, hstand, ?_⟩
      rw [queue b hb.mem, if_pos rfl]
      have hlt := (List.getElem?_eq_some_iff.mp hk).1
      have hlen : (Atomic.onCommit tx.hooks p).registered.length =
          tx.hooks.registered.length + 1 := List.length_append
      refine List.mem_append_right _ (List.mem_singleton.mpr ?_)
      omega
  · rw [queue c (hc.block h).1] at hk
    rw [queue d (hd.block h).1] at hl
    split_ifs at hk hl with hcb hdb hdb
    · exact absurd (hcb.trans hdb.symm) hcd
    · subst hcb
      have hpath : p.block ∈ d.path := by
        rw [← hb.id]
        by_cases hroot : c = root
        · rw [hroot]
          exact h.forest.zero_mem_path d (hd.block h).1
        · exact h.forest.savepoints_sub_path d (hd.block h).1
            (hsub.subset (savepoints_self h.forest hb.mem hb.kind hroot))
      have hne : d.id ≠ p.block := fun heq =>
        hdb (h.forest.id_inj (hd.block h).1 hb.mem (heq.trans hb.id.symm))
      rw [nested d hd hpath hne] at hl
      cases hl
    · rcases List.mem_append.mp hl with hl | hl
      · exact hq.ordered c d hc hd hsub hcd k hk l (hdb ▸ hl)
      · rw [List.mem_singleton.mp hl]
        exact hq.lt_registered hc hk
    · exact hq.ordered c d hc hd hsub hcd k hk l hl

theorem Acquired.same (h : Acquired tx mid) : mid.scopes = tx.scopes ∧ mid.hooks = tx.hooks ∧
    mid.slot.lock = tx.slot.lock ∧ mid.outcome = tx.outcome := by
  rcases h with rfl | ⟨free, slot, hslot, rfl⟩
  · exact ⟨rfl, rfl, rfl, rfl⟩
  · exact ⟨rfl, rfl, (settle_quiet hslot free).free.trans free.symm, rfl⟩

/-- No callback waits in the outermost block that was registered in a retry step undone since. -/
def Tx.NoneUndone (tx : Tx) : Prop :=
  ∀ k ∈ tx.hooks.callbacks 0, ∀ p, tx.hooks.registered[k]? = some p →
    ∀ s ∈ tx.scopes.failed, ∀ n, s.kind = .step n → s.id ∉ p.path

/-- What the callers of `on_commit` have to see to. -/
def HooksAllowed (e : Event) (tx : Tx) : Prop :=
  match e with
  | .onCommit p => tx.outcome = none → tx.NoneNested p
  | .outermost true true => tx.NoneUndone
  | _ => True

def Tx.Queued (tx : Tx) : Prop := Atomic.Queued tx.slot.lock tx.scopes tx.hooks

private theorem dropped_lock (tx : Tx) (s : Scope) : (tx.dropped s).slot.lock = tx.slot.lock := by
  unfold Tx.dropped
  cases s.kind <;> rfl

theorem Turn.queued (ht : Turn e tx tx') (h : tx.Stacked os) (hq : tx.Queued)
    (allowed : ∀ p, e = .onCommit p → tx.NoneNested p) (out : tx'.outcome = none)
    (sound : tx'.slot.poisoned = false) : tx'.Queued := by
  obtain ⟨os', h'⟩ := ht.stacked h out sound
  have free (quiet : Quiet tx.slot) : ∀ t claimed,
      tx.slot.lock ≠ some (.finishing t true claimed) := by
    intro t claimed heq
    exact nomatch quiet.free.symm.trans heq
  have heldBy {hd : Holder} (held : tx.slot.lock = some hd)
      (hne : ∀ t claimed, hd ≠ .finishing t true claimed) :
      ∀ t claimed, tx.slot.lock ≠ some (.finishing t true claimed) := by
    intro t claimed heq
    exact hne t claimed (Option.some.inj (held.symm.trans heq))
  have noWrite {s : Scope} {n : Nat} (kind : s.kind = .step n) : s.kind ≠ .block := by
    intro heq
    exact nomatch kind.symm.trans heq
  cases ht with
  | givenUp poisoned => rw [poisoned] at sound; cases sound
  | refused => exact hq
  | lock mem quiet top =>
    exact Queued.relock hq h (free quiet) (fun _ _ heq => nomatch heq) fun _ _ heq => nomatch heq
  | unlock held =>
    exact Queued.relock hq h (heldBy held fun _ _ heq => nomatch heq)
      (fun _ _ heq => nomatch heq) fun _ _ heq => nomatch heq
  | write mem held => exact hq
  | join mem kind quiet top accepted =>
    exact Queued.add hq h quiet.free (fun heq => nomatch heq) h' (fun _ _ heq => nomatch heq)
      fun _ _ heq => nomatch heq
  | @joinCut _ p ran mem quiet top =>
    have hlock := (cutOff_same ran .savepoint (.sp (p.joined tx.scopes.next).depth)
      tx.slot).lock.trans quiet.free
    exact Queued.relock hq h (free quiet) (fun _ _ heq => nomatch hlock.symm.trans heq)
      fun _ _ heq => nomatch hlock.symm.trans heq
  | release held accepted =>
    have hkind := (h.held _ held).2.1
    exact Queued.keep hq h (fun heq => nomatch hkind.symm.trans heq) h' (.inr ⟨rfl, held⟩)
  | releaseCut ran held =>
    have hkind := (h.held _ held).2.1
    exact Queued.keep hq h (fun heq => nomatch hkind.symm.trans heq) h' (.inr ⟨rfl, held⟩)
  | retryPoint mem kind quiet top accepted =>
    have hlock := accepted.same.lock.trans quiet.free
    exact Queued.add hq h quiet.free (fun heq => nomatch heq) h'
      (fun _ _ heq => nomatch hlock.symm.trans heq) fun _ _ heq => nomatch hlock.symm.trans heq
  | retryPointCut ran quiet top =>
    have hlock := (cutOff_same ran .savepoint (.rp (tx.slot.retryPoints + 1))
      { tx.slot with retryPoints := tx.slot.retryPoints + 1 }).lock.trans quiet.free
    exact Queued.relock hq h (free quiet) (fun _ _ heq => nomatch hlock.symm.trans heq)
      fun _ _ heq => nomatch hlock.symm.trans heq
  | leavePoint mem kind past => exact Queued.keep hq h (noWrite kind) h' (.inl rfl)
  | keepPoint mem kind past quiet top accepted =>
    exact Queued.keep hq h (noWrite kind) h' (.inl accepted.same.lock)
  | undoPoint mem kind past quiet top undone =>
    exact Queued.keep hq h (noWrite kind) h' (.inl undone.same.lock)
  | @cutPoint _ s n slot keep ran mem kind past quiet top rolledBack =>
    have same : SameState tx.slot slot := by
      cases keep with
      | true => exact rolledBack ▸ .refl _
      | false => exact rolledBack.same
    have same' := same.trans (cutOff_same ran .release (.rp n) slot)
    exact Queued.keep hq h (noWrite kind) h' (.inl ((dropped_lock ..).trans same'.lock))
  | enter mem kind quiet top => exact Queued.enter hq h quiet.free rfl h'
  | opened held accepted => exact Queued.opened hq h held h'
  | openedLate held accepted =>
    exact Queued.relock hq h (heldBy held fun _ _ heq => nomatch heq)
      (fun _ _ heq => nomatch heq) fun _ _ heq => nomatch heq
  | leave ok mem kind nested past quiet =>
    cases ok with
    | true => exact Queued.blockLeaves hq h quiet.free mem kind nested h'
    | false =>
      exact Queued.blockFails hq h mem kind nested (over_alone past) h' (.inr ⟨quiet.free, rfl⟩)
  | keepBlock held top accepted => exact Queued.handOver hq h held top
  | undoBlock held top undone =>
    exact Queued.relock hq h (heldBy held fun _ _ heq => nomatch heq)
      (fun _ _ heq => nomatch heq) fun _ _ heq => nomatch heq
  | @drop _ _ s mem kind nested past =>
    cases hkind : s.kind with
    | block =>
      exact Queued.blockFails hq h mem hkind nested (over_alone past) h' (.inl (dropped_lock ..))
    | step n => exact Queued.keep hq h (noWrite hkind) h' (.inl (dropped_lock ..))
    | write => exact absurd hkind kind
  | dropJoined held =>
    have hkind := (h.held _ held).2.1
    exact Queued.keep hq h (fun heq => nomatch hkind.symm.trans heq) h' (.inr ⟨rfl, held⟩)
  | abandonOpening held => exact Queued.abandonOpening hq h held h'
  | @abandonFinishing _ s keep held =>
    have same : ∀ b, (∃ claimed, some (Holder.finishing s keep false) =
        some (.finishing b true claimed)) ↔ ∃ claimed, tx.slot.lock =
        some (.finishing b true claimed) := by
      intro b
      simp [held]
    exact Queued.steady hq h h.toLive (fun _ h => h) le_rfl (fun _ _ heq => nomatch heq)
      (fun b => or_congr_right (and_congr_left' (same b))) (fun _ h => h) fun _ h _ => h
  | onCommit mem kind => exact Queued.onCommit h hq mem kind (allowed _ rfl)
  | fatal => exact hq
  | failed outcome => rw [outcome] at out; cases out
  | commit => cases out

/-- Every scope around the registration kept its writes. -/
def Tx.Kept (tx : Tx) (p : Scope) : Prop := ∀ s ∈ tx.scopes.failed, s.id ∉ p.path

/-- The callbacks of a committed transaction, called or still to be called. -/
def Hooks.fired (hooks : Hooks) : List Nat := hooks.ran ++ hooks.firing

/-- After the commit, with `n` callbacks registered before it. -/
structure Fired (tx : Tx) (n : Nat) : Prop where
  root : tx.Kept root
  le : n ≤ tx.hooks.registered.length
  waiting : ∀ k ∈ tx.hooks.firing, k < n
  late : ∀ k, n ≤ k → k < tx.hooks.registered.length → k ∈ tx.hooks.ran
  registered : ∀ k ∈ tx.hooks.fired, k < tx.hooks.registered.length
  nodup : tx.hooks.fired.Nodup
  kept : ∀ k p, tx.hooks.registered[k]? = some p → (k ∈ tx.hooks.fired ↔ tx.Kept p)
  ordered : (tx.hooks.fired.filter (· < n)).Pairwise (· < ·)

/-- What is known of the callbacks in any state of a run. -/
def Hooked (tx : Tx) : Prop :=
  match tx.outcome with
  | none => tx.hooks.fired = [] ∧
      (tx.slot.poisoned = false → ∃ os, tx.Stacked os ∧ tx.Queued)
  | some .failed => tx.hooks.fired = []
  | some (.committed _ n) => Fired tx n

private theorem hooked_none (hout : tx.outcome = none) : Hooked tx ↔ tx.hooks.fired = [] ∧
    (tx.slot.poisoned = false → ∃ os, tx.Stacked os ∧ tx.Queued) := by
  unfold Hooked
  rw [hout]

private theorem hooked_failed (hout : tx.outcome = some .failed) :
    Hooked tx ↔ tx.hooks.fired = [] := by
  unfold Hooked
  rw [hout]

private theorem hooked_committed {writes : List Write} (hout : tx.outcome = some (.committed writes n)) :
    Hooked tx ↔ Fired tx n := by
  unfold Hooked
  rw [hout]

/-- The outermost block commits: only its own queue is left. -/
theorem Queued.commit {writes : List Write} (h : tx.Stacked os) (hq : tx.Queued)
    (free : tx.slot.lock = none) (past : tx.over root = true) (ran : tx.hooks.ran = [])
    (undone : tx.NoneUndone) :
    Fired { tx with
      hooks := tx.hooks.taken
      outcome := some (.committed writes tx.hooks.registered.length) }
      tx.hooks.registered.length := by
  have only : ∀ b, Standing tx.slot.lock tx.scopes b → b = root := by
    intro b hb
    rcases hb with ⟨hlive, _⟩ | ⟨⟨claimed, heq⟩, _⟩
    · exact over_alone past b hlive (h.forest.zero_mem_path b (h.live_mem b hlive))
    · exact nomatch free.symm.trans heq
  have hroot : Standing tx.slot.lock tx.scopes root := standing_live h.root rfl
  have fired : tx.hooks.taken.fired = tx.hooks.callbacks 0 := by
    rw [Hooks.fired, Hooks.taken, ran, List.nil_append]
  have lt : ∀ k ∈ tx.hooks.callbacks 0, k < tx.hooks.registered.length :=
    fun k hk => Atomic.Queued.lt_registered hq hroot hk
  have sorted : (tx.hooks.callbacks 0).Pairwise (· < ·) := hq.sorted root hroot
  refine ⟨fun s hs hpath => h.not_failed h.root hs hpath, le_rfl, lt,
    fun k hk hlt => absurd hlt hk.not_gt, fired ▸ lt, fired ▸ sorted.imp fun hlt => hlt.ne,
    fun k p hp => ?_, fired ▸ sorted.filter _⟩
  · rw [fired]
    constructor
    · intro hk s hs hpath
      obtain ⟨q, hq', hplaced⟩ := hq.placed root hroot k hk
      obtain rfl := Option.some.inj (hp.symm.trans hq')
      obtain ⟨hall, hkind⟩ := hq.known p (List.mem_of_getElem? hp)
      cases hsk : s.kind with
      | block => exact hplaced.kept s hs hsk hpath
      | step n => exact undone k hk p hp s hs n hsk hpath
      | write =>
        have heq := h.forest.write_alone (h.failed_mem s hs) hsk p hall hpath
        exact hkind (heq ▸ hsk)
    · intro hkept
      rcases hq.found k p hp with ⟨s, hs, _, hpath⟩ | ⟨b, hb, hk⟩
      · exact absurd hpath (hkept s hs)
      · obtain rfl := only b hb
        exact hk

/-- A callback that is called moves from those waiting to those that ran. -/
theorem Fired.fire {panics : Bool} {next : Hooks × Bool} (h : Fired tx n)
    (hf : fire tx.hooks panics = some next) : Fired { tx with hooks := next.1 } n := by
  unfold Atomic.fire at hf
  split at hf
  · cases hf
  · rename_i callback rest hfiring
    obtain rfl := Option.some.inj hf
    have same : Hooks.fired { tx.hooks with firing := rest, ran := tx.hooks.ran ++ [callback] } =
        tx.hooks.fired := by
      rw [Hooks.fired, Hooks.fired, hfiring, List.append_assoc]
      rfl
    refine ⟨h.root, h.le, fun k hk => h.waiting k (hfiring ▸ List.mem_cons_of_mem _ hk),
      fun k hk hlt => List.mem_append_left _ (h.late k hk hlt), ?_, ?_, ?_, ?_⟩
    · rw [same]
      exact h.registered
    · rw [same]
      exact h.nodup
    · rw [same]
      exact h.kept
    · rw [same]
      exact h.ordered

/-- A callback registered by another runs at once. -/
theorem Fired.onCommitted (h : Fired tx n) :
    Fired { tx with hooks := onCommitted tx.hooks } n := by
  have mem : ∀ k, k ∈ (Atomic.onCommitted tx.hooks).fired ↔
      k ∈ tx.hooks.fired ∨ k = tx.hooks.registered.length := by
    intro k
    simp only [Hooks.fired, Atomic.onCommitted, List.mem_append, List.mem_singleton]
    tauto
  have len : (Atomic.onCommitted tx.hooks).registered.length =
      tx.hooks.registered.length + 1 := List.length_append
  refine ⟨h.root, ?_, h.waiting, fun k hk hlt => ?_, fun k hk => ?_, ?_, fun k p hp => ?_, ?_⟩
  · exact len ▸ h.le.trans (Nat.le_succ _)
  · rcases Nat.lt_or_ge k tx.hooks.registered.length with hold | hge
    · exact List.mem_append_left _ (h.late k hk hold)
    · have hlt' := len ▸ hlt
      exact List.mem_append_right _ (List.mem_singleton.mpr (by omega))
  · have hk' := (mem k).mp hk
    have hold := h.registered k
    rcases hk' with hk' | rfl
    · exact len ▸ Nat.lt_succ_of_lt (hold hk')
    · exact len ▸ Nat.lt_succ_self _
  · have hnew : tx.hooks.registered.length ∉ tx.hooks.fired := fun hk =>
      (h.registered _ hk).ne rfl
    have hperm : (Atomic.onCommitted tx.hooks).fired.Perm
        (tx.hooks.registered.length :: tx.hooks.fired) := by
      rw [Hooks.fired, Atomic.onCommitted, List.append_assoc]
      exact List.perm_middle
    exact hperm.nodup_iff.mpr (List.nodup_cons.mpr ⟨hnew, h.nodup⟩)
  · rw [mem]
    rcases Nat.lt_or_ge k tx.hooks.registered.length with hlt | hge
    · have hp' : tx.hooks.registered[k]? = some p :=
        (List.getElem?_append_left hlt).symm.trans hp
      exact (or_iff_left hlt.ne).trans (h.kept k p hp')
    · have hlt := len ▸ (List.getElem?_eq_some_iff.mp hp).1
      obtain rfl : k = tx.hooks.registered.length := by omega
      have hroot : p = Atomic.root :=
        (Option.some.inj ((List.getElem?_concat_length ..).symm.trans hp)).symm
      exact iff_of_true (.inr rfl) (hroot ▸ h.root)
  · have same : (Atomic.onCommitted tx.hooks).fired.filter (· < n) =
        tx.hooks.fired.filter (· < n) := by
      have hnew : ¬ tx.hooks.registered.length < n := h.le.not_gt
      simp [Hooks.fired, Atomic.onCommitted, List.filter_append, hnew]
    rw [same]
    exact h.ordered

private theorem hooked_initial (answers : Nat → Bool) : Hooked (Tx.initial answers) :=
  ⟨rfl, fun _ => ⟨[], stacked_initial answers, queued_initial answers⟩⟩

theorem Turn.ending (ht : Turn e tx tx') (out : tx.outcome = none) :
    (tx'.outcome = none ∧ tx'.hooks.fired = tx.hooks.fired) ∨
      (tx'.outcome = some .failed ∧ tx'.hooks = tx.hooks) ∨
      (e = .outermost true true ∧ tx.over root = true ∧ Quiet tx.slot ∧
        tx' = { tx with
          hooks := tx.hooks.taken
          outcome := some (.committed (writes tx.slot.log) tx.hooks.registered.length) }) := by
  cases ht with
  | givenUp poisoned outcome hooks => exact .inl ⟨outcome, hooks ▸ rfl⟩
  | failed outcome hooks => exact .inr (.inl ⟨outcome, hooks⟩)
  | commit past quiet top => exact .inr (.inr ⟨rfl, past, quiet, rfl⟩)
  | _ => exact .inl ⟨out, rfl⟩

/-- A turn before the end keeps what is known of the callbacks. -/
private theorem hooked_turn (hmid : Acquired tx mid) (ht : Turn e mid tx') (out : tx.outcome = none)
    (allowed : HooksAllowed e tx) (fired : tx.hooks.fired = [])
    (h : tx.slot.poisoned = false → ∃ os, tx.Stacked os ∧ tx.Queued) : Hooked tx' := by
  obtain ⟨scopes, hooks, lock, outcome⟩ := hmid.same
  have queued : mid.slot.poisoned = false → ∃ os, mid.Stacked os ∧ mid.Queued := by
    intro sound
    have sound' : tx.slot.poisoned = false := by
      rcases hmid with rfl | ⟨_, slot, hslot, rfl⟩
      · exact sound
      · exact (settle_ok hslot).1
    obtain ⟨os, hstack, hq⟩ := h sound'
    obtain ⟨os', hstack'⟩ := hmid.stacked hstack
    refine ⟨os', hstack', ?_⟩
    unfold Tx.Queued
    rw [scopes, hooks, lock]
    exact hq
  rcases ht.ending (outcome.trans out) with ⟨out', hfired⟩ | ⟨out', hhooks⟩ |
    ⟨rfl, past, quiet, rfl⟩
  · refine (hooked_none out').mpr ⟨hfired.trans (hooks ▸ fired), fun sound' => ?_⟩
    cases hp : mid.slot.poisoned with
    | true =>
      rw [ht.poisoned hp out'] at sound'
      cases sound'
    | false =>
      obtain ⟨os, hstack, hq⟩ := queued hp
      obtain ⟨os', hstack'⟩ := ht.stacked hstack out' sound'
      refine ⟨os', hstack', ht.queued hstack hq (fun p heq => ?_) out' sound'⟩
      subst heq
      intro c hc hpath hne
      rw [lock, scopes] at hc
      rw [hooks]
      exact allowed out c hc hpath hne
  · refine (hooked_failed out').mpr ?_
    rw [hhooks, hooks]
    exact fired
  · obtain ⟨os, hstack, hq⟩ := queued quiet.sound
    refine (hooked_committed rfl).mpr (Queued.commit hstack hq quiet.free past ?_ ?_)
    · rw [hooks]
      exact (List.append_eq_nil_iff.mp fired).1
    · unfold Tx.NoneUndone
      rw [hooks, scopes]
      exact allowed

private theorem hooked_step (allowed : HooksAllowed e tx) (h : Hooked tx) (hs : step e tx = some tx') :
    Hooked tx' := by
  unfold step at hs
  cases hout : tx.outcome with
  | none =>
    rw [hout] at hs
    obtain ⟨hfired, hsound⟩ := (hooked_none hout).mp h
    obtain ⟨mid, hmid, hturn⟩ := running_turns hs hout
    exact hooked_turn hmid hturn hout allowed hfired hsound
  | some ending =>
    rw [hout] at hs
    cases ending with
    | failed => cases hs
    | committed writes n =>
      have hf := (hooked_committed hout).mp h
      cases e with
      | fire panics =>
        obtain ⟨next, hnext, rfl⟩ := Option.map_eq_some_iff.mp hs
        have hout' : ({ tx with hooks := next.1 } : Tx).outcome = some (.committed writes n) := hout
        exact (hooked_committed hout').mpr (hf.fire hnext)
      | onCommit p =>
        obtain rfl := Option.some.inj hs
        have hout' : ({ tx with hooks := onCommitted tx.hooks } : Tx).outcome =
          some (.committed writes n) := hout
        exact (hooked_committed hout').mpr hf.onCommitted
      | _ => cases hs

private theorem fire_all {writes : List Write} (hout : tx.outcome = some (.committed writes n))
    (panics : List Bool) (hlen : panics.length = tx.hooks.firing.length) :
    ∃ tx', steps step (panics.map .fire) tx = some tx' ∧ tx'.hooks.ran = tx.hooks.fired ∧
      tx'.hooks.firing = [] := by
  induction panics generalizing tx with
  | nil =>
    have hempty : tx.hooks.firing = [] := List.length_eq_zero_iff.mp hlen.symm
    exact ⟨tx, rfl, by rw [Hooks.fired, hempty, List.append_nil], hempty⟩
  | cons panic panics ih =>
    cases hfiring : tx.hooks.firing with
    | nil =>
      rw [hfiring] at hlen
      cases hlen
    | cons callback rest =>
      let next : Tx := { tx with
        hooks := { tx.hooks with firing := rest, ran := tx.hooks.ran ++ [callback] } }
      have hstep : step (.fire panic) tx = some next := by
        unfold step
        rw [hout]
        simp only [ended, fire, hfiring, Option.map_some, next]
      have hrest : panics.length = next.hooks.firing.length := by
        rw [hfiring] at hlen
        exact Nat.succ.inj hlen
      have hout' : next.outcome = some (.committed writes n) := hout
      obtain ⟨tx', hsteps, hran, hdone⟩ := ih hout' hrest
      refine ⟨tx', ?_, hran.trans ?_, hdone⟩
      · rw [List.map_cons, steps, hstep]
        exact hsteps
      · rw [Hooks.fired, Hooks.fired, hfiring, List.append_assoc]
        rfl

/-- The callbacks of a transaction follow the fate of the scopes they were registered in. -/
structure HooksFollow (tx : Tx) : Prop where
  once : tx.hooks.fired.Nodup
  afterCommit : tx.hooks.fired ≠ [] → ∃ writes n, tx.outcome = some (.committed writes n)
  kept : ∀ writes n, tx.outcome = some (.committed writes n) →
    ∀ k p, tx.hooks.registered[k]? = some p → (k ∈ tx.hooks.fired ↔ tx.Kept p)
  inOrder : ∀ writes n, tx.outcome = some (.committed writes n) →
    (tx.hooks.fired.filter (· < n)).Pairwise (· < ·)
  /-- What a callback registers has run when it returns. -/
  atOnce : ∀ writes n, tx.outcome = some (.committed writes n) →
    ∀ k, n ≤ k → k < tx.hooks.registered.length → k ∈ tx.hooks.ran
  /-- The callbacks still waiting run, whichever of them panic. -/
  panics : ∀ writes n, tx.outcome = some (.committed writes n) →
    ∀ panics : List Bool, panics.length = tx.hooks.firing.length →
      ∃ tx', steps step (panics.map .fire) tx = some tx' ∧ tx'.hooks.ran = tx.hooks.fired ∧
        tx'.hooks.firing = []

theorem Hooked.follow (h : Hooked tx) : HooksFollow tx := by
  cases hout : tx.outcome with
  | none =>
    have hempty := ((hooked_none hout).mp h).1
    refine ⟨hempty ▸ .nil, fun hne => absurd hempty hne, ?_, ?_, ?_, ?_⟩ <;>
    · intro writes n heq
      exact nomatch hout.symm.trans heq
  | some ending =>
    cases ending with
    | failed =>
      have hempty := (hooked_failed hout).mp h
      refine ⟨hempty ▸ .nil, fun hne => absurd hempty hne, ?_, ?_, ?_, ?_⟩ <;>
      · intro writes n heq
        exact nomatch hout.symm.trans heq
    | committed writes n =>
      have hf := (hooked_committed hout).mp h
      refine ⟨hf.nodup, fun _ => ⟨writes, n, hout⟩, fun ws m heq => ?_, fun ws m heq => ?_,
        fun ws m heq => ?_, fun ws m heq => fire_all heq⟩
      all_goals cases hout.symm.trans heq
      · exact hf.kept
      · exact hf.ordered
      · exact hf.late

/-- A block around the running task, with the innermost scope of its transaction around it. -/
structure Frame (P : Type) where
  pool : P
  tx : Nat
  scope : Scope

/-- What a task does next, given the blocks around it, innermost first. -/
inductive Move (P : Type) where
  /-- `atomic`; `answers` are the server's, should a transaction begin. -/
  | atomic (around : List (Frame P)) (pool : P) (answers : Nat → Bool)
  | onCommit (around : List (Frame P))
  | other (tx : Nat) (e : Event)

variable {P : Type} [DecidableEq P]

/-- `block_on` -/
def blockOn (pool : P) (around : List (Frame P)) : Option (Frame P) :=
  around.find? fun f => f.pool = pool

/-- A step of one of the transactions. -/
def stepAt (t : Nat) (e : Event) (txs : List Tx) : Option (List Tx) :=
  txs[t]?.bind fun tx => (step e tx).map fun tx' => txs.set t tx'

/-- The transactions, of any pools; one on another pool begins anew. -/
def moves : Move P → List Tx → Option (List Tx)
  | .atomic around pool answers, txs =>
    match blockOn pool around with
    | some f => stepAt f.tx (.enter f.scope) txs
    | none => some (txs ++ [Tx.initial answers])
  | .onCommit around, txs =>
    match around with
    | f :: _ => stepAt f.tx (.onCommit f.scope) txs
    | [] => none
  | .other t e, txs => stepAt t e txs

def MoveAllowed : Move P → List Tx → Prop
  | .atomic _ _ _, _ => True
  | .onCommit around, txs =>
    ∀ f tx, around.head? = some f → txs[f.tx]? = some tx → HooksAllowed (.onCommit f.scope) tx
  | .other t e, txs => ∀ tx, txs[t]? = some tx → HooksAllowed e tx

private theorem hooked_stepAt {t : Nat} {txs txs' : List Tx} (h : ∀ tx ∈ txs, Hooked tx)
    (allowed : ∀ tx, txs[t]? = some tx → HooksAllowed e tx) (hs : stepAt t e txs = some txs') :
    ∀ tx ∈ txs', Hooked tx := by
  obtain ⟨tx, htx, hs⟩ := Option.bind_eq_some_iff.mp hs
  obtain ⟨tx', htx', rfl⟩ := Option.map_eq_some_iff.mp hs
  intro q hq
  rcases List.mem_or_eq_of_mem_set hq with hq | rfl
  · exact h q hq
  · exact hooked_step (allowed tx htx) (h tx (List.mem_of_getElem? htx)) htx'

private theorem hooked_moves {m : Move P} {txs txs' : List Tx} (allowed : MoveAllowed m txs)
    (hs : moves m txs = some txs') (h : ∀ tx ∈ txs, Hooked tx) : ∀ tx ∈ txs', Hooked tx := by
  cases m with
  | atomic around pool answers =>
    simp only [moves] at hs
    split at hs
    · rename_i f _
      have allowed : ∀ tx, txs[f.tx]? = some tx → HooksAllowed (.enter f.scope) tx :=
        fun _ _ => trivial
      exact hooked_stepAt h allowed hs
    · obtain rfl := Option.some.inj hs
      intro tx htx
      rcases List.mem_append.mp htx with htx | htx
      · exact h tx htx
      · rw [List.mem_singleton.mp htx]
        exact hooked_initial answers
  | onCommit around =>
    cases around with
    | nil => cases hs
    | cons f rest => exact hooked_stepAt h (fun tx htx => allowed f tx rfl htx) hs
  | other t e => exact hooked_stepAt h allowed hs

/-- `get_or_create` in a block: its `create` registers a callback and fails. -/
private def undoneStep : List (Move Unit) :=
  [.atomic [] () fun _ => true, .other 0 (.retryPoint root .awaited),
    .onCommit [⟨(), 0, root.step 1 1⟩], .other 0 (.endPoint (root.step 1 1) false .awaited),
    .other 0 (.outermost true true), .other 0 (.fire false)]

/-- A block and one nested in it are joined: the nested one registers first and ends last. -/
private def joinedBlocks : List (Move Unit) :=
  [.atomic [] () fun _ => true, .atomic [⟨(), 0, root⟩] () fun _ => true, .other 0 .opened,
    .onCommit [⟨(), 0, root.nested 1⟩, ⟨(), 0, root⟩], .onCommit [⟨(), 0, root⟩],
    .other 0 (.leave (root.nested 1) true), .other 0 .finished, .other 0 (.outermost true true)]

end Rustango.Atomic
