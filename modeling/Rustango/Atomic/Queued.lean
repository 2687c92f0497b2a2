import Rustango.Atomic.Stack

/-!
# Where the queued callbacks are

A block stands as long as its callbacks may still reach the outermost block. A callback queued in a
standing block was registered inside it and inside no block that failed, and a callback that is in
no standing block was registered inside one that failed.
-/

namespace Rustango.Atomic

open Function Savepoints

variable {scopes scopes' : Scopes} {lock lock' : Option Holder} {hooks : Hooks} {os : List Nat}
  {tx mid tx' : Tx} {slot slot' : Slot} {e : Event} {p q s w : Scope} {b c : Scope} {k n : Nat}

/-- The block runs, or its end keeps it and the block around it runs. -/
def Standing (lock : Option Holder) (scopes : Scopes) (b : Scope) : Prop :=
  (b ∈ scopes.live ∧ b.kind = .block) ∨
    (∃ claimed, lock = some (.finishing b true claimed)) ∧ ∃ a ∈ scopes.live, Around scopes.all b a

/-- The scope of a queued callback, seen from the block it is queued in. -/
structure Placed (lock : Option Holder) (scopes : Scopes) (b p : Scope) : Prop where
  inside : b.savepoints <:+ p.savepoints
  innermost : ∀ c, Standing lock scopes c → c.id ∈ p.path → c.savepoints <:+ b.savepoints
  kept : ∀ s ∈ scopes.failed, s.kind = .block → s.id ∉ p.path

structure Queued (lock : Option Holder) (scopes : Scopes) (hooks : Hooks) : Prop where
  known : ∀ p ∈ hooks.registered, p ∈ scopes.all ∧ p.kind ≠ .write
  unused : ∀ i, scopes.next ≤ i → hooks.callbacks i = []
  opening : ∀ s abandoned, lock = some (.opening s abandoned) →
    hooks.callbacks s.id = [] ∧ ∀ p ∈ hooks.registered, s.id ∉ p.path
  sorted : ∀ b, Standing lock scopes b → (hooks.callbacks b.id).Pairwise (· < ·)
  placed : ∀ b, Standing lock scopes b → ∀ k ∈ hooks.callbacks b.id,
    ∃ p, hooks.registered[k]? = some p ∧ Placed lock scopes b p
  found : ∀ k p, hooks.registered[k]? = some p →
    (∃ s ∈ scopes.failed, s.kind = .block ∧ s.id ∈ p.path) ∨
      ∃ b, Standing lock scopes b ∧ k ∈ hooks.callbacks b.id
  ordered : ∀ b c, Standing lock scopes b → Standing lock scopes c →
    b.savepoints <:+ c.savepoints → b ≠ c →
    ∀ k ∈ hooks.callbacks b.id, ∀ l ∈ hooks.callbacks c.id, k < l

theorem queued_initial (answers : Nat → Bool) :
    Queued none (Tx.initial answers).scopes (Tx.initial answers).hooks where
  known _ h := nomatch h
  unused _ _ := rfl
  opening _ _ h := nomatch h
  sorted _ _ := .nil
  placed _ _ _ h := nomatch h
  found _ _ h := nomatch h
  ordered _ _ _ _ _ _ _ h := nomatch h

theorem standing_live (hs : b ∈ scopes.live) (hkind : b.kind = .block) :
    Standing lock scopes b := .inl ⟨hs, hkind⟩

theorem standing_iff_live (hl : ∀ s claimed, lock ≠ some (.finishing s true claimed)) :
    Standing lock scopes b ↔ b ∈ scopes.live ∧ b.kind = .block :=
  or_iff_left fun ⟨⟨claimed, heq⟩, _⟩ => hl b claimed heq

theorem Standing.block {depth cancelled : Nat} (h : Stack depth cancelled lock scopes os)
    (hb : Standing lock scopes b) : b ∈ scopes.all ∧ b.kind = .block := by
  rcases hb with ⟨hlive, hkind⟩ | ⟨⟨claimed, heq⟩, _⟩
  · exact ⟨h.live_mem b hlive, hkind⟩
  · obtain ⟨hall, hkind, _⟩ := h.held _ heq
    exact ⟨hall, hkind⟩

theorem savepoints_self (hf : Forest scopes.all) (hs : s ∈ scopes.all) (hkind : s.kind = .block)
    (hroot : s ≠ root) : s.id ∈ s.savepoints := by
  obtain ⟨a, ha⟩ := hf.around s hs hkind hroot
  exact ha.savepoints ▸ List.mem_cons_self

/-- The queues stay as they are, some blocks stop to stand, and new ones are empty. -/
theorem Queued.frame {depth cancelled : Nat} (h : Queued lock scopes hooks)
    (hstack : Stack depth cancelled lock scopes os) (live : Live scopes')
    (all : scopes.all ⊆ scopes'.all) (next : scopes.next ≤ scopes'.next)
    (opening : ∀ s abandoned, lock' = some (.opening s abandoned) →
      hooks.callbacks s.id = [] ∧ ∀ p ∈ hooks.registered, s.id ∉ p.path)
    (stand : ∀ b, Standing lock' scopes' b → Standing lock scopes b ∨
      hooks.callbacks b.id = [] ∧ ∀ p ∈ hooks.registered, b.id ∉ p.path)
    (lost : ∀ b, Standing lock scopes b → Standing lock' scopes' b ∨
      ∃ s ∈ scopes'.failed, s.kind = .block ∧ s.id ∈ b.savepoints)
    (failed : ∀ s ∈ scopes.failed, s ∈ scopes'.failed)
    (newly : ∀ s ∈ scopes'.failed, s.kind = .block → s ∈ scopes.failed ∨
      (∀ p ∈ hooks.registered, s.id ∉ p.path) ∨
      Standing lock scopes s ∧ ∀ b, Standing lock' scopes' b → s.id ∉ b.savepoints) :
    Queued lock' scopes' hooks := by
  have old : ∀ b, Standing lock' scopes' b → ∀ k ∈ hooks.callbacks b.id,
      Standing lock scopes b := by
    intro b hb k hk
    refine (stand b hb).resolve_right fun hempty => ?_
    rw [hempty.1] at hk
    cases hk
  refine ⟨fun p hp => ⟨all (h.known p hp).1, (h.known p hp).2⟩,
    fun i hi => h.unused i (next.trans hi), opening, fun b hb => ?_, fun b hb k hk => ?_,
    fun k p hp => ?_, fun b c hb hc hsub hne k hk l hl => ?_⟩
  · rcases stand b hb with hb' | ⟨hempty, _⟩
    · exact h.sorted b hb'
    · rw [hempty]
      exact .nil
  · have hb' := old b hb k hk
    obtain ⟨p, hp, hplaced⟩ := h.placed b hb' k hk
    have hreg : p ∈ hooks.registered := List.mem_of_getElem? hp
    refine ⟨p, hp, hplaced.inside, fun c hc hpath => ?_, fun s hs hkind hpath => ?_⟩
    · rcases stand c hc with hc' | ⟨_, hfresh⟩
      · exact hplaced.innermost c hc' hpath
      · exact absurd hpath (hfresh p hreg)
    · rcases newly s hs hkind with hs' | hfresh | ⟨hstand, hout⟩
      · exact hplaced.kept s hs' hkind hpath
      · exact hfresh p hreg hpath
      · have hroot : s ≠ root := fun heq => live.apart s hs (heq ▸ live.root)
        have hself := savepoints_self hstack.forest (hstand.block hstack).1 hkind hroot
        exact hout b hb ((hplaced.innermost s hstand hpath).subset hself)
  · rcases h.found k p hp with ⟨s, hs, hrest⟩ | ⟨b, hb, hk⟩
    · exact .inl ⟨s, failed s hs, hrest⟩
    · rcases lost b hb with hb' | ⟨s, hs, hkind, hmem⟩
      · exact .inr ⟨b, hb', hk⟩
      · obtain ⟨p', hp', hplaced⟩ := h.placed b hb k hk
        obtain rfl := Option.some.inj (hp.symm.trans hp')
        have hsub := hstack.forest.savepoints_sub_path p (h.known p (List.mem_of_getElem? hp)).1
        exact .inl ⟨s, hs, hkind, hsub (hplaced.inside.subset hmem)⟩
  · exact h.ordered b c (old b hb k hk) (old c hc l hl) hsub hne k hk l hl

theorem Queued.steady {depth cancelled : Nat} (h : Queued lock scopes hooks)
    (hstack : Stack depth cancelled lock scopes os) (live : Live scopes')
    (all : scopes.all ⊆ scopes'.all) (next : scopes.next ≤ scopes'.next)
    (opening : ∀ s abandoned, lock' = some (.opening s abandoned) →
      hooks.callbacks s.id = [] ∧ ∀ p ∈ hooks.registered, s.id ∉ p.path)
    (stand : ∀ b, Standing lock' scopes' b ↔ Standing lock scopes b)
    (failed : ∀ s ∈ scopes.failed, s ∈ scopes'.failed)
    (newly : ∀ s ∈ scopes'.failed, s.kind = .block → s ∈ scopes.failed) :
    Queued lock' scopes' hooks :=
  h.frame hstack live all next opening (fun b hb => .inl ((stand b).mp hb))
    (fun b hb => .inl ((stand b).mpr hb)) failed fun s hs hkind => .inl (newly s hs hkind)

theorem Queued.relock {depth cancelled : Nat} (h : Queued lock scopes hooks)
    (hstack : Stack depth cancelled lock scopes os)
    (hl : ∀ s claimed, lock ≠ some (.finishing s true claimed))
    (hl' : ∀ s claimed, lock' ≠ some (.finishing s true claimed))
    (ho : ∀ s abandoned, lock' ≠ some (.opening s abandoned)) : Queued lock' scopes hooks :=
  h.steady hstack hstack.toLive (fun _ h => h) le_rfl (fun _ _ heq => absurd heq (ho _ _))
    (fun _ => (standing_iff_live hl').trans (standing_iff_live hl).symm) (fun _ h => h)
    fun _ h _ => h

/-- A scope that is no block is opened while the transaction is free. -/
theorem Queued.add {depth cancelled depth' cancelled' : Nat} {os' : List Nat}
    (h : Queued lock scopes hooks) (hstack : Stack depth cancelled lock scopes os)
    (free : lock = none) (kind : s.kind ≠ .block)
    (hstack' : Stack depth' cancelled' lock' (scopes.add s) os')
    (hl' : ∀ s claimed, lock' ≠ some (.finishing s true claimed))
    (ho : ∀ s abandoned, lock' ≠ some (.opening s abandoned)) :
    Queued lock' (scopes.add s) hooks := by
  have hl : ∀ s claimed, lock ≠ some (.finishing s true claimed) := by
    intro s claimed heq
    exact nomatch free.symm.trans heq
  refine h.steady hstack hstack'.toLive (List.subset_cons_self _ _) (Nat.le_succ _)
    (fun s abandoned heq => absurd heq (ho _ _)) (fun b => ?_) (fun _ h => h) fun _ h _ => h
  rw [standing_iff_live hl', standing_iff_live hl]
  refine and_congr_left fun hkind => ?_
  exact ⟨fun hb => (List.mem_cons.mp hb).resolve_left fun heq => kind (heq ▸ hkind),
    List.mem_cons_of_mem _⟩

/-- A scope that is no block ends. -/
theorem Queued.keep {depth cancelled depth' cancelled' : Nat} {os' : List Nat} {kept : Bool}
    (h : Queued lock scopes hooks) (hstack : Stack depth cancelled lock scopes os)
    (kind : s.kind ≠ .block) (hstack' : Stack depth' cancelled' lock' (scopes.keep s kept) os')
    (hlock : lock' = lock ∨ lock' = none ∧ lock = some (.joined s)) :
    Queued lock' (scopes.keep s kept) hooks := by
  have hlive : ∀ b, b.kind = .block → (b ∈ (scopes.keep s kept).live ↔ b ∈ scopes.live) := by
    intro b hb
    rw [mem_live_keep]
    exact and_iff_left fun heq => kind (heq ▸ hb)
  refine h.steady hstack hstack'.toLive (fun _ h => h) le_rfl (fun t abandoned heq => ?_)
    (fun b => ?_) (fun t ht => mem_failed_keep.mpr (.inl ht)) fun t ht hkind => ?_
  · rcases hlock with rfl | ⟨rfl, _⟩
    · exact h.opening t abandoned heq
    · cases heq
  · have finishing : (∃ claimed, lock' = some (.finishing b true claimed)) ↔
        ∃ claimed, lock = some (.finishing b true claimed) := by
      rcases hlock with rfl | ⟨rfl, rfl⟩
      · rfl
      · simp
    refine or_congr (and_congr_left fun hb => hlive b hb) (and_congr finishing ?_)
    exact ⟨fun ⟨a, ha, haround⟩ => ⟨a, (hlive a haround.kind).mp ha, haround⟩,
      fun ⟨a, ha, haround⟩ => ⟨a, (hlive a haround.kind).mpr ha, haround⟩⟩
  · exact (mem_failed_keep.mp ht).resolve_right fun heq => kind (heq.2 ▸ hkind)

/-- A nested block fails: its callbacks, and those of a block inside it, are never taken. -/
theorem Queued.blockFails {depth cancelled depth' cancelled' : Nat} {os' : List Nat}
    (h : Queued lock scopes hooks) (hstack : Stack depth cancelled lock scopes os)
    (hs : s ∈ scopes.live) (hkind : s.kind = .block) (hroot : s ≠ root)
    (alone : ∀ q ∈ scopes.live, s.id ∈ q.path → q = s)
    (hstack' : Stack depth' cancelled' lock' (scopes.keep s false) os')
    (hlock : lock' = lock ∨ lock = none ∧ lock' = some (.finishing s false true)) :
    Queued lock' (scopes.keep s false) hooks := by
  have hall := hstack.live_mem s hs
  have finishing : ∀ b, (∃ claimed, lock' = some (.finishing b true claimed)) →
      ∃ claimed, lock = some (.finishing b true claimed) := by
    rintro b ⟨claimed, heq⟩
    rcases hlock with rfl | ⟨_, rfl⟩
    · exact ⟨claimed, heq⟩
    · cases heq
  have around : ∀ b a, a ∈ scopes.live → Around scopes.all b a → s.id ∈ b.savepoints →
      b ∉ scopes.live → b ∈ scopes.all → a = s := by
    intro b a ha haround hmem hb hball
    rw [haround.savepoints] at hmem
    rcases List.mem_cons.mp hmem with heq | hmem
    · exact absurd (hstack.forest.id_inj hall hball heq ▸ hs) hb
    · exact alone a ha (hstack.forest.savepoints_sub_path a (hstack.live_mem a ha) hmem)
  refine h.frame hstack hstack'.toLive (fun _ h => h) le_rfl (fun t abandoned heq => ?_)
    (fun b hb => .inl ?_) (fun b hb => ?_) (fun t ht => mem_failed_keep.mpr (.inl ht))
    fun t ht _ => ?_
  · rcases hlock with rfl | ⟨_, rfl⟩
    · exact h.opening t abandoned heq
    · cases heq
  · rcases hb with ⟨hb, hbk⟩ | ⟨hfin, a, ha, haround⟩
    · exact standing_live (mem_live_keep.mp hb).1 hbk
    · exact .inr ⟨finishing b hfin, a, (mem_live_keep.mp ha).1, haround⟩
  · have hsf : s ∈ (scopes.keep s false).failed := mem_failed_keep.mpr (.inr ⟨rfl, rfl⟩)
    rcases hb with ⟨hb, hbk⟩ | ⟨⟨claimed, heq⟩, a, ha, haround⟩
    · by_cases hbs : b = s
      · refine .inr ⟨s, hsf, hkind, ?_⟩
        rw [hbs]
        exact savepoints_self hstack.forest hall hkind hroot
      · exact .inl (standing_live (mem_live_keep.mpr ⟨hb, hbs⟩) hbk)
    · by_cases has : a = s
      · refine .inr ⟨s, hsf, hkind, ?_⟩
        rw [haround.savepoints, has]
        exact List.mem_cons_of_mem _ (savepoints_self hstack.forest hall hkind hroot)
      · rcases hlock with rfl | ⟨free, _⟩
        · exact .inl (.inr ⟨⟨claimed, heq⟩, a, mem_live_keep.mpr ⟨ha, has⟩, haround⟩)
        · exact nomatch free.symm.trans heq
  · rcases mem_failed_keep.mp ht with ht | ⟨_, rfl⟩
    · exact .inl ht
    · refine .inr (.inr ⟨standing_live hs hkind, fun b hb hmem => ?_⟩)
      rcases hb with ⟨hb, _⟩ | ⟨hfin, a, ha, haround⟩
      · obtain ⟨hb, hbs⟩ := mem_live_keep.mp hb
        exact hbs (alone b hb (hstack.forest.savepoints_sub_path b (hstack.live_mem b hb) hmem))
      · obtain ⟨claimed, heq⟩ := finishing b hfin
        obtain ⟨hball, _, _, hblive, _⟩ := hstack.held _ heq
        obtain ⟨ha, has⟩ := mem_live_keep.mp ha
        exact has (around b a ha haround hmem hblive hball)

/-- A nested block ends well: it stands until its savepoint is released. -/
theorem Queued.blockLeaves {depth cancelled depth' cancelled' : Nat} {os' : List Nat}
    (h : Queued lock scopes hooks) (hstack : Stack depth cancelled lock scopes os)
    (free : lock = none) (hs : s ∈ scopes.live) (hkind : s.kind = .block) (hroot : s ≠ root)
    (hstack' : Stack depth' cancelled' (some (.finishing s true true)) (scopes.keep s true) os') :
    Queued (some (.finishing s true true)) (scopes.keep s true) hooks := by
  have hall := hstack.live_mem s hs
  have live : ∀ b, Standing lock scopes b ↔ b ∈ scopes.live ∧ b.kind = .block :=
    fun b => standing_iff_live fun _ _ heq => nomatch free.symm.trans heq
  refine h.steady hstack hstack'.toLive (fun _ h => h) le_rfl (fun _ _ heq => nomatch heq)
    (fun b => ?_) (fun _ h => h) fun _ h _ => h
  rw [live]
  constructor
  · rintro (⟨hb, hbk⟩ | ⟨⟨claimed, heq⟩, _⟩)
    · exact ⟨(mem_live_keep.mp hb).1, hbk⟩
    · cases heq
      exact ⟨hs, hkind⟩
  · rintro ⟨hb, hbk⟩
    by_cases hbs : b = s
    · obtain ⟨a, ha⟩ := hstack.forest.around s hall hkind hroot
      have halive : a ∈ scopes.live := hstack.around s hs a ha.mem ha.path
      have has : a ≠ s := by
        intro heq
        have hlen := congrArg List.length ha.savepoints
        rw [heq, List.length_cons] at hlen
        omega
      exact .inr ⟨⟨true, by rw [hbs]⟩, a, mem_live_keep.mpr ⟨halive, has⟩, hbs ▸ ha⟩
    · exact standing_live (mem_live_keep.mpr ⟨hb, hbs⟩) hbk

/-- A nested block begins: its savepoint is not open yet. -/
theorem Queued.enter {depth cancelled depth' cancelled' : Nat} {os' : List Nat}
    (h : Queued lock scopes hooks) (hstack : Stack depth cancelled lock scopes os)
    (free : lock = none) (hid : s.id = scopes.next)
    (hstack' : Stack depth' cancelled' (some (.opening s false))
      { scopes with all := s :: scopes.all } os') :
    Queued (some (.opening s false)) { scopes with all := s :: scopes.all } hooks := by
  have hl : ∀ t claimed, lock ≠ some (.finishing t true claimed) := by
    intro t claimed heq
    exact nomatch free.symm.trans heq
  refine h.steady hstack hstack'.toLive (List.subset_cons_self _ _) (Nat.le_succ _)
    (fun t abandoned heq => ?_) (fun b => ?_) (fun _ h => h) fun _ h _ => h
  · cases heq
    refine ⟨h.unused _ hid.ge, fun p hp hpath => ?_⟩
    exact (hstack.forest.lt_of_mem_path (h.known p hp).1 hpath).ne hid
  · rw [standing_iff_live (fun _ _ heq => by cases heq), standing_iff_live hl]

/-- The code of a nested block may run. -/
theorem Queued.opened {depth cancelled depth' cancelled' : Nat} {os' : List Nat}
    (h : Queued lock scopes hooks) (hstack : Stack depth cancelled lock scopes os)
    (held : lock = some (.opening s false))
    (hstack' : Stack depth' cancelled' none { scopes with live := s :: scopes.live } os') :
    Queued none { scopes with live := s :: scopes.live } hooks := by
  have hl : ∀ t claimed, lock ≠ some (.finishing t true claimed) := by
    intro t claimed heq
    exact nomatch held.symm.trans heq
  refine h.frame hstack hstack'.toLive (fun _ h => h) le_rfl (fun _ _ heq => nomatch heq)
    (fun b hb => ?_) (fun b hb => .inl ?_) (fun _ h => h) fun _ h _ => .inl h
  · obtain ⟨hb, hbk⟩ := (standing_iff_live (fun _ _ heq => by cases heq)).mp hb
    rcases List.mem_cons.mp hb with rfl | hb
    · exact .inr (h.opening b false held)
    · exact .inl (standing_live hb hbk)
  · obtain ⟨hb, hbk⟩ := (standing_iff_live hl).mp hb
    exact standing_live (List.mem_cons_of_mem _ hb) hbk

/-- A nested block is given up before its savepoint is open. -/
theorem Queued.abandonOpening {depth cancelled depth' cancelled' : Nat} {os' : List Nat}
    (h : Queued lock scopes hooks) (hstack : Stack depth cancelled lock scopes os)
    (held : lock = some (.opening s false))
    (hstack' : Stack depth' cancelled' (some (.opening s true))
      { scopes with failed := s :: scopes.failed } os') :
    Queued (some (.opening s true)) { scopes with failed := s :: scopes.failed } hooks := by
  have hl : ∀ t claimed, lock ≠ some (.finishing t true claimed) := by
    intro t claimed heq
    exact nomatch held.symm.trans heq
  have live : ∀ b, Standing (some (.opening s true))
      { scopes with failed := s :: scopes.failed } b ↔ Standing lock scopes b := fun b => by
    rw [standing_iff_live (fun _ _ heq => by cases heq), standing_iff_live hl]
  refine h.frame hstack hstack'.toLive (fun _ h => h) le_rfl (fun t abandoned heq => ?_)
    (fun b hb => .inl ((live b).mp hb)) (fun b hb => .inl ((live b).mpr hb))
    (fun _ h => List.mem_cons_of_mem _ h) fun t ht _ => ?_
  · cases heq
    exact h.opening s false held
  · rcases List.mem_cons.mp ht with rfl | ht
    · exact .inr (.inl (h.opening t false held).2)
    · exact .inl ht

end Rustango.Atomic
