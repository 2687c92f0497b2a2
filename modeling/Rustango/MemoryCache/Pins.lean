import Rustango.MemoryCache.Run

/-!
# Pinned entries

An eviction never takes a pinned entry. A call that does not release it keeps it pinned, but for an
increment and for a longer value, which leave it among the evictable ones.
-/

namespace Rustango.MemoryCache

open Rustango.Cache (KeyOp Reply CacheError counterValue)
open Rustango.Runs Rustango.Tally

def PinnedAt (s : State) (key : String) : Prop := ∃ e, find key s.store.map = some e ∧ e.pinned = true

/-- A call that unpins no key. -/
def KeepsPins (c : Config) (act : Call × Clock) (s : State) : Prop :=
  ∀ key, PinnedAt s key → ¬ unpins c act s key

/-- Within both budgets, or the key just written is the only evictable one. -/
def Budgeted (c : Config) (newest : String) (s : Store) : Prop :=
  s.isOver c.maxBytes c.maxEntries = false ∨ ∀ p ∈ s.map, p.2.pinned = false → p.1 = newest

variable {c : Config} {s t : State} {key newest : String} {e : CacheEntry} {act : Call × Clock}
variable {before after : List (String × CacheEntry)}

theorem Evicted.budgeted (h : Evicted c act.2 newest before after) : Budgeted c newest (tally after) := by
  by_cases hover : (tally before).isOver c.maxBytes c.maxEntries = true
  · refine (h.down hover).imp_left fun hdown => ?_
    rw [← Bool.not_eq_true] at hdown ⊢
    exact fun hpast => hdown (isOver_of_isOver_lowWater hpast)
  · rw [Bool.not_eq_true] at hover
    left
    rwa [h.idle hover]

theorem Evicted.keeps_pinned (h : Evicted c act.2 newest before after) {p : String × CacheEntry}
    (hp : p ∈ before) (hpinned : p.2.pinned = true) (hforever : p.2.expiresAt = none) : p ∈ after := by
  by_contra hgone
  have hlive : p.2.isExpired (act.2.sweep p.1) = false := by simp [CacheEntry.isExpired, hforever]
  rw [(h.spared p hp hgone hlive).1] at hpinned
  cases hpinned

theorem Sound.live_of_pinned (h : Sound c s) (now : Nat) (hfind : find key s.store.map = some e)
    (hpinned : e.pinned = true) : live now s key = some e := by
  have hforever : e.expiresAt = none := h.forever _ (mem_of_find hfind) hpinned
  rw [live, Option.filter_eq_some_iff]
  exact ⟨hfind, by simp [CacheEntry.isExpired, hforever]⟩

private theorem evicted_of_written (h : Sound c s) (hw : written c act s = some (key, e)) :
    ∃ after, (act.1.run c act.2 s).2 = ⟨tally after, s.tick + 1⟩ ∧
      Evicted c act.2 key ((key, e) :: without key s.store.map) after := by
  obtain ⟨after, hevict, hevicted⟩ :=
    evicted_evictLocked c act.2 key (sound_written h hw).tallied.keyed
  refine ⟨after, ?_, hevicted⟩
  rw [run_of_written h hw]
  rw [tally_map] at hevict
  rw [hevict]

private theorem pinnedAt_written_iff (h : Sound c s) (hw : written c act s = some (key, e)) :
    PinnedAt (act.1.run c act.2 s).2 key ↔ e.pinned = true := by
  obtain ⟨after, hrun, hevicted⟩ := evicted_of_written h hw
  have hput := sound_written h hw
  have hkeyed : Keyed after := hput.tallied.keyed.sublist hevicted.kept
  rw [hrun]
  constructor
  · intro ⟨e', hfind, hpinned⟩
    have hmem := hevicted.kept.subset (mem_of_find hfind)
    have hfind' : find key ((key, e) :: without key s.store.map) = some e' :=
      find_of_mem hput.tallied.keyed hmem
    rw [find_cons_self] at hfind'
    rwa [Option.some.inj hfind']
  · intro hpinned
    have hforever := hput.forever _ List.mem_cons_self hpinned
    exact ⟨e, find_of_mem hkeyed (hevicted.keeps_pinned List.mem_cons_self hpinned hforever), hpinned⟩

private theorem pinnedAt_of_written_ne (h : Sound c s) (hw : written c act s = some (newest, e))
    (hne : key ≠ newest) (hp : PinnedAt s key) : PinnedAt (act.1.run c act.2 s).2 key := by
  obtain ⟨after, hrun, hevicted⟩ := evicted_of_written h hw
  obtain ⟨e₀, hfind, hpinned⟩ := hp
  have hput := sound_written h hw
  have hold := mem_of_find hfind
  have hmem : (key, e₀) ∈ (newest, e) :: without newest s.store.map :=
    List.mem_cons_of_mem _ (mem_without.mpr ⟨hold, hne⟩)
  rw [hrun]
  exact ⟨e₀, find_of_mem (hput.tallied.keyed.sublist hevicted.kept)
    (hevicted.keeps_pinned hmem hpinned (h.forever _ hold hpinned)), hpinned⟩

private theorem written_of_unpins (h : unpins c act s key) : ∃ e, written c act s = some (key, e) := by
  obtain ⟨call, clock⟩ := act
  cases call with
  | deletePrefix p => cases h
  | clear => cases h
  | one op k =>
    cases op with
    | get => cases h
    | exists_ => cases h
    | delete => cases h
    | set value ttl => cases h
    | setForever value =>
      obtain ⟨rfl, hnul, -⟩ := h
      exact ⟨_, if_neg hnul⟩
    | add value ttl => cases h
    | incr by_ ttl =>
      cases ttl with
      | none =>
        obtain ⟨rfl, hrange⟩ := h
        exact ⟨_, if_pos hrange⟩
      | some ttl => cases h
    | touch ttl => cases h

/-- What is written over a pinned entry that is not released is pinned too, unless the call unpins it. -/
private theorem pinned_written_iff (h : Sound c s) (hp : PinnedAt s key) (hrel : ¬ releases c act s key)
    (hw : written c act s = some (key, e)) : e.pinned = true ↔ ¬ unpins c act s key := by
  obtain ⟨call, clock⟩ := act
  obtain ⟨e₀, hfind, hpinned⟩ := hp
  cases call with
  | deletePrefix p => cases hw
  | clear => cases hw
  | one op k =>
    cases op with
    | get => cases hw
    | exists_ => cases hw
    | delete => cases hw
    | set value ttl =>
      simp only [written] at hw
      split at hw
      · cases hw
      · rename_i hnul
        exact absurd ⟨(Prod.mk.inj (Option.some.inj hw)).1, hnul⟩ hrel
    | setForever value =>
      simp only [written] at hw
      split at hw
      · cases hw
      · rename_i hnul
        obtain ⟨rfl, rfl⟩ := Prod.mk.inj (Option.some.inj hw)
        simp [unpins, hnul]
    | add value ttl =>
      have hlive := h.live_of_pinned clock.now hfind hpinned
      simp only [written] at hw
      split at hw
      · cases hw
      · rename_i hnone
        rw [(Prod.mk.inj (Option.some.inj hw)).1, hlive] at hnone
        simp at hnone
    | incr by_ ttl =>
      simp only [written] at hw
      split at hw
      · rename_i hrange
        obtain ⟨rfl, rfl⟩ := Prod.mk.inj (Option.some.inj hw)
        cases ttl with
        | none => exact iff_of_false (by simp [CacheEntry.new]) (fun hnot => hnot ⟨rfl, hrange⟩)
        | some ttl => exact absurd ⟨rfl, hrange⟩ hrel
      · cases hw
    | touch ttl =>
      obtain ⟨e₁, hlive, heq⟩ := Option.map_eq_some_iff.mp hw
      obtain ⟨rfl, rfl⟩ := Prod.mk.inj heq
      have hlive' := h.live_of_pinned clock.now hfind hpinned
      obtain rfl := Option.some.inj (hlive.symm.trans hlive')
      have hnone : resolveTtl c clock ttl = none := by
        rw [← Option.not_isSome_iff_eq_none]
        exact fun hsome => hrel ⟨rfl, hsome⟩
      simp [hpinned, hnone, unpins]

private theorem pinnedAt_run_iff (h : Sound c s) (hp : PinnedAt s key) (hrel : ¬ releases c act s key) :
    PinnedAt (act.1.run c act.2 s).2 key ↔ ¬ unpins c act s key := by
  cases hw : written c act s with
  | some p =>
    obtain ⟨newest, e⟩ := p
    by_cases hne : key = newest
    · subst hne
      exact (pinnedAt_written_iff h hw).trans (pinned_written_iff h hp hrel hw)
    · refine iff_of_true (pinnedAt_of_written_ne h hw hne hp) fun hunpins => ?_
      obtain ⟨e', hw'⟩ := written_of_unpins hunpins
      exact hne (Prod.mk.inj (Option.some.inj (hw'.symm.trans hw))).1
  | none =>
    have hnot : ¬ unpins c act s key := by
      intro hunpins
      obtain ⟨e', hw'⟩ := written_of_unpins hunpins
      rw [hw] at hw'
      cases hw'
    refine iff_of_true ?_ hnot
    obtain ⟨e₀, hfind, hpinned⟩ := hp
    rcases run_of_unwritten h hw with (hrun | hrun) | ⟨k, hrun⟩ | ⟨keep, hrun, hkeep⟩ <;> rw [hrun]
    · exact ⟨e₀, hfind, hpinned⟩
    · exact ⟨e₀, hfind, hpinned⟩
    · refine ⟨if key = k then e₀.bump s.tick else e₀, ?_, ?_⟩
      · rw [tally_map, find_modify, hfind]
        split <;> rfl
      · split <;> exact hpinned
    · have hmem := List.mem_filter.mpr ⟨mem_of_find hfind, hkeep (key, e₀) hrel⟩
      exact ⟨e₀, find_of_mem (h.tallied.keyed.sublist List.filter_sublist) hmem, hpinned⟩

/-- What the cache owes in a state: the totals of the map, the pinned ones within their caps; at each
write an eviction that ends within the budgets; and entries that stay pinned until a call lets them go. -/
structure CacheRight (c : Config) (s : State) : Prop where
  sound : Sound c s
  writes : ∀ act key e, written c act s = some (key, e) → ∃ after, (act.1.run c act.2 s).2.store = tally after ∧
    Evicted c act.2 key ((key, e) :: without key s.store.map) after ∧ Budgeted c key (tally after)
  /-- No other call takes an entry that it does not delete. -/
  others : ∀ act, written c act s = none → ∀ p ∈ s.store.map, ¬ releases c act s p.1 →
    ∃ e, find p.1 (act.1.run c act.2 s).2.store.map = some e
  /-- A value that fits is pinned. -/
  forever : ∀ clock key value, '\x00' ∉ value.toList →
    s.store.pinnedFits key (sizeOf_ key value) c.maxPinnedBytes c.maxPinnedEntries = true →
    PinnedAt ((Call.one (.setForever value) key).run c clock s).2 key
  stays : ∀ key, PinnedAt s key → ∀ t,
    Reach (step c) (fun act x => KeepsPins c act x ∧ ¬ releases c act x key) s t → PinnedAt t key

theorem Sound.stepped (h : Sound c s) (hstep : step c act s = some t) : Sound c t := by
  rw [← Option.some.inj hstep]
  exact h.run act

theorem Sound.reach {ok : Call × Clock → State → Prop} (h : Sound c s) (hrun : Reach (step c) ok s t) :
    Sound c t := hrun.invariant h fun _ _ _ _ hstep hs => hs.stepped hstep

theorem Sound.others (h : Sound c s) (hw : written c act s = none) {p : String × CacheEntry}
    (hp : p ∈ s.store.map) (hrel : ¬ releases c act s p.1) :
    ∃ e, find p.1 (act.1.run c act.2 s).2.store.map = some e := by
  have hfind : find p.1 s.store.map = some p.2 := find_of_mem h.tallied.keyed hp
  rcases run_of_unwritten h hw with (hrun | hrun) | ⟨k, hrun⟩ | ⟨keep, hrun, hkeep⟩ <;> rw [hrun]
  · exact ⟨p.2, hfind⟩
  · exact ⟨p.2, hfind⟩
  · rw [tally_map, find_modify, hfind]
    exact ⟨_, rfl⟩
  · exact ⟨p.2, find_of_mem (h.tallied.keyed.sublist List.filter_sublist)
      (List.mem_filter.mpr ⟨hp, hkeep p hrel⟩)⟩

theorem Sound.stays (h : Sound c s) (hp : PinnedAt s key)
    (hrun : Reach (step c) (fun act x => KeepsPins c act x ∧ ¬ releases c act x key) s t) :
    PinnedAt t key := by
  have hboth : Sound c t ∧ PinnedAt t key := by
    apply hrun.invariant (P := fun x => Sound c x ∧ PinnedAt x key) ⟨h, hp⟩
    rintro act x y ⟨hkeeps, hrel⟩ hstep ⟨hx, hpx⟩
    refine ⟨hx.stepped hstep, ?_⟩
    rw [← Option.some.inj hstep]
    exact (pinnedAt_run_iff hx hpx hrel).mpr (hkeeps key hpx)
  exact hboth.2

theorem Sound.right (h : Sound c s) : CacheRight c s where
  sound := h
  writes := by
    intro act key e hw
    obtain ⟨after, hrun, hevicted⟩ := evicted_of_written h hw
    exact ⟨after, by rw [hrun], hevicted, hevicted.budgeted⟩
  others := fun _ hw _ hp hrel => h.others hw hp hrel
  forever := by
    intro clock key value hnul hfits
    obtain ⟨e, hw⟩ : ∃ e, written c (.one (.setForever value) key, clock) s = some (key, e) ∧ e.pinned = true :=
      ⟨_, if_neg hnul, hfits⟩
    exact (pinnedAt_written_iff h hw.1).mpr hw.2
  stays := fun _ hp _ hrun => h.stays hp hrun

/-- In a run that neither increments a pinned key nor pins a value past the caps over it, the cache is right
in every state; and a step that does either takes the key's pin. -/
theorem memory_cache_right (c : Config) :
    (∀ s, Reach (step c) (KeepsPins c) .initial s → CacheRight c s) ∧
    ∀ s, Reach (step c) (fun _ _ => True) .initial s → ∀ act key, PinnedAt s key → ¬ releases c act s key →
      (PinnedAt (act.1.run c act.2 s).2 key ↔ ¬ unpins c act s key) :=
  ⟨fun _ hrun => (sound_initial.reach hrun).right, fun _ hrun _ _ hp hrel =>
    pinnedAt_run_iff (sound_initial.reach hrun) hp hrel⟩

/-- One evictable entry. -/
private def oneEntry : Config := ⟨0, 1, 0, 0, none, 10 ^ 18⟩

private def noon : Clock := ⟨12, 12, 12, fun _ => 12⟩

private def pinnedZero : State := ⟨tally [("views", ⟨"0", none, 0, 6, true⟩)], 1⟩
private def looseOne : State := ⟨tally [("views", ⟨"1", none, 1, 6, false⟩)], 2⟩
private def onePage : State := ⟨tally [("page", ⟨"x", none, 2, 5, false⟩)], 3⟩

private theorem pin_zero :
    step oneEntry (.one (.setForever "0") "views", noon) .initial = some pinnedZero := rfl

/-- A hit counter with a minute to live, beside the pinned one. -/
private def pinnedHit : State :=
  ⟨tally [("hits", ⟨"1", some 72, 1, 5, false⟩), ("views", ⟨"0", none, 0, 6, true⟩)], 2⟩

private def pinnedPage : State :=
  ⟨tally [("page", ⟨"x", none, 2, 5, false⟩), ("views", ⟨"0", none, 0, 6, true⟩)], 3⟩

private theorem count_hit :
    step oneEntry (.one (.incr 1 (some 60)) "hits", noon) pinnedZero = some pinnedHit := by
  have hw : written oneEntry (.one (.incr 1 (some 60)) "hits", noon) pinnedZero =
      some ("hits", ⟨"1", some 72, 1, 5, false⟩) := by
    have hcounted : counted noon pinnedZero "hits" 1 = 1 := rfl
    have hrange : -2 ^ 63 ≤ counted noon pinnedZero "hits" 1 ∧ counted noon pinnedZero "hits" 1 < 2 ^ 63 := by
      rw [hcounted]
      decide
    simp only [written]
    rw [if_pos hrange, hcounted]
    rfl
  exact congrArg some (run_of_written (sound_initial.stepped pin_zero) hw)

private theorem page_evicts_hit :
    step oneEntry (.one (.set "x" none) "page", noon) pinnedHit = some pinnedPage := by
  let put := tally [("page", ⟨"x", none, 2, 5, false⟩), ("hits", ⟨"1", some 72, 1, 5, false⟩),
    ("views", ⟨"0", none, 0, 6, true⟩)]
  have hlru : leastRecent put "page" = [(1, "hits")] := by simp [put, leastRecent, tally]
  have hevict : evictLocked oneEntry noon put "page" = evictLru 0 1 (leastRecent put "page") put := rfl
  have hpage : evictLocked oneEntry noon put "page" = pinnedPage.store := by
    rw [hevict, hlru]
    rfl
  exact congrArg (fun store => some (State.mk store 3)) hpage

/-- The eviction takes the hit counter and leaves the pinned one. -/
theorem pinned_counter_stays : Reach (step oneEntry) (KeepsPins oneEntry) .initial pinnedPage ∧
    CacheRight oneEntry pinnedPage ∧ PinnedAt pinnedPage "views" ∧ find "hits" pinnedPage.store.map = none := by
  have hpin : KeepsPins oneEntry (.one (.setForever "0") "views", noon) .initial :=
    fun _ ⟨_, hfind, _⟩ => by cases hfind
  have hrun : Reach (step oneEntry) (KeepsPins oneEntry) .initial pinnedHit :=
    .next _ (.next _ .start hpin pin_zero) (by simp [KeepsPins, unpins]) count_hit
  have hpinned := ((memory_cache_right oneEntry).2 pinnedHit (hrun.mono fun _ _ _ => trivial)
    (.one (.set "x" none) "page", noon) "views" ⟨_, rfl, rfl⟩ (by simp [releases])).mpr (by simp [unpins])
  rw [Option.some.inj page_evicts_hit] at hpinned
  have hstep : Reach (step oneEntry) (KeepsPins oneEntry) .initial pinnedPage :=
    .next _ hrun (by simp [KeepsPins, unpins]) page_evicts_hit
  exact ⟨hstep, (memory_cache_right oneEntry).1 _ hstep, hpinned, rfl⟩

private theorem count_one : step oneEntry (.one (.incr 1 none) "views", noon) pinnedZero = some looseOne := by
  have hzero : "0".toInt? = some 0 := Int.toInt?_repr 0
  have hcounted : counted noon pinnedZero "views" 1 = 1 := by
    have hvalue : counterValue "0" = some 0 := by
      rw [counterValue, hzero]
      decide
    change (counterValue "0").getD 0 + 1 = 1
    rw [hvalue]
    rfl
  have hw : written oneEntry (.one (.incr 1 none) "views", noon) pinnedZero =
      some ("views", ⟨"1", none, 1, 6, false⟩) := by
    have hrange : -2 ^ 63 ≤ counted noon pinnedZero "views" 1 ∧ counted noon pinnedZero "views" 1 < 2 ^ 63 := by
      rw [hcounted]
      decide
    refine (if_pos hrange).trans ?_
    rw [hcounted]
    rfl
  exact congrArg some (run_of_written (sound_initial.stepped pin_zero) hw)

private theorem page_evicts : step oneEntry (.one (.set "x" none) "page", noon) looseOne = some onePage := by
  have hlru : leastRecent (tally [("page", ⟨"x", none, 2, 5, false⟩), ("views", ⟨"1", none, 1, 6, false⟩)])
      "page" = [(1, "views")] := by simp [leastRecent, tally]
  have hevict : evictLocked oneEntry noon
      (tally [("page", ⟨"x", none, 2, 5, false⟩), ("views", ⟨"1", none, 1, 6, false⟩)]) "page" =
        evictLru 0 1 (leastRecent (tally
          [("page", ⟨"x", none, 2, 5, false⟩), ("views", ⟨"1", none, 1, 6, false⟩)]) "page")
          (tally [("page", ⟨"x", none, 2, 5, false⟩), ("views", ⟨"1", none, 1, 6, false⟩)]) := rfl
  have hpage : evictLocked oneEntry noon
      (tally [("page", ⟨"x", none, 2, 5, false⟩), ("views", ⟨"1", none, 1, 6, false⟩)]) "page" =
        onePage.store := by
    rw [hevict, hlru]
    rfl
  exact congrArg (fun store => some (State.mk store 3)) hpage

/-- A counter is pinned and counted; the next page evicts it. -/
theorem counted_counter_evicted : Reach (step oneEntry) (fun _ _ => True) .initial pinnedZero ∧
    PinnedAt pinnedZero "views" ∧
    Reach (step oneEntry) (fun act x => ¬ releases oneEntry act x "views") pinnedZero onePage ∧
    find "views" onePage.store.map = none := by
  refine ⟨.next _ .start trivial pin_zero, ⟨_, rfl, rfl⟩, ?_, rfl⟩
  refine .next _ (.next _ .start ?_ count_one) ?_ page_evicts
  · simp [releases]
  · simp [releases]

end Rustango.MemoryCache
