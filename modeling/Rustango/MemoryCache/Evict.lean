import Rustango.MemoryCache.Totals

/-!
# Eviction

What an eviction takes out of the map: all that has expired, then the least recently used of the
entries that are neither pinned nor the newest, until the totals are down to the low-water marks.
-/

namespace Rustango.MemoryCache

open Rustango.Tally

variable {map before after : List (String × CacheEntry)} {bytes entries : Nat} {newest : String}
variable {c : Config} {clock : Clock}

private theorem isOver_iff {s : Store} : s.isOver bytes entries = true ↔
    (0 < bytes ∧ bytes < s.usedBytes) ∨ (0 < entries ∧ entries < s.evictable) := by
  simp [Store.isOver]

private theorem isOver_of_sublist (h : after.Sublist before)
    (hover : (tally after).isOver bytes entries = true) :
    (tally before).isOver bytes entries = true := by
  have hbytes : weigh looseBytes after ≤ weigh looseBytes before := weigh_le_of_sublist h
  have hcount : weigh looseCount after ≤ weigh looseCount before := weigh_le_of_sublist h
  rw [isOver_iff] at hover ⊢
  simp only [tally] at hover ⊢
  omega

theorem isOver_of_isOver_lowWater {s : Store} (h : s.isOver c.maxBytes c.maxEntries = true) :
    s.isOver (lowWater c.maxBytes) (lowWater c.maxEntries) = true := by
  rw [isOver_iff] at h ⊢
  simp only [lowWater]
  omega

private theorem evictLru_tally (bytes entries : Nat) (lru : List (Nat × String)) (h : Keyed map) :
    ∃ k ≤ lru.length,
    evictLru bytes entries lru (tally map) =
      tally (map.filter fun p => p.1 ∉ (lru.take k).map Prod.snd) ∧
    (∀ j < k, (tally (map.filter fun p => p.1 ∉ (lru.take j).map Prod.snd)).isOver bytes entries = true) ∧
    (k = lru.length ∨
      (tally (map.filter fun p => p.1 ∉ (lru.take k).map Prod.snd)).isOver bytes entries = false) := by
  induction lru generalizing map with
  | nil => exact ⟨0, le_refl _, by simp [evictLru], by simp, Or.inl rfl⟩
  | cons x lru ih =>
    have hnone : (map.filter fun p => p.1 ∉ ((x :: lru).take 0).map Prod.snd) = map := by simp
    by_cases hover : (tally map).isOver bytes entries = true
    · obtain ⟨k, hk, hrun, hbefore, hlast⟩ := ih (h.sublist (without_sublist (k := x.2)))
      have hstep : ∀ j, ((without x.2 map).filter fun p => p.1 ∉ (lru.take j).map Prod.snd) =
          map.filter fun p => p.1 ∉ ((x :: lru).take (j + 1)).map Prod.snd := by
        intro j
        rw [without, List.filter_filter]
        apply List.filter_congr
        intro p _
        rw [Bool.eq_iff_iff]
        simp only [Bool.and_eq_true, decide_eq_true_eq, List.take_succ_cons, List.map_cons, List.mem_cons,
          not_or, ne_eq, and_comm]
      refine ⟨k + 1, Nat.succ_le_succ hk, ?_, ?_, ?_⟩
      · rw [evictLru, if_pos hover, take_tally h, hrun, hstep]
      · intro j hj
        cases j with
        | zero => rwa [hnone]
        | succ j =>
          rw [← hstep]
          exact hbefore j (Nat.lt_of_succ_lt_succ hj)
      · rw [← hstep, List.length_cons]
        exact hlast.imp_left (congrArg (· + 1))
    · have hfits : (tally map).isOver bytes entries = false := by simpa using hover
      refine ⟨0, Nat.zero_le _, ?_, by simp, Or.inr (by rwa [hnone])⟩
      rw [evictLru, if_neg hover, hnone]

private theorem mem_leastRecent {t : Nat} {key : String} : (t, key) ∈ leastRecent (tally map) newest ↔
    ∃ e, (key, e) ∈ map ∧ e.pinned = false ∧ key ≠ newest ∧ t = e.lastUsed := by
  simp only [leastRecent, List.mem_mergeSort, List.mem_map, List.mem_filter, tally_map, Prod.mk.injEq,
    Bool.and_eq_true, Bool.not_eq_true', bne_iff_ne, Prod.exists]
  constructor
  · rintro ⟨key', e, ⟨hmem, hpinned, hne⟩, rfl, rfl⟩
    exact ⟨e, hmem, hpinned, hne, rfl⟩
  · rintro ⟨e, hmem, hpinned, hne, rfl⟩
    exact ⟨key, e, ⟨hmem, hpinned, hne⟩, rfl, rfl⟩

private theorem leastRecent_sorted (s : Store) (newest : String) :
    (leastRecent s newest).Pairwise fun a b => a.1 ≤ b.1 := by
  have hsorted : (leastRecent s newest).Pairwise fun a b => decide (a.1 ≤ b.1) = true :=
    List.pairwise_mergeSort (by simp only [decide_eq_true_eq]; omega)
      (by simp only [Bool.or_eq_true, decide_eq_true_eq]; omega) _
  exact hsorted.imp of_decide_eq_true

/-- An eviction after `newest` was written: `after` is what it leaves of `before`. -/
structure Evicted (c : Config) (clock : Clock) (newest : String)
    (before after : List (String × CacheEntry)) : Prop where
  kept : after.Sublist before
  /-- Within the budgets nothing is evicted. -/
  idle : (tally before).isOver c.maxBytes c.maxEntries = false → after = before
  /-- Past one, everything expired is. -/
  expired : (tally before).isOver c.maxBytes c.maxEntries = true →
    ∀ p ∈ after, p.2.isExpired (clock.sweep p.1) = false
  spared : ∀ gone ∈ before, gone ∉ after → gone.2.isExpired (clock.sweep gone.1) = false →
    gone.2.pinned = false ∧ gone.1 ≠ newest
  /-- No entry that is kept was used before a live one that is not. -/
  leastRecent : ∀ gone ∈ before, gone ∉ after → gone.2.isExpired (clock.sweep gone.1) = false →
    ∀ p ∈ after, p.2.pinned = false → p.1 ≠ newest → gone.2.lastUsed ≤ p.2.lastUsed
  /-- The totals were past the marks when a live entry was evicted: those of the live entries that were
  kept or evicted no earlier. -/
  stops : ∀ gone ∈ before, gone ∉ after → gone.2.isExpired (clock.sweep gone.1) = false →
    (tally (before.filter fun p => !p.2.isExpired (clock.sweep p.1) &&
      (p ∈ after || gone.2.lastUsed ≤ p.2.lastUsed))).isOver (lowWater c.maxBytes)
        (lowWater c.maxEntries) = true
  /-- The totals end at the marks, or nothing evictable but the newest is left. -/
  down : (tally before).isOver c.maxBytes c.maxEntries = true →
    (tally after).isOver (lowWater c.maxBytes) (lowWater c.maxEntries) = false ∨
      ∀ p ∈ after, p.2.pinned = false → p.1 = newest

private theorem exists_place (h : Keyed map) {k : Nat} {p : String × CacheEntry} (hp : p ∈ map)
    (hgone : p.1 ∈ ((leastRecent (tally map) newest).take k).map Prod.snd) :
    (p.2.pinned = false ∧ p.1 ≠ newest) ∧ ∃ i < k, ∃ hi : i < (leastRecent (tally map) newest).length,
      (leastRecent (tally map) newest)[i] = (p.2.lastUsed, p.1) := by
  obtain ⟨x, hx, hkey⟩ := List.mem_map.mp hgone
  obtain ⟨i, hi, hget⟩ := List.mem_take_iff_getElem.mp hx
  have hx' : (x.1, p.1) ∈ leastRecent (tally map) newest := hkey ▸ List.mem_of_mem_take hx
  obtain ⟨e, he, hpinned, hne, htick⟩ := mem_leastRecent.mp hx'
  obtain rfl : e = p.2 := Option.some.inj ((find_of_mem h he).symm.trans (find_of_mem h hp))
  refine ⟨⟨hpinned, hne⟩, i, by omega, by omega, ?_⟩
  rw [hget, ← hkey, ← htick]

/-- The eviction loop takes the least recently used of what has not expired. -/
private theorem evicted_evictLru (h : Keyed before)
    (hover : (tally before).isOver c.maxBytes c.maxEntries = true)
    (hmap : map = before.filter fun p => !p.2.isExpired (clock.sweep p.1)) :
    ∃ after, evictLru (lowWater c.maxBytes) (lowWater c.maxEntries) (leastRecent (tally map) newest)
        (tally map) = tally after ∧ Evicted c clock newest before after := by
  have hkeyed : Keyed map := hmap ▸ h.sublist List.filter_sublist
  have hmem : ∀ p, p ∈ map ↔ p ∈ before ∧ p.2.isExpired (clock.sweep p.1) = false := by simp [hmap]
  obtain ⟨k, hk, hrun, hbefore, hlast⟩ := evictLru_tally (lowWater c.maxBytes) (lowWater c.maxEntries)
    (leastRecent (tally map) newest) hkeyed
  have hgone : ∀ p ∈ map, p ∉ (map.filter fun p =>
      p.1 ∉ ((leastRecent (tally map) newest).take k).map Prod.snd) →
      p.1 ∈ ((leastRecent (tally map) newest).take k).map Prod.snd := by
    intro p hp hout
    simpa [hp] using hout
  refine ⟨_, hrun, ?_⟩
  constructor
  · exact List.filter_sublist.trans (hmap ▸ List.filter_sublist)
  · intro hidle
    rw [hover] at hidle
    cases hidle
  · intro _ p hp
    exact ((hmem p).mp (List.mem_of_mem_filter hp)).2
  · intro gone hin hout hlive
    have hin' := (hmem gone).mpr ⟨hin, hlive⟩
    exact (exists_place hkeyed hin' (hgone gone hin' hout)).1
  · intro gone hin hout hlive p hp hpinned hne
    have hin' := (hmem gone).mpr ⟨hin, hlive⟩
    obtain ⟨-, i, hi, hlen, hget⟩ := exists_place hkeyed hin' (hgone gone hin' hout)
    obtain ⟨hpmem, hpkept⟩ := List.mem_filter.mp hp
    have hplru : (p.2.lastUsed, p.1) ∈ leastRecent (tally map) newest :=
      mem_leastRecent.mpr ⟨p.2, hpmem, hpinned, hne, rfl⟩
    obtain ⟨j, hj, hgetj⟩ := List.getElem_of_mem hplru
    -- A kept entry stands after all that were taken.
    have hkj : k ≤ j := by
      by_contra hlt
      have hjk : j < k := by omega
      have htaken : p.1 ∈ ((leastRecent (tally map) newest).take k).map Prod.snd := by
        refine List.mem_map.mpr ⟨(p.2.lastUsed, p.1), ?_, rfl⟩
        exact List.mem_take_iff_getElem.mpr ⟨j, by omega, hgetj⟩
      exact of_decide_eq_true hpkept htaken
    have hle := List.pairwise_iff_getElem.mp (leastRecent_sorted (tally map) newest) i j hlen hj (by omega)
    rwa [hget, hgetj] at hle
  · intro gone hin hout hlive
    have hin' := (hmem gone).mpr ⟨hin, hlive⟩
    obtain ⟨-, i, hi, hlen, hget⟩ := exists_place hkeyed hin' (hgone gone hin' hout)
    refine isOver_of_sublist ?_ (hbefore i hi)
    subst hmap
    rw [List.filter_filter]
    apply filter_sublist_filter
    intro p hpmem hp
    simp only [Bool.and_eq_true, decide_eq_true_eq, Bool.or_eq_true] at hp ⊢
    obtain ⟨hearlier, hplive⟩ := hp
    have hpmap := (hmem p).mpr ⟨hpmem, by simpa using hplive⟩
    refine ⟨hplive, ?_⟩
    by_contra hnot
    rw [not_or] at hnot
    -- What was evicted no earlier than `gone` was used no earlier.
    obtain ⟨-, j, hj, hlenj, hgetj⟩ := exists_place hkeyed hpmap (hgone p hpmap hnot.1)
    have hij : i ≤ j := by
      by_contra hlt
      refine hearlier (List.mem_map.mpr ⟨(p.2.lastUsed, p.1), ?_, rfl⟩)
      exact List.mem_take_iff_getElem.mpr ⟨j, by omega, hgetj⟩
    rcases Nat.eq_or_lt_of_le hij with rfl | hlt
    · rw [hget] at hgetj
      have htick := congrArg Prod.fst hgetj
      simp only at htick
      omega
    · have hle := List.pairwise_iff_getElem.mp (leastRecent_sorted _ newest) i j hlen hlenj hlt
      rw [hget, hgetj] at hle
      exact hnot.2 hle
  · intro _
    rcases hlast with hall | hdown
    · right
      intro p hp hpinned
      by_contra hne
      obtain ⟨hpmem, hpkept⟩ := List.mem_filter.mp hp
      have hplru : (p.2.lastUsed, p.1) ∈ leastRecent (tally map) newest :=
        mem_leastRecent.mpr ⟨p.2, hpmem, hpinned, hne, rfl⟩
      have htaken : p.1 ∈ ((leastRecent (tally map) newest).take k).map Prod.snd := by
        rw [hall, List.take_length]
        exact List.mem_map.mpr ⟨_, hplru, rfl⟩
      exact of_decide_eq_true hpkept htaken
    · exact Or.inl hdown

theorem evicted_evictLocked (c : Config) (clock : Clock) (newest : String) (h : Keyed before) :
    ∃ after, evictLocked c clock (tally before) newest = tally after ∧ Evicted c clock newest before after := by
  unfold evictLocked
  by_cases hover : (tally before).isOver c.maxBytes c.maxEntries = true
  · simp only [hover, Bool.not_true, Bool.false_eq_true, if_false, retain_tally]
    split
    · rename_i hdown
      have hfits : (tally (before.filter fun p => !p.2.isExpired (clock.sweep p.1))).isOver
          (lowWater c.maxBytes) (lowWater c.maxEntries) = false := by simpa using hdown
      have hgone : ∀ gone ∈ before, gone ∉ before.filter (fun p => !p.2.isExpired (clock.sweep p.1)) →
          gone.2.isExpired (clock.sweep gone.1) ≠ false := by
        intro gone hin hout hlive
        exact hout (List.mem_filter.mpr ⟨hin, by simp [hlive]⟩)
      refine ⟨_, rfl, List.filter_sublist, ?_, ?_, ?_, ?_, ?_, fun _ => Or.inl hfits⟩
      · intro hidle
        rw [hover] at hidle
        cases hidle
      · intro _ p hp
        simpa using (List.mem_filter.mp hp).2
      · exact fun gone hin hout hlive => absurd hlive (hgone gone hin hout)
      · exact fun gone hin hout hlive => absurd hlive (hgone gone hin hout)
      · exact fun gone hin hout hlive => absurd hlive (hgone gone hin hout)
    · exact evicted_evictLru h hover rfl
  · have hfits : (tally before).isOver c.maxBytes c.maxEntries = false := by simpa using hover
    simp only [hfits, Bool.not_false, if_true]
    refine ⟨before, rfl, List.Sublist.refl _, fun _ => rfl, ?_, ?_, ?_, ?_, ?_⟩
    · intro hover'
      exact absurd hover' hover
    · exact fun gone hin hout => absurd hin hout
    · exact fun gone hin hout => absurd hin hout
    · exact fun gone hin hout => absurd hin hout
    · intro hover'
      exact absurd hover' hover

end Rustango.MemoryCache
