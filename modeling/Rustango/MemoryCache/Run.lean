import Rustango.Lib.Runs
import Rustango.MemoryCache.Evict

/-!
# Runs of the in-memory cache

What every run keeps, and what each write evicts. A pinned entry stays until a call releases it, unless
an increment or a longer value moves it among the evictable ones.
-/

namespace Rustango.MemoryCache

open Rustango.Cache (KeyOp Reply CacheError counterValue)
open Rustango.Runs Rustango.Tally

/-- The pinned totals are within their caps; `0` is no cap. -/
structure Capped (c : Config) (s : Store) : Prop where
  bytes : c.maxPinnedBytes = 0 ∨ s.pinnedBytes ≤ c.maxPinnedBytes
  entries : c.maxPinnedEntries = 0 ∨ s.pinned ≤ c.maxPinnedEntries

/-- The totals are sums over the map, the pinned ones within the caps; a pinned entry never expires; and
of two entries one was used before the other. -/
structure Sound (c : Config) (s : State) : Prop where
  tallied : Tallied s.store
  capped : Capped c s.store
  forever : ∀ p ∈ s.store.map, p.2.pinned = true → p.2.expiresAt = none
  used : ∀ p ∈ s.store.map, p.2.lastUsed < s.tick
  apart : s.store.map.Pairwise fun p q => p.2.lastUsed ≠ q.2.lastUsed

variable {c : Config} {clock : Clock} {s s' : State} {map : List (String × CacheEntry)}
variable {key newest : String} {e : CacheEntry} {call : Call}

theorem sound_initial : Sound c .initial where
  tallied := tallied_empty
  capped := ⟨Or.inr (Nat.zero_le _), Or.inr (Nat.zero_le _)⟩
  forever := by simp [State.initial, Store.empty]
  used := by simp [State.initial, Store.empty]
  apart := .nil

theorem Sound.sublist {tick : Nat} (h : Sound c ⟨tally map, tick⟩) {l : List (String × CacheEntry)}
    (hl : l.Sublist map) : Sound c ⟨tally l, tick⟩ where
  tallied := tallied_tally (h.tallied.keyed.sublist hl)
  capped := by
    have hbytes : weigh fixedBytes l ≤ weigh fixedBytes map := weigh_le_of_sublist hl
    have hcount : weigh fixedCount l ≤ weigh fixedCount map := weigh_le_of_sublist hl
    obtain ⟨hcapBytes, hcapEntries⟩ := h.capped
    simp only [tally] at hcapBytes hcapEntries
    constructor <;> simp only [tally] <;> omega
  forever p hp := h.forever p (hl.subset hp)
  used p hp := h.used p (hl.subset hp)
  apart := h.apart.sublist hl

theorem Sound.later (h : Sound c s) : Sound c { s with tick := s.tick + 1 } :=
  { h with used := fun p hp => Nat.lt_succ_of_lt (h.used p hp) }

theorem Sound.eq (h : Sound c s) : s = ⟨tally s.store.map, s.tick⟩ := by
  rw [h.tallied.tally_eq]

private theorem sound_cons (h : Sound c s) (htick : e.lastUsed = s.tick)
    (hforever : e.pinned = true → e.expiresAt = none)
    (hcapped : Capped c (tally ((key, e) :: without key s.store.map))) :
    Sound c ⟨tally ((key, e) :: without key s.store.map), s.tick + 1⟩ where
  tallied := tallied_cons h.tallied.keyed
  capped := hcapped
  forever := by
    intro p hp
    rcases List.mem_cons.mp hp with rfl | hmem
    · exact hforever
    · exact h.forever p (mem_without.mp hmem).1
  used := by
    intro p hp
    rcases List.mem_cons.mp hp with rfl | hmem
    · exact Nat.lt_succ_of_le (le_of_eq htick)
    · exact Nat.lt_succ_of_lt (h.used p (mem_without.mp hmem).1)
  apart := by
    refine List.pairwise_cons.mpr ⟨?_, h.apart.sublist without_sublist⟩
    intro p hp
    have hlt := h.used p (mem_without.mp hp).1
    simp only
    omega

private theorem capped_loose (h : Sound c s) (hloose : e.pinned = false) :
    Capped c (tally ((key, e) :: without key s.store.map)) := by
  have hbytes : weigh fixedBytes (without key s.store.map) ≤ weigh fixedBytes s.store.map :=
    weigh_le_of_sublist without_sublist
  have hcount : weigh fixedCount (without key s.store.map) ≤ weigh fixedCount s.store.map :=
    weigh_le_of_sublist without_sublist
  obtain ⟨hcapBytes, hcapEntries⟩ := h.capped
  rw [h.tallied.pinnedBytes] at hcapBytes
  rw [h.tallied.pinned] at hcapEntries
  constructor <;> simp only [tally, weigh_cons, fixedBytes, fixedCount, hloose, Bool.false_eq_true, if_false] <;>
    omega

private theorem pinnedFits_iff {store : Store} {size maxBytes maxEntries : Nat} :
    store.pinnedFits key size maxBytes maxEntries = true ↔
      (maxBytes = 0 ∨ store.pinnedBytes - (find key store.map).elim 0 fixedBytes + size ≤ maxBytes) ∧
        (maxEntries = 0 ∨ store.pinned - (find key store.map).elim 0 fixedCount < maxEntries) := by
  unfold Store.pinnedFits
  cases hfind : find key store.map with
  | none => simp
  | some e => cases hp : e.pinned <;> simp [fixedBytes, fixedCount, hp]

private theorem capped_fits (h : Sound c s)
    (hfits : s.store.pinnedFits key e.size c.maxPinnedBytes c.maxPinnedEntries = true) :
    Capped c (tally ((key, e) :: without key s.store.map)) := by
  have hsize : fixedBytes e ≤ e.size := by
    rw [fixedBytes]
    split <;> omega
  have hone : fixedCount e ≤ 1 := by
    rw [fixedCount]
    split <;> omega
  rw [pinnedFits_iff, h.tallied.pinnedBytes, h.tallied.pinned] at hfits
  cases hfind : find key s.store.map with
  | none =>
    simp only [hfind, Option.elim_none] at hfits
    constructor <;> simp only [tally, weigh_cons, without_eq_self hfind] <;> omega
  | some e₀ =>
    have hbytes := weigh_without (w := fixedBytes) h.tallied.keyed hfind
    have hcount := weigh_without (w := fixedCount) h.tallied.keyed hfind
    simp only [hfind, Option.elim_some] at hfits
    constructor <;> simp only [tally, weigh_cons] <;> omega

/-- The entry a call writes, and its key. -/
def written (c : Config) (act : Call × Clock) (s : State) : Option (String × CacheEntry) :=
  let clock := act.2
  match act.1 with
  | .one (.set value ttl) key =>
    if '\x00' ∈ value.toList then none
    else some (key, .new value (resolveTtl c clock ttl) s.tick (sizeOf_ key value))
  | .one (.setForever value) key =>
    if '\x00' ∈ value.toList then none
    else
      let size := sizeOf_ key value
      let fits := s.store.pinnedFits key size c.maxPinnedBytes c.maxPinnedEntries
      some (key, { CacheEntry.new value none s.tick size with pinned := fits })
  | .one (.add value ttl) key =>
    if '\x00' ∈ value.toList ∨ (live clock.now s key).isSome then none
    else some (key, .new value (resolveTtl c clock ttl) s.tick (sizeOf_ key value))
  | .one (.incr by_ ttl) key =>
    let new := counted clock s key by_
    if -2 ^ 63 ≤ new ∧ new < 2 ^ 63 then
      let expiresAt := match live clock.again s key, ttl with
        | some e, none => e.expiresAt
        | _, _ => resolveTtl c clock ttl
      some (key, .new (toString new) expiresAt s.tick (sizeOf_ key (toString new)))
    else none
  | .one (.touch ttl) key =>
    (live clock.now s key).map fun e =>
      let expiresAt := resolveTtl c clock ttl
      (key, { e with expiresAt := expiresAt, lastUsed := s.tick, pinned := e.pinned && expiresAt.isNone })
  | _ => none

theorem find_of_live {now : Nat} (h : live now s key = some e) : find key s.store.map = some e :=
  (Option.filter_eq_some_iff.mp h).1

/-- A write puts its entry, then evicts. -/
theorem run_of_written (h : Sound c s) {act : Call × Clock} (hw : written c act s = some (key, e)) :
    (act.1.run c act.2 s).2 =
      ⟨evictLocked c act.2 (tally ((key, e) :: without key s.store.map)) key, s.tick + 1⟩ := by
  obtain ⟨call, clock⟩ := act
  rw [← h.tallied.put]
  cases call with
  | deletePrefix p => cases hw
  | clear => cases hw
  | one op k =>
    cases op with
    | get => cases hw
    | exists_ => cases hw
    | delete => cases hw
    | set value ttl =>
      simp only [written] at hw
      split at hw
      · cases hw
      · rename_i hnul
        obtain ⟨rfl, rfl⟩ := Prod.mk.inj (Option.some.inj hw)
        simp [Call.run, KeyOp.run, checkText, hnul, insert, write, CacheEntry.new]
    | setForever value =>
      simp only [written] at hw
      split at hw
      · cases hw
      · rename_i hnul
        obtain ⟨rfl, rfl⟩ := Prod.mk.inj (Option.some.inj hw)
        simp [Call.run, KeyOp.run, checkText, hnul, insert, write]
    | add value ttl =>
      simp only [written] at hw
      split at hw
      · cases hw
      · rename_i hnone
        rw [not_or] at hnone
        obtain ⟨rfl, rfl⟩ := Prod.mk.inj (Option.some.inj hw)
        simp [Call.run, KeyOp.run, checkText, hnone, add, write]
    | incr by_ ttl =>
      simp only [written] at hw
      split at hw
      · rename_i hrange
        obtain ⟨rfl, rfl⟩ := Prod.mk.inj (Option.some.inj hw)
        exact congrArg Prod.snd (if_pos hrange)
      · cases hw
    | touch ttl =>
      obtain ⟨e₀, hlive, heq⟩ := Option.map_eq_some_iff.mp hw
      obtain ⟨rfl, rfl⟩ := Prod.mk.inj heq
      have htake : s.store.take k = (some e₀, tally (without k s.store.map)) := by
        rw [h.tallied.take, find_of_live hlive]
      have hput := (tallied_without k h.tallied.keyed).put k (e :=
        { e₀ with expiresAt := resolveTtl c clock ttl, lastUsed := s.tick,
                  pinned := e₀.pinned && (resolveTtl c clock ttl).isNone })
      simp only [Call.run, KeyOp.run, touch, hlive, htake, write, Option.isNone_some, Bool.false_eq_true,
        if_false]
      rw [hput, h.tallied.put, tally_map, without_without]

/-- A call lets a pinned entry go: it deletes it, sets another value or gives it a TTL. -/
def releases (c : Config) (act : Call × Clock) (s : State) (key : String) : Prop :=
  match act.1 with
  | .one (.set value _) k => k = key ∧ '\x00' ∉ value.toList
  | .one .delete k => k = key
  | .one (.touch ttl) k => k = key ∧ (resolveTtl c act.2 ttl).isSome
  | .one (.incr by_ (some _)) k =>
    k = key ∧ -2 ^ 63 ≤ counted act.2 s key by_ ∧ counted act.2 s key by_ < 2 ^ 63
  | .deletePrefix p => p.toList <+: key.toList
  | .clear => True
  | _ => False

/-- A call that unpins a key without letting it go: it increments it, or pins a value past the caps. -/
def unpins (c : Config) (act : Call × Clock) (s : State) (key : String) : Prop :=
  match act.1 with
  | .one (.incr by_ none) k =>
    k = key ∧ -2 ^ 63 ≤ counted act.2 s key by_ ∧ counted act.2 s key by_ < 2 ^ 63
  | .one (.setForever value) k => k = key ∧ '\x00' ∉ value.toList ∧
    s.store.pinnedFits key (sizeOf_ key value) c.maxPinnedBytes c.maxPinnedEntries = false
  | _ => False

/-- Any other call marks an entry as used, or takes entries out. -/
theorem run_of_unwritten (h : Sound c s) {act : Call × Clock} (hw : written c act s = none) :
    ((act.1.run c act.2 s).2 = s ∨ (act.1.run c act.2 s).2 = { s with tick := s.tick + 1 }) ∨
    (∃ key, (act.1.run c act.2 s).2 =
      ⟨tally (Tally.modify key (CacheEntry.bump s.tick) s.store.map), s.tick + 1⟩) ∨
    (∃ keep, (act.1.run c act.2 s).2 = ⟨tally (s.store.map.filter keep), s.tick⟩ ∧
      ∀ p, ¬ releases c act s p.1 → keep p = true) := by
  obtain ⟨call, clock⟩ := act
  cases call with
  | deletePrefix p =>
    right
    right
    refine ⟨fun e => !p.toList.isPrefixOf e.1.toList, ?_, ?_⟩
    · simp [Call.run, h.tallied.retain]
    · intro e hkept
      rw [Bool.not_eq_true', ← Bool.not_eq_true, List.isPrefixOf_iff_prefix]
      exact hkept
  | clear =>
    right
    right
    exact ⟨fun _ => false, by simp [Call.run, tally, Store.empty], fun p hkept => absurd trivial hkept⟩
  | one op key =>
    cases op with
    | get =>
      cases hlive : live clock.now s key with
      | none =>
        left
        left
        simp [Call.run, KeyOp.run, get, hlive]
      | some e =>
        right
        left
        refine ⟨key, ?_⟩
        have hmap := h.tallied.modify key (f := CacheEntry.bump s.tick) (fun _ => rfl)
          (fun _ => rfl)
        simp [Call.run, KeyOp.run, get, hlive, hmap]
    | exists_ => exact Or.inl (Or.inl rfl)
    | delete =>
      right
      right
      refine ⟨fun p => p.1 ≠ key, ?_, ?_⟩
      · simp [Call.run, KeyOp.run, h.tallied.take, without]
      · intro p hkept
        exact decide_eq_true fun hk => hkept hk.symm
    | set value ttl =>
      by_cases hnul : '\x00' ∈ value.toList
      · left
        left
        exact congrArg Prod.snd (if_pos hnul)
      · simp [written, hnul] at hw
    | setForever value =>
      by_cases hnul : '\x00' ∈ value.toList
      · left
        left
        exact congrArg Prod.snd (if_pos hnul)
      · simp [written, hnul] at hw
    | add value ttl =>
      left
      left
      by_cases hnul : '\x00' ∈ value.toList
      · exact congrArg Prod.snd (if_pos hnul)
      · by_cases hlive : (live clock.now s key).isSome = true
        · simp [Call.run, KeyOp.run, checkText, hnul, add, hlive]
        · simp [written, hnul, hlive] at hw
    | incr by_ ttl =>
      left
      right
      by_cases hrange : -2 ^ 63 ≤ counted clock s key by_ ∧ counted clock s key by_ < 2 ^ 63
      · cases (if_pos hrange).symm.trans hw
      · exact congrArg Prod.snd (if_neg hrange)
    | touch ttl =>
      left
      left
      have hnone : live clock.now s key = none := by simpa [written] using hw
      simp [Call.run, KeyOp.run, touch, hnone]

private theorem apart_modify (h : Sound c s) (key : String) :
    (Tally.modify key (CacheEntry.bump s.tick) s.store.map).Pairwise fun p q =>
      p.2.lastUsed ≠ q.2.lastUsed := by
  have hkeys : s.store.map.Pairwise fun p q => p.1 ≠ q.1 := List.pairwise_map.mp h.tallied.keyed
  rw [Tally.modify, List.pairwise_map]
  refine (hkeys.and h.apart).imp_of_mem ?_
  intro p q hp hq hpq
  have hpused := h.used p hp
  have hqused := h.used q hq
  by_cases hpk : p.1 = key
  · have hqk : q.1 ≠ key := fun hqk => hpq.1 (hpk.trans hqk.symm)
    simp only [hpk, if_true, if_neg hqk, CacheEntry.bump]
    omega
  · simp only [if_neg hpk]
    split
    · simp only [CacheEntry.bump]
      omega
    · exact hpq.2

private theorem sound_modify (h : Sound c s) (key : String) :
    Sound c ⟨tally (Tally.modify key (CacheEntry.bump s.tick) s.store.map), s.tick + 1⟩ where
  tallied := tallied_tally (keyed_modify.mpr h.tallied.keyed)
  capped := by
    rw [← h.tallied.modify key (f := CacheEntry.bump s.tick) (fun _ => rfl) (fun _ => rfl)]
    exact ⟨h.capped.bytes, h.capped.entries⟩
  forever := by
    intro p hp
    obtain ⟨q, hq, rfl⟩ := List.mem_map.mp hp
    have hforever := h.forever q hq
    by_cases hk : q.1 = key <;> simpa [hk, CacheEntry.bump] using hforever
  used := by
    intro p hp
    obtain ⟨q, hq, rfl⟩ := List.mem_map.mp hp
    have hused := h.used q hq
    by_cases hk : q.1 = key
    · simp [hk, CacheEntry.bump]
    · simp only [hk, if_false]
      omega
  apart := apart_modify h key

/-- A written entry carries the new tick, and if it is pinned it fits and never expires. -/
theorem sound_written (h : Sound c s) {act : Call × Clock} (hw : written c act s = some (key, e)) :
    Sound c ⟨tally ((key, e) :: without key s.store.map), s.tick + 1⟩ := by
  obtain ⟨call, clock⟩ := act
  cases call with
  | deletePrefix p => cases hw
  | clear => cases hw
  | one op k =>
    cases op with
    | get => cases hw
    | exists_ => cases hw
    | delete => cases hw
    | set value ttl =>
      simp only [written] at hw
      split at hw
      · cases hw
      · obtain ⟨rfl, rfl⟩ := Prod.mk.inj (Option.some.inj hw)
        exact sound_cons h rfl (fun hpinned => by cases hpinned) (capped_loose h rfl)
    | setForever value =>
      simp only [written] at hw
      split at hw
      · cases hw
      · obtain ⟨rfl, rfl⟩ := Prod.mk.inj (Option.some.inj hw)
        refine sound_cons h rfl (fun _ => rfl) ?_
        by_cases hfits : s.store.pinnedFits k (sizeOf_ k value) c.maxPinnedBytes c.maxPinnedEntries = true
        · exact capped_fits h hfits
        · exact capped_loose h (by simpa using hfits)
    | add value ttl =>
      simp only [written] at hw
      split at hw
      · cases hw
      · obtain ⟨rfl, rfl⟩ := Prod.mk.inj (Option.some.inj hw)
        exact sound_cons h rfl (fun hpinned => by cases hpinned) (capped_loose h rfl)
    | incr by_ ttl =>
      simp only [written] at hw
      split at hw
      · obtain ⟨rfl, rfl⟩ := Prod.mk.inj (Option.some.inj hw)
        exact sound_cons h rfl (fun hpinned => by cases hpinned) (capped_loose h rfl)
      · cases hw
    | touch ttl =>
      obtain ⟨e₀, hlive, heq⟩ := Option.map_eq_some_iff.mp hw
      obtain ⟨rfl, rfl⟩ := Prod.mk.inj heq
      refine sound_cons h rfl ?_ ?_
      · intro hpinned
        exact Option.isNone_iff_eq_none.mp (Bool.and_eq_true _ _ ▸ hpinned).2
      · by_cases hpinned : (e₀.pinned && (resolveTtl c clock ttl).isNone) = true
        · have hold : e₀.pinned = true := (Bool.and_eq_true _ _ ▸ hpinned).1
          have hbytes := weigh_without (w := fixedBytes) h.tallied.keyed (find_of_live hlive)
          have hcount := weigh_without (w := fixedCount) h.tallied.keyed (find_of_live hlive)
          obtain ⟨hcapBytes, hcapEntries⟩ := h.capped
          rw [h.tallied.pinnedBytes] at hcapBytes
          rw [h.tallied.pinned] at hcapEntries
          simp only [fixedBytes, fixedCount, hold, if_true] at hbytes hcount
          constructor <;> simp only [tally, weigh_cons, fixedBytes, fixedCount, hpinned, if_true] <;> omega
        · exact capped_loose h (Bool.eq_false_of_not_eq_true hpinned)

theorem Sound.run (h : Sound c s) (act : Call × Clock) : Sound c (act.1.run c act.2 s).2 := by
  cases hw : written c act s with
  | some p =>
    obtain ⟨key, e⟩ := p
    rw [run_of_written h hw]
    have hput := sound_written h hw
    obtain ⟨after, hevict, hevicted⟩ := evicted_evictLocked c act.2 key hput.tallied.keyed
    rw [tally_map] at hevict
    rw [hevict]
    exact hput.sublist hevicted.kept
  | none =>
    rcases run_of_unwritten h hw with (hrun | hrun) | ⟨key, hrun⟩ | ⟨keep, hrun, -⟩
    · rwa [hrun]
    · rw [hrun]
      exact h.later
    · rw [hrun]
      exact sound_modify h key
    · rw [hrun]
      exact (h.eq ▸ h).sublist List.filter_sublist

end Rustango.MemoryCache
