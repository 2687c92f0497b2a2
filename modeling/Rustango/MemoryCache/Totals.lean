import Rustango.MemoryCache.Store

/-!
# The totals of the in-memory cache

The four totals are sums over the map: each operation of the store leaves the store of its new map.
-/

namespace Rustango.MemoryCache

open Rustango.Tally

/-- The store of a map, every total summed afresh. -/
def tally (map : List (String × CacheEntry)) : Store where
  map := map
  usedBytes := weigh looseBytes map
  evictable := weigh looseCount map
  pinnedBytes := weigh fixedBytes map
  pinned := weigh fixedCount map

/-- Each key has one entry, and no total has drifted. -/
structure Tallied (s : Store) : Prop where
  keyed : Keyed s.map
  sums : s = tally s.map

variable {map : List (String × CacheEntry)} {key : String} {e : CacheEntry} {s : Store}

@[simp] theorem tally_map : (tally map).map = map := rfl

theorem tallied_tally (h : Keyed map) : Tallied (tally map) := ⟨h, rfl⟩

theorem Tallied.tally_eq (h : Tallied s) : tally s.map = s := h.sums.symm

theorem Tallied.usedBytes (h : Tallied s) : s.usedBytes = weigh looseBytes s.map :=
  congrArg Store.usedBytes h.sums

theorem Tallied.evictable (h : Tallied s) : s.evictable = weigh looseCount s.map :=
  congrArg Store.evictable h.sums

theorem Tallied.pinnedBytes (h : Tallied s) : s.pinnedBytes = weigh fixedBytes s.map :=
  congrArg Store.pinnedBytes h.sums

theorem Tallied.pinned (h : Tallied s) : s.pinned = weigh fixedCount s.map :=
  congrArg Store.pinned h.sums

theorem tallied_empty : Tallied .empty := ⟨List.nodup_nil, rfl⟩

theorem take_tally (h : Keyed map) : (tally map).take key = (find key map, tally (without key map)) := by
  unfold Store.take
  cases hfind : find key map with
  | none => simp [hfind, without_eq_self hfind]
  | some e =>
    have hbytes := weigh_without (w := looseBytes) h hfind
    have hcount := weigh_without (w := looseCount) h hfind
    have hfixed := weigh_without (w := fixedBytes) h hfind
    have hpinned := weigh_without (w := fixedCount) h hfind
    simp only [tally_map, hfind]
    cases hp : e.pinned <;>
      simp [looseBytes, looseCount, fixedBytes, fixedCount, hp] at hbytes hcount hfixed hpinned <;>
      simp only [if_true, Bool.false_eq_true, if_false, tally, Prod.mk.injEq, Store.mk.injEq, true_and] <;>
      omega

private theorem put_tally (h : Keyed map) : (tally map).put key e = tally ((key, e) :: without key map) := by
  rw [Store.put, take_tally h]
  cases hp : e.pinned <;>
    simp [tally, weigh_cons, looseBytes, looseCount, fixedBytes, fixedCount, hp, Nat.add_comm]

theorem retain_tally (keep : String × CacheEntry → Bool) :
    (tally map).retain keep = tally (map.filter keep) := by
  have hbytes := weigh_filter (w := looseBytes) (l := map) keep
  have hcount := weigh_filter (w := looseCount) (l := map) keep
  have hfixed := weigh_filter (w := fixedBytes) (l := map) keep
  have hpinned := weigh_filter (w := fixedCount) (l := map) keep
  simp only [Store.retain, tally, Store.mk.injEq, true_and]
  omega

theorem Tallied.take (h : Tallied s) : s.take key = (find key s.map, tally (without key s.map)) := by
  rw [← take_tally h.keyed, h.tally_eq]

theorem Tallied.put (h : Tallied s) (key : String) : s.put key e = tally ((key, e) :: without key s.map) := by
  rw [← put_tally h.keyed, h.tally_eq]

theorem Tallied.retain (h : Tallied s) (keep : String × CacheEntry → Bool) :
    s.retain keep = tally (s.map.filter keep) := by
  rw [← retain_tally, h.tally_eq]

theorem tallied_without (key : String) (h : Keyed map) : Tallied (tally (without key map)) :=
  tallied_tally (h.sublist without_sublist)

theorem tallied_cons (h : Keyed map) : Tallied (tally ((key, e) :: without key map)) :=
  tallied_tally (keyed_cons_without h)

theorem Tallied.modify (h : Tallied s) (key : String) {f : CacheEntry → CacheEntry} (hsize : ∀ e, (f e).size = e.size)
    (hpinned : ∀ e, (f e).pinned = e.pinned) :
    { s with map := Tally.modify key f s.map } = tally (Tally.modify key f s.map) := by
  have hbytes : weigh looseBytes (Tally.modify key f s.map) = weigh looseBytes s.map :=
    weigh_modify fun e => by simp [looseBytes, hsize, hpinned]
  have hcount : weigh looseCount (Tally.modify key f s.map) = weigh looseCount s.map :=
    weigh_modify fun e => by simp [looseCount, hpinned]
  have hfixed : weigh fixedBytes (Tally.modify key f s.map) = weigh fixedBytes s.map :=
    weigh_modify fun e => by simp [fixedBytes, hsize, hpinned]
  have hcounted : weigh fixedCount (Tally.modify key f s.map) = weigh fixedCount s.map :=
    weigh_modify fun e => by simp [fixedCount, hpinned]
  rw [tally, hbytes, hcount, hfixed, hcounted, h.usedBytes, h.evictable, h.pinnedBytes, h.pinned]

end Rustango.MemoryCache
