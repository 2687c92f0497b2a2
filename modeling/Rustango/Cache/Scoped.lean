import Rustango.Cache.Flat
import Rustango.Cache.KeySpace
import Rustango.Lib.Views

/-!
# Cache views

A view of the shared cache for one tenant, or for the whole process, and one area: it maps every key
and forwards the call. Tenants' views are apart from each other and from the global ones; the global
views share the bare keys.
-/

namespace Rustango.Cache

open Rustango.Views

/-- The keys of `area` in `space`. -/
structure ScopedCache where
  space : KeySpace
  area : Area
deriving DecidableEq, Repr

namespace ScopedCache

def k (v : ScopedCache) (key : String) : String := v.space.key v.area key

/-- What every key of the view starts with. -/
def keyPrefix (v : ScopedCache) : String := v.k ""

/-- What the values of mapped keys are under the caller's own. -/
def unmapped (v : ScopedCache) (keys : List String) (got : List (String × String)) :
    List (String × String) :=
  keys.dedup.filterMap fun key => (got.find? fun p => p.1 = v.k key).map fun p => (key, p.2)

/-- A call on the view. -/
def run (now : Nat) (v : ScopedCache) (op : CacheOp) (s : Store) : Reply × Store :=
  match op with
  | .one op key => runOne now op (v.k key) s
  | .getMany keys => (.values (v.unmapped keys (Cache.getMany now (keys.map v.k) s)), s)
  | .setMany entries ttl => Cache.setMany now ttl (entries.map fun p => (v.k p.1, p.2)) s
  | .deleteMany keys => (.done, Cache.deleteMany (keys.map v.k) s)
  | .clear =>
    if v.keyPrefix = "" then
      (.error (.refused ("the global app cache has no prefix, so clear() would delete every" ++
        "                  tenant's sessions, locks and markers; call clear() on the root cache                  " ++
        "if that is what you mean")), s)
    else (.done, Cache.deletePrefix v.keyPrefix s)
  | .deletePrefix p => (.done, Cache.deletePrefix (v.k p) s)
  | .deletePrefixes ps => (.done, Cache.deletePrefixes (ps.map v.k) s)

/-- A map of the view's own that refuses the clear its view refuses. -/
def privateRun (v : ScopedCache) (call : Nat × CacheOp) (own : Store) : Reply × Store :=
  if call.2 = .clear ∧ v.keyPrefix = "" then ((v.run call.1 .clear own).1, own)
  else call.2.run call.1 own

/-- What the view holds under its own names. -/
def read (v : ScopedCache) (s : Store) : Store := fun n => s (v.k n)

end ScopedCache

/-- The keys a call may write. -/
def CacheOp.written : CacheOp → List String
  | .one _ key => [key]
  | .setMany entries _ => entries.map (·.1)
  | .deleteMany keys => keys
  | _ => []

/-- The prefixes a call deletes, `clear` aside. -/
def CacheOp.cleared : CacheOp → List String
  | .deletePrefix p => [p]
  | .deletePrefixes ps => ps
  | _ => []

namespace ScopedCache

/-- The prefixes a call on the view deletes. -/
def deletes (v : ScopedCache) : CacheOp → List String
  | .clear => if v.keyPrefix = "" then [] else [""]
  | op => op.cleared

/-- A global view is given no prefix that ends inside `tenant:`; under an area name it may be empty. -/
def Sound (v : ScopedCache) (op : CacheOp) : Prop :=
  v.space = .global → ∀ p ∈ op.cleared, Whole p ∨ p = "" ∧ v.area.bare = false

/-- No key that a call on `w` writes or deletes is one of `v`'s. -/
def Misses (w : ScopedCache) (op : CacheOp) (v : ScopedCache) : Prop :=
  (∀ key ∈ op.written, ∀ n, w.k key ≠ v.k n) ∧ ∀ p ∈ w.deletes op, ∀ n, ¬ Starts (w.k p) (v.k n)

theorem k_injective (v : ScopedCache) {m n : String} (h : v.k m = v.k n) : m = n := by
  cases v with
  | mk space area =>
    cases space with
    | tenant t => exact String.append_right_inj _ |>.mp h
    | global =>
      unfold k KeySpace.key at h
      dsimp only at h
      split at h
      · exact escape_injective h
      · exact escape_injective (String.append_right_inj _ |>.mp h)

theorem starts_iff {v : ScopedCache} {p : String} (h : v.space = .global → p = "" ∨ Whole p)
    (n : String) : Starts (v.k p) (v.k n) ↔ Starts p n := by
  cases v with
  | mk space area =>
    cases space with
    | tenant t => exact tenant_starts_iff.trans (and_iff_right rfl)
    | global =>
      unfold k KeySpace.key
      dsimp only
      split
      · exact escape_starts_iff (h rfl)
      · rw [starts_append_left]
        exact escape_starts_iff (h rfl)

theorem Sound.starts_iff {v : ScopedCache} {op : CacheOp} (h : v.Sound op) {p : String}
    (hp : p ∈ v.deletes op) (n : String) : Starts (v.k p) (v.k n) ↔ Starts p n := by
  apply ScopedCache.starts_iff
  intro hglobal
  cases op with
  | clear =>
    unfold deletes at hp
    dsimp only at hp
    split at hp
    · cases hp
    · exact .inl (List.mem_singleton.mp hp)
  | deletePrefix q => exact (h hglobal p hp).elim .inr fun h => .inl h.1
  | deletePrefixes qs => exact (h hglobal p hp).elim .inr fun h => .inl h.1
  | one _ _ => cases hp
  | getMany _ => cases hp
  | setMany _ _ => cases hp
  | deleteMany _ => cases hp

end ScopedCache

section Frame
variable {κ : Type} {now : Nat} {s : Store} {x : String}

private theorem deleteMany_of_not_mem {keys : List String} (h : x ∉ keys) : deleteMany keys s x = s x := by
  induction keys generalizing s with
  | nil => rfl
  | cons key keys ih =>
    obtain ⟨hne, hrest⟩ := not_or.mp (mt List.mem_cons.mpr h)
    exact (ih hrest).trans (Function.update_of_ne hne _ _)

private theorem setMany_of_not_mem {ttl : Option Nat} {entries : List (String × String)}
    (h : x ∉ entries.map (·.1)) : (setMany now ttl entries s).2 x = s x := by
  induction entries generalizing s with
  | nil => rfl
  | cons entry entries ih =>
    obtain ⟨hne, hrest⟩ := not_or.mp (mt List.mem_cons.mpr h)
    have hfirst : (runOne now (.set entry.2 ttl) entry.1 s).2 x = s x :=
      Function.update_of_ne hne _ _
    rw [setMany]
    split
    · exact hfirst
    · exact (ih hrest).trans hfirst

theorem deletePrefixes_apply (ps : List String) :
    deletePrefixes ps s x = if ∃ p ∈ ps, Starts p x then none else s x := by
  induction ps generalizing s with
  | nil => simp [deletePrefixes]
  | cons p ps ih =>
    have hrest : deletePrefixes (p :: ps) s x = deletePrefixes ps (deletePrefix p s) x := rfl
    have hfirst : deletePrefix p s x = if Starts p x then none else s x := rfl
    rw [hrest, ih, hfirst]
    by_cases hp : Starts p x <;> by_cases hps : ∃ q ∈ ps, Starts q x <;> simp [hp, hps]

end Frame

namespace ScopedCache

/-- A call leaves what a view reads when it misses the view's keys. -/
theorem read_run_of_misses {w v : ScopedCache} {op : CacheOp} (h : Misses w op v) (now : Nat)
    (s : Store) : v.read (w.run now op s).2 = v.read s := by
  funext n
  obtain ⟨hwritten, hdeleted⟩ := h
  cases op with
  | one op key => exact Function.update_of_ne (Ne.symm (hwritten key List.mem_cons_self n)) _ _
  | getMany keys => rfl
  | setMany entries ttl =>
    apply setMany_of_not_mem
    intro hmem
    simp only [List.map_map, List.mem_map, Function.comp_apply] at hmem
    obtain ⟨entry, hentry, hkey⟩ := hmem
    exact hwritten entry.1 (List.mem_map_of_mem hentry) n hkey
  | deleteMany keys =>
    apply deleteMany_of_not_mem
    intro hmem
    obtain ⟨key, hkey, heq⟩ := List.mem_map.mp hmem
    exact hwritten key hkey n heq
  | clear =>
    unfold run
    dsimp only
    split
    · rfl
    · rename_i hne
      have hmem : "" ∈ w.deletes .clear := by simp [deletes, hne]
      exact if_neg (hdeleted "" hmem n)
  | deletePrefix p => exact if_neg (hdeleted p (List.mem_singleton_self p) n)
  | deletePrefixes ps =>
    have hnone : ¬ ∃ p ∈ ps.map w.k, Starts p (v.k n) := by
      rintro ⟨p, hp, hstarts⟩
      obtain ⟨q, hq, rfl⟩ := List.mem_map.mp hp
      exact hdeleted q hq n hstarts
    exact (deletePrefixes_apply _).trans (if_neg hnone)

theorem read_update (v : ScopedCache) (s : Store) (key : String) (slot : Option Entry) :
    v.read (Function.update s (v.k key) slot) = Function.update (v.read s) key slot := by
  funext n
  unfold read
  by_cases hn : n = key
  · rw [hn, Function.update_self, Function.update_self]
  · rw [Function.update_of_ne hn, Function.update_of_ne fun h => hn (v.k_injective h)]

theorem read_deleteMany (v : ScopedCache) (keys : List String) (s : Store) :
    v.read (deleteMany (keys.map v.k) s) = deleteMany keys (v.read s) := by
  induction keys generalizing s with
  | nil => rfl
  | cons key keys ih =>
    have hrest := ih (Function.update s (v.k key) none)
    rw [read_update] at hrest
    exact hrest

theorem read_setMany (v : ScopedCache) (now : Nat) (ttl : Option Nat)
    (entries : List (String × String)) (s : Store) :
    let told := setMany now ttl (entries.map fun p => (v.k p.1, p.2)) s
    let own := setMany now ttl entries (v.read s)
    told.1 = own.1 ∧ v.read told.2 = own.2 := by
  induction entries generalizing s with
  | nil => exact ⟨rfl, rfl⟩
  | cons entry entries ih =>
    have hfirst : v.read (runOne now (.set entry.2 ttl) (v.k entry.1) s).2 =
        (runOne now (.set entry.2 ttl) entry.1 (v.read s)).2 := read_update v s _ _
    have hrest := ih (runOne now (.set entry.2 ttl) (v.k entry.1) s).2
    have hreply : (runOne now (.set entry.2 ttl) (v.k entry.1) s).1 =
        (runOne now (.set entry.2 ttl) entry.1 (v.read s)).1 := rfl
    rw [hfirst] at hrest
    rw [List.map_cons, setMany, setMany, hreply]
    dsimp only
    split
    · exact ⟨rfl, hfirst⟩
    · exact hrest

private theorem find_filterMap (g : String → Option String) (l : List String) (x : String) :
    ((l.filterMap fun y => (g y).map fun a => (y, a)).find? fun p => p.1 = x) =
      if x ∈ l then (g x).map fun a => (x, a) else none := by
  induction l with
  | nil => rfl
  | cons y l ih =>
    cases hy : g y with
    | none =>
      rw [List.filterMap_cons_none (by rw [hy]; rfl), ih]
      by_cases hx : x = y
      · subst hx
        simp [hy]
      · simp [hx]
    | some a =>
      rw [List.filterMap_cons_some (b := (y, a)) (by rw [hy]; rfl), List.find?_cons]
      by_cases hx : x = y
      · subst hx
        simp [hy]
      · simp [Ne.symm hx, ih, hx]

theorem unmapped_getMany (v : ScopedCache) (now : Nat) (keys : List String) (s : Store) :
    v.unmapped keys (getMany now (keys.map v.k) s) = getMany now keys (v.read s) := by
  unfold unmapped getMany
  apply List.filterMap_congr
  intro key hkey
  have hmem : v.k key ∈ (keys.map v.k).dedup :=
    List.mem_dedup.mpr (List.mem_map_of_mem (List.mem_dedup.mp hkey))
  have hfind := find_filterMap (fun y => (live now (s y)).map (·.value)) (keys.map v.k).dedup (v.k key)
  simp only [Option.map_map, Function.comp_def] at hfind
  rw [hfind, if_pos hmem]
  unfold read
  cases live now (s (v.k key)) <;> rfl

/-- A call on the view does to what it reads what the call does to a map of its own. -/
theorem run_eq_private {v : ScopedCache} {op : CacheOp} (h : v.Sound op) (now : Nat) (s : Store) :
    (v.run now op s).1 = (v.privateRun (now, op) (v.read s)).1 ∧
      v.read (v.run now op s).2 = (v.privateRun (now, op) (v.read s)).2 := by
  have hexact {p : String} (hp : p ∈ v.deletes op) :
      v.read (deletePrefix (v.k p) s) = deletePrefix p (v.read s) := by
    funext n
    exact if_congr (h.starts_iff hp n) rfl rfl
  unfold privateRun
  cases op with
  | one op key =>
    rw [if_neg (by simp)]
    exact ⟨rfl, read_update v s key _⟩
  | getMany keys =>
    rw [if_neg (by simp)]
    exact ⟨congrArg Reply.values (v.unmapped_getMany now keys s), rfl⟩
  | setMany entries ttl =>
    rw [if_neg (by simp)]
    exact v.read_setMany now ttl entries s
  | deleteMany keys =>
    rw [if_neg (by simp)]
    exact ⟨rfl, v.read_deleteMany keys s⟩
  | clear =>
    by_cases hnil : v.keyPrefix = ""
    · simp [run, hnil]
    · have hdeletes : "" ∈ v.deletes .clear := by simp [deletes, hnil]
      have hall : deletePrefix "" (v.read s) = fun _ => none := by
        funext n
        exact if_pos List.nil_prefix
      have hread : v.read (deletePrefix v.keyPrefix s) = fun _ => none :=
        (hexact hdeletes).trans hall
      simp [run, hnil, CacheOp.run, hread]
  | deletePrefix p =>
    rw [if_neg (by simp)]
    exact ⟨rfl, hexact (List.mem_singleton_self p)⟩
  | deletePrefixes ps =>
    rw [if_neg (by simp)]
    refine ⟨rfl, ?_⟩
    funext n
    have hiff : (∃ p ∈ ps.map v.k, Starts p (v.k n)) ↔ ∃ p ∈ ps, Starts p n := by
      constructor
      · rintro ⟨_, hmem, hstarts⟩
        obtain ⟨p, hp, rfl⟩ := List.mem_map.mp hmem
        exact ⟨p, hp, (h.starts_iff hp n).mp hstarts⟩
      · rintro ⟨p, hp, hstarts⟩
        exact ⟨v.k p, List.mem_map_of_mem hp, (h.starts_iff hp n).mpr hstarts⟩
    have hleft : v.read (deletePrefixes (ps.map v.k) s) n =
        if ∃ p ∈ ps.map v.k, Starts p (v.k n) then none else s (v.k n) := deletePrefixes_apply _
    have hright : deletePrefixes ps (v.read s) n =
        if ∃ p ∈ ps, Starts p n then none else v.read s n := deletePrefixes_apply _
    exact hleft.trans ((if_congr hiff rfl rfl).trans hright.symm)

end ScopedCache

end Rustango.Cache
