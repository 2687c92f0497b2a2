import Rustango.Resolver.Protocol

/-!
# What holds between two operations

No entry is older than the floor of its map, a call knows no row older than what was settled when it
started, and a recorded fingerprint is covered, but while the poll that recorded it clears.
-/

namespace Rustango.Resolver

open Function Rustango.Threads

namespace Entries
variable {side : Side} {m : Entries side} {write now cap : Nat} {key : String} {e : Entry side}

/-- No entry was read before a write. -/
def Since (m : Entries side) (write : Nat) : Prop := ∀ ke ∈ m, write ≤ ke.2.read

theorem Since.mono {m' : Entries side} (h : m.Since write) (hsub : ∀ ke ∈ m', ke ∈ m) :
    m'.Since write := fun ke hke => h ke (hsub ke hke)

theorem Since.live (h : m.Since write) (hlive : m.live now key = some e) : write ≤ e.read := by
  have hfind : m.find key = some e := (Option.filter_eq_some_iff.mp hlive).1
  obtain ⟨ke, hke, rfl⟩ := Option.map_eq_some_iff.mp hfind
  exact h ke (List.mem_of_find?_eq_some hke)

theorem Since.remove (h : m.Since write) : (m.remove key).Since write :=
  h.mono fun _ hke => (List.mem_filter.mp hke).1

theorem Since.touch (h : m.Since write) (tick : Nat) : (m.touch key tick).Since write := by
  intro ke hke
  obtain ⟨old, hold, rfl⟩ := List.mem_map.mp hke
  have hread := h old hold
  split
  · exact hread
  · exact hread

theorem Since.evict (h : m.Since write) : m.evict.Since write := by
  unfold Entries.evict
  split
  · exact h.remove
  · exact h

theorem Since.makeRoom (h : m.Since write) : (m.makeRoom now cap key).Since write := by
  have hkept : Since (m.filter fun ke => now - ke.2.at_ < cacheTtl) write :=
    h.mono fun _ hke => (List.mem_filter.mp hke).1
  unfold Entries.makeRoom
  split
  · dsimp only
    split
    · exact hkept.evict
    · exact hkept
  · exact h

theorem Since.insert (h : m.Since write) (he : write ≤ e.read) :
    (m.insert now cap key e).Since write := by
  intro ke hke
  rcases List.mem_cons.mp hke with rfl | hold
  · exact he
  · exact h.makeRoom.remove ke hold

end Entries

/-- No entry is older than the floor of its map, and what is settled is below the floors. -/
structure Pod.Ok (p : Pod) : Prop where
  entries : ∀ c side, (p.maps c side).Since (p.floor c side)
  floor : ∀ c side, p.floor c side ≤ p.writes
  settled : ∀ c side, p.settled c ≤ p.floor c side
  written : ∀ t, p.written t ≤ p.writes

/-- Writes, floors and what is settled only grow. -/
structure Pod.Grows (p p' : Pod) : Prop where
  writes : p.writes ≤ p'.writes
  floor : ∀ c side, p.floor c side ≤ p'.floor c side
  settled : ∀ c, p.settled c ≤ p'.settled c

/-- The two differ in nothing that a call knows of. -/
structure Pod.Alike (p p' : Pod) : Prop where
  writes : p'.writes = p.writes
  written : p'.written = p.written
  floor : p'.floor = p.floor
  settled : p'.settled = p.settled
  seen : ∀ t, p'.seen t = p.seen t

/-- Every map of a table's caches was cleared for a write. -/
def Pod.Covers (p : Pod) (t : Table) (write : Nat) : Prop :=
  ∀ c ∈ t.caches, ∀ side, write ≤ p.floor c side

variable {p p' : Pod} {c : CacheId} {side : Side}

theorem Pod.Grows.refl (p : Pod) : p.Grows p :=
  ⟨Nat.le_refl _, fun _ _ => Nat.le_refl _, fun _ => Nat.le_refl _⟩

theorem Pod.Alike.refl (p : Pod) : p.Alike p := ⟨rfl, rfl, rfl, rfl, fun _ => rfl⟩

theorem Pod.Alike.grows (h : p.Alike p') : p.Grows p' where
  writes := Nat.le_of_eq h.writes.symm
  floor c side := Nat.le_of_eq (congrFun (congrFun h.floor.symm c) side)
  settled c := Nat.le_of_eq (congrFun h.settled.symm c)

theorem Pod.Covers.mono {t : Table} {write : Nat} (h : p.Covers t write) (hgrows : p.Grows p') :
    p'.Covers t write :=
  fun c hc side => Nat.le_trans (h c hc side) (hgrows.floor c side)

theorem Pod.Ok.alike (h : p.Ok) (halike : p.Alike p')
    (hmaps : ∀ c side, (p'.maps c side).Since (p.floor c side)) : p'.Ok := by
  refine ⟨fun c side => ?_, fun c side => ?_, fun c side => ?_, fun t => ?_⟩
  · rw [halike.floor]
    exact hmaps c side
  · rw [halike.floor, halike.writes]
    exact h.floor c side
  · rw [halike.floor, halike.settled]
    exact h.settled c side
  · rw [halike.written, halike.writes]
    exact h.written t

/-- A map is replaced by one whose entries are as new as its floor. -/
theorem since_setMap (h : p.Ok) {m : Entries side} (hm : m.Since (p.floor c side)) :
    ∀ d side', ((p.setMap c side m).maps d side').Since (p.floor d side') := by
  intro d side'
  by_cases hd : d = c
  · subst hd
    by_cases hside : side' = side
    · subst hside
      simpa [Pod.setMap] using hm
    · have hsame : (p.setMap d side m).maps d side' = p.maps d side' := by
        simp [Pod.setMap, update_of_ne hside]
      rw [hsame]
      exact h.entries d side'
  · have hsame : (p.setMap c side m).maps d = p.maps d := by simp [Pod.setMap, update_of_ne hd]
    rw [hsame]
    exact h.entries d side'

/-- What a phase says of the pod. -/
def Phase.Holds (p : Pod) (th : Thread) : Phase → Prop
  | .idle => th.clearing = none
  | .claimed t previous => th.clearing = none ∧ ∀ write ∈ previous, p.Covers t write
  | .seen t previous current =>
    th.clearing = none ∧ (∀ write ∈ previous, p.Covers t write) ∧ th.basis = current
  | .sweeping t left =>
    (∀ t' ∈ th.clearing, t' = t) ∧
      ∀ c ∈ t.caches, ∀ side, (c, side) ∈ left ∨ th.basis ≤ p.floor c side

structure Knows (p : Pod) (tok : Tok) (th : Thread) : Prop where
  row : tok.row = true → th.read.isSome = true
  read : ∀ r ∈ th.read, th.since th.call.cache ≤ r
  since : ∀ c, th.since c ≤ p.settled c
  basis : th.basis ≤ p.writes
  phase : tok.phase.Holds p th

/-- A recorded fingerprint is covered, or a call is still clearing for it. -/
def Recorded (p : Pod) (threads : List Thread) : Prop :=
  ∀ t write, p.seen t = some write →
    p.Covers t write ∨ ∃ th ∈ threads, th.clearing = some t ∧ th.basis = write

variable {tok tok' : Tok} {th : Thread}

theorem Phase.Holds.mono {phase : Phase} (h : phase.Holds p th) (hgrows : p.Grows p') :
    phase.Holds p' th := by
  cases phase with
  | idle => exact h
  | claimed t previous => exact ⟨h.1, fun write hw => (h.2 write hw).mono hgrows⟩
  | seen t previous current =>
    exact ⟨h.1, fun write hw => (h.2.1 write hw).mono hgrows, h.2.2⟩
  | sweeping t left =>
    refine ⟨h.1, fun c hc side => ?_⟩
    exact (h.2 c hc side).imp_right fun hle => Nat.le_trans hle (hgrows.floor c side)

theorem Knows.mono (h : Knows p tok th) (hgrows : p.Grows p') : Knows p' tok th where
  row := h.row
  read := h.read
  since c := Nat.le_trans (h.since c) (hgrows.settled c)
  basis := Nat.le_trans h.basis hgrows.writes
  phase := h.phase.mono hgrows

theorem Knows.readAt (hok : p.Ok) (h : Knows p tok th) : th.since th.call.cache ≤ th.readAt p := by
  unfold Thread.readAt
  cases hread : th.read with
  | some r => exact h.read r hread
  | none =>
    have hsince := h.since th.call.cache
    have hsettled := hok.settled th.call.cache .hits
    have hfloor := hok.floor th.call.cache .hits
    dsimp only [Option.getD_none]
    omega

theorem Knows.idle {row : Bool} (h : Knows p ⟨row, .idle⟩ th) : th.clearing = none := h.phase

theorem Recorded.op {threads threads' : List Thread} (h : Recorded p threads)
    (hgrows : p.Grows p') (hseen : ∀ t, p'.seen t = p.seen t)
    (hstays : ∀ t, ∀ u ∈ threads, u.clearing = some t →
      p'.Covers t u.basis ∨ ∃ v ∈ threads', v.clearing = some t ∧ v.basis = u.basis) :
    Recorded p' threads' := by
  intro t write hw
  rw [hseen] at hw
  rcases h t write hw with hcovers | ⟨u, hu, hclearing, rfl⟩
  · exact .inl (hcovers.mono hgrows)
  · exact hstays t u hu hclearing

end Rustango.Resolver
