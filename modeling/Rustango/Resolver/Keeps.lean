import Rustango.Resolver.Ledger

/-!
# Every operation keeps the caches fresh
-/

namespace Rustango.Resolver

open Function Rustango.Threads

variable {fails : Bool} {p p' : Pod} {th : Thread} {tok tok' : Tok} {c : CacheId} {side : Side}

theorem lookup_alike (c : CacheId) (side : Side) (key : String) :
    p.Alike (p.lookup c side key).2 := by
  unfold Pod.lookup
  split
  · exact ⟨rfl, rfl, rfl, rfl, fun _ => rfl⟩
  · exact .refl p

private theorem lookup_ok (hok : p.Ok) (c : CacheId) (side : Side) (key : String) :
    (p.lookup c side key).2.Ok := by
  apply hok.alike (lookup_alike c side key)
  unfold Pod.lookup
  split
  · exact since_setMap hok ((hok.entries c side).touch _)
  · exact hok.entries

theorem insert_ok (hok : p.Ok) {cap read : Nat} {key : String} {value : side.Value}
    (hread : p.floor c side ≤ read) : (p.insert c side cap key value read).Ok := by
  refine hok.alike ⟨rfl, rfl, rfl, rfl, fun _ => rfl⟩ ?_
  exact since_setMap hok ((hok.entries c side).insert hread)

private theorem flight_alike (c : CacheId) (key : String) : p.Alike (p.flight c key).2 := by
  unfold Pod.flight
  split
  · exact .refl p
  · exact ⟨rfl, rfl, rfl, rfl, fun _ => rfl⟩

private theorem unlist_alike (c : CacheId) (key : String) (id : Nat) : p.Alike (p.unlist c key id) := by
  unfold Pod.unlist
  split
  · exact ⟨rfl, rfl, rfl, rfl, fun _ => rfl⟩
  · exact .refl p

theorem claim_alike (t : Table) (interval : Nat) : p.Alike (p.claim t interval).2 := by
  unfold Pod.claim
  split
  · refine ⟨rfl, rfl, rfl, rfl, fun t' => ?_⟩
    by_cases ht : t' = t
    · subst ht
      simp [Pod.seen]
    · simp [Pod.seen, update_of_ne ht]
  · exact .refl p

private theorem flight_maps (c : CacheId) (key : String) : (p.flight c key).2.maps = p.maps := by
  unfold Pod.flight
  split <;> rfl

private theorem unlist_maps (c : CacheId) (key : String) (id : Nat) : (p.unlist c key id).maps = p.maps := by
  unfold Pod.unlist
  split <;> rfl

private theorem claim_maps (t : Table) (interval : Nat) : (p.claim t interval).2.maps = p.maps := by
  unfold Pod.claim
  split <;> rfl

theorem Pod.Ok.aside (hok : p.Ok) (halike : p.Alike p') (hmaps : p'.maps = p.maps) : p'.Ok := by
  apply hok.alike halike
  rw [hmaps]
  exact hok.entries

private theorem clear_floor (c : CacheId) (side : Side) (basis : Nat) (d : CacheId) (side' : Side) :
    (p.clear c side basis).floor d side' =
      if d = c ∧ side' = side then max (p.floor c side) basis else p.floor d side' := by
  by_cases hd : d = c
  · subst hd
    by_cases hside : side' = side
    · subst hside
      simp [Pod.clear]
    · simp [Pod.clear, hside]
  · simp [Pod.clear, hd]

theorem clear_grows (c : CacheId) (side : Side) (basis : Nat) : p.Grows (p.clear c side basis) where
  writes := Nat.le_refl _
  floor d side' := by
    rw [clear_floor]
    split
    · rename_i h
      rw [h.1, h.2]
      exact Nat.le_max_left _ _
    · exact Nat.le_refl _
  settled _ := Nat.le_refl _

theorem clear_ok (hok : p.Ok) {basis : Nat} (hbasis : basis ≤ p.writes) :
    (p.clear c side basis).Ok where
  entries d side' := by
    by_cases hhere : d = c ∧ side' = side
    · obtain ⟨rfl, rfl⟩ := hhere
      have hempty : (p.clear d side' basis).maps d side' = [] := by simp [Pod.clear, Pod.setMap]
      rw [hempty]
      intro _ hke
      cases hke
    · rw [clear_floor, if_neg hhere]
      have hnil : Entries.Since ([] : Entries side) (p.floor c side) := by
        intro _ hke
        cases hke
      exact since_setMap hok hnil d side'
  floor d side' := by
    have hold := hok.floor d side'
    rw [clear_floor]
    split
    · rename_i h
      rw [h.1, h.2] at hold
      exact Nat.max_le.mpr ⟨hold, hbasis⟩
    · exact hold
  settled d side' := Nat.le_trans (hok.settled d side') ((clear_grows c side basis).floor d side')
  written := hok.written

private theorem raiseFloor_le (floor : CacheId → Side → Nat) (cs : List CacheId) (write : Nat) (c : CacheId)
    (side : Side) : floor c side ≤ raiseFloor floor cs write c side := by
  unfold raiseFloor
  split
  · exact Nat.le_max_left _ _
  · exact Nat.le_refl _

theorem record_grows (t : Table) (previous : Option Nat) (current : Nat) :
    p.Grows (p.record t previous current).2 where
  writes := Nat.le_refl _
  floor c side := by
    dsimp only [Pod.record]
    split
    · exact Nat.le_refl _
    · exact raiseFloor_le _ _ _ _ _
  settled _ := Nat.le_refl _

theorem record_covers {t : Table} {previous : Option Nat} {current : Nat}
    (h : moved previous current = false) : (p.record t previous current).2.Covers t current := by
  intro c hc side
  simp [Pod.record, h, raiseFloor, hc]

/-- A fingerprint that moved leaves the floors; another one's caches hold nothing older. -/
theorem record_ok (hok : p.Ok) {t : Table} {previous : Option Nat} {current : Nat}
    (hwritten : current ≤ p.writes) (hcovers : ∀ write ∈ previous, p.Covers t write)
    (hfirst : previous = none → ∀ c ∈ t.caches, ∀ side, (p.maps c side).Since current) :
    (p.record t previous current).2.Ok := by
  by_cases hmoved : moved previous current = true
  · refine ⟨?_, ?_, ?_, hok.written⟩
    · simpa [Pod.record, hmoved] using hok.entries
    · simpa [Pod.record, hmoved] using hok.floor
    · simpa [Pod.record, hmoved] using hok.settled
  · have hfloor : (p.record t previous current).2.floor = raiseFloor p.floor t.caches current := by
      simp [Pod.record, hmoved]
    have hentries : ∀ c ∈ t.caches, ∀ side, (p.maps c side).Since current := by
      cases hprevious : previous with
      | none => exact hfirst hprevious
      | some write =>
        have hsame : write = current := by simpa [moved, hprevious] using hmoved
        intro c hc side ke hke
        have hle := hcovers write hprevious c hc side
        have hread := hok.entries c side ke hke
        omega
    refine ⟨fun c side ke hke => ?_, fun c side => ?_, fun c side => ?_, hok.written⟩
    · have hread := hok.entries c side ke hke
      rw [hfloor]
      unfold raiseFloor
      split
      · rename_i hc
        exact Nat.max_le.mpr ⟨hread, hentries c hc side ke hke⟩
      · exact hread
    · have hle := hok.floor c side
      rw [hfloor]
      unfold raiseFloor
      split
      · exact Nat.max_le.mpr ⟨hle, hwritten⟩
      · exact hle
    · rw [hfloor]
      exact Nat.le_trans (hok.settled c side) (raiseFloor_le _ _ _ _ _)

theorem settle_ok (hok : p.Ok) {t : Table} {write : Nat} (hcovers : p.Covers t write) :
    Pod.Ok { p with settled := raiseSettled p.settled t.caches write } where
  entries := hok.entries
  floor := hok.floor
  settled c side := by
    have hle := hok.settled c side
    dsimp only [raiseSettled]
    split
    · rename_i hc
      exact Nat.max_le.mpr ⟨hle, hcovers c hc side⟩
    · exact hle
  written := hok.written

theorem settle_grows (t : Table) (write : Nat) :
    p.Grows { p with settled := raiseSettled p.settled t.caches write } where
  writes := Nat.le_refl _
  floor _ _ := Nat.le_refl _
  settled c := by
    dsimp only [raiseSettled]
    split
    · exact Nat.le_max_left _ _
    · exact Nat.le_refl _

/-- An operation that neither clears nor settles, nor records a fingerprint. -/
def Op.quiet : Op → Bool
  | .clear _ _ | .record _ _ _ | .settle _ => false
  | _ => true

theorem run_alike {o : Op} (h : o.quiet = true) : p.Alike (o.run fails th p).2 := by
  cases o with
  | lookup c side key => exact lookup_alike c side key
  | flight c key => exact flight_alike c key
  | unlist c key id => exact unlist_alike c key id
  | claim t interval => exact claim_alike t interval
  | remove c side key => exact ⟨rfl, rfl, rfl, rfl, fun _ => rfl⟩
  | insert c side cap key value => exact ⟨rfl, rfl, rfl, rfl, fun _ => rfl⟩
  | lock id => exact ⟨rfl, rfl, rfl, rfl, fun _ => rfl⟩
  | unlock id => exact ⟨rfl, rfl, rfl, rfl, fun _ => rfl⟩
  | openBreaker b => exact ⟨rfl, rfl, rfl, rfl, fun _ => rfl⟩
  | closeBreaker b => exact ⟨rfl, rfl, rfl, rfl, fun _ => rfl⟩
  | generation t => exact .refl p
  | isOpen b window => exact .refl p
  | findOrg f => exact .refl p
  | findHost host => exact .refl p
  | clear c side => cases h
  | record t previous current => cases h
  | settle t => cases h

theorem run_quiet_ok (hok : p.Ok) {o : Op} (h : o.quiet = true)
    (hinsert : ∀ c side cap key value, o = .insert c side cap key value →
      p.floor c side ≤ th.readAt p) : (o.run fails th p).2.Ok := by
  cases o with
  | lookup c side key => exact lookup_ok hok c side key
  | insert c side cap key value => exact insert_ok hok (hinsert c side cap key value rfl)
  | remove c side key =>
    exact hok.alike (run_alike h) (since_setMap hok (hok.entries c side).remove)
  | flight c key => exact hok.aside (run_alike h) (flight_maps c key)
  | unlist c key id => exact hok.aside (run_alike h) (unlist_maps c key id)
  | claim t interval => exact hok.aside (run_alike h) (claim_maps t interval)
  | lock id => exact hok.aside (run_alike h) rfl
  | unlock id => exact hok.aside (run_alike h) rfl
  | openBreaker b => exact hok.aside (run_alike h) rfl
  | closeBreaker b => exact hok.aside (run_alike h) rfl
  | generation t => exact hok
  | isOpen b window => exact hok
  | findOrg f => exact hok
  | findHost host => exact hok
  | clear c side => cases h
  | record t previous current => cases h
  | settle t => cases h

theorem mem_mapsOf {cs : List CacheId} (hc : c ∈ cs) (side : Side) : (c, side) ∈ mapsOf cs := by
  induction cs with
  | nil => cases hc
  | cons d cs ih =>
    rcases List.mem_cons.mp hc with rfl | hrest
    · cases side <;> simp [mapsOf]
    · exact List.mem_cons_of_mem _ (List.mem_cons_of_mem _ (ih hrest))

theorem lookup_fst (c : CacheId) (side : Side) (key : String) :
    (p.lookup c side key).1 = ((p.maps c side).live p.now key).map (·.value) := by
  unfold Pod.lookup
  split
  · rename_i e he
    rw [he]
    rfl
  · rename_i he
    rw [he]
    rfl

theorem Knows.reread {row row' : Bool} (h : Knows p ⟨row, .idle⟩ th) (read : Option Nat)
    (hrow : row' = true → read.isSome = true) (hread : ∀ r ∈ read, th.since th.call.cache ≤ r) :
    Knows p ⟨row', .idle⟩ { th with read } where
  row := hrow
  read := hread
  since := h.since
  basis := h.basis
  phase := h.phase

theorem Knows.lookup (hok : p.Ok) {row : Bool} (h : Knows p ⟨row, .idle⟩ th) (side : Side)
    (key : String) :
    Knows p ⟨((p.maps th.call.cache side).live p.now key).isSome, .idle⟩
      { th with read := ((p.maps th.call.cache side).live p.now key).map (·.read) } := by
  apply h.reread
  · intro hsome
    simpa using hsome
  · intro r hr
    obtain ⟨e, he, rfl⟩ := Option.map_eq_some_iff.mp hr
    have hsince := h.since th.call.cache
    have hsettled := hok.settled th.call.cache side
    have hread := (hok.entries th.call.cache side).live he
    omega

theorem Knows.query (hok : p.Ok) {row : Bool} (h : Knows p ⟨row, .idle⟩ th) :
    Knows p ⟨true, .idle⟩ { th with read := some (th.readAt p) } := by
  apply h.reread
  · exact fun _ => rfl
  · rintro r hr
    obtain rfl := Option.some.inj hr
    exact h.readAt hok

theorem Knows.toIdle {row : Bool} {t : Table} {previous : Option Nat}
    (h : Knows p ⟨row, .claimed t previous⟩ th) : Knows p ⟨row, .idle⟩ th :=
  ⟨h.row, h.read, h.since, h.basis, h.phase.1⟩

theorem Knows.generation (hok : p.Ok) {row : Bool} {t : Table} {previous : Option Nat}
    (h : Knows p ⟨row, .claimed t previous⟩ th) :
    Knows p ⟨row, .seen t previous (p.written t)⟩ { th with basis := p.written t } where
  row := h.row
  read := h.read
  since := h.since
  basis := hok.written t
  phase := ⟨h.phase.1, h.phase.2, rfl⟩

theorem Knows.record {row : Bool} {t : Table} {previous : Option Nat} {current : Nat}
    (h : Knows p ⟨row, .seen t previous current⟩ th) :
    Knows (p.record t previous current).2
      ⟨row, .sweeping t (if moved previous current then mapsOf t.caches else [])⟩
      (th.after p (.record t previous current) (moved previous current)) := by
  have hbasis : th.basis = current := h.phase.2.2
  have hgrown := h.mono (record_grows t previous current)
  cases hmoved : moved previous current with
  | true =>
    refine ⟨hgrown.row, hgrown.read, hgrown.since, hgrown.basis, ?_, ?_⟩
    · rintro t' ht
      exact (Option.some.inj ht).symm
    · exact fun c hc side => .inl (mem_mapsOf hc side)
  | false =>
    refine ⟨hgrown.row, hgrown.read, hgrown.since, hgrown.basis, ?_, ?_⟩
    · intro t' ht
      have hclearing : th.clearing = some t' := ht
      rw [h.phase.1] at hclearing
      cases hclearing
    · intro c hc side
      have hle : current ≤ (p.record t previous current).2.floor c side :=
        record_covers hmoved c hc side
      exact .inr (Nat.le_trans (Nat.le_of_eq hbasis) hle)

theorem Knows.clear {row : Bool} {t : Table} {left : List (CacheId × Side)}
    (h : Knows p ⟨row, .sweeping t ((c, side) :: left)⟩ th) :
    Knows (p.clear c side th.basis) ⟨row, .sweeping t left⟩ th := by
  have hgrown := h.mono (clear_grows c side th.basis)
  refine ⟨hgrown.row, hgrown.read, hgrown.since, hgrown.basis, h.phase.1, fun d hd side' => ?_⟩
  rcases hgrown.phase.2 d hd side' with hmem | hle
  · rcases List.mem_cons.mp hmem with heq | hleft
    · obtain ⟨rfl, rfl⟩ := Prod.mk.inj heq
      rw [clear_floor, if_pos ⟨rfl, rfl⟩]
      exact .inr (Nat.le_max_right _ _)
    · exact .inl hleft
  · exact .inr hle

theorem Knows.covers {row : Bool} {t : Table} (h : Knows p ⟨row, .sweeping t []⟩ th) :
    p.Covers t th.basis := by
  intro c hc side
  rcases h.phase.2 c hc side with hmem | hle
  · cases hmem
  · exact hle

theorem Knows.settle {row : Bool} {t : Table} (h : Knows p ⟨row, .sweeping t []⟩ th) :
    Knows { p with settled := raiseSettled p.settled t.caches th.basis } ⟨row, .idle⟩
      { th with clearing := none } := by
  have hgrown := h.mono (settle_grows t th.basis)
  exact ⟨hgrown.row, hgrown.read, hgrown.since, hgrown.basis, rfl⟩

theorem Knows.aside {row : Bool} {o : Op} {ans : o.Answer} (ho : o.aside = true)
    (h : Knows p ⟨row, .idle⟩ th) : Knows p ⟨row, .idle⟩ (th.after p o ans) := by
  cases o with
  | flight c key => exact ⟨h.row, h.read, h.since, h.basis, h.phase⟩
  | unlock id => exact ⟨h.row, h.read, h.since, h.basis, h.phase⟩
  | lock id => exact h
  | unlist c key id => exact h
  | openBreaker b => exact h
  | closeBreaker b => exact h
  | lookup c side key => cases ho
  | remove c side key => cases ho
  | insert c side cap key value => cases ho
  | generation t => cases ho
  | claim t interval => cases ho
  | isOpen b window => cases ho
  | findOrg f => cases ho
  | findHost host => cases ho
  | clear c side => cases ho
  | record t previous current => cases ho
  | settle t => cases ho

theorem aside_quiet {o : Op} (ho : o.aside = true) : o.quiet = true := by
  cases o <;> first | rfl | cases ho

end Rustango.Resolver
