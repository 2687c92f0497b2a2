import Rustango.Idempotency.Step

/-!
# Markers

Every marker of the cache belongs to one request, which holds it, in every state a run reaches.
-/

namespace Rustango.Idempotency

open Function Rustango.Runs

variable {R A : Type}

theorem Request.legacy_mem_markers (q : Request) : Key.legacy ∈ q.markers := by
  cases h : q.legacyOnly <;> simp [Request.markers, Request.keys, h]

/-- The markers a request holds where `handle` relies on them. -/
def Progress.Holds (q : Request) : Progress A → Prop
  | .reading .owning _ held | .running held | .storing _ _ held => held = q.markers
  | .reading _ _ held => held = []
  | .adding left held => held ++ left = q.markers
  | _ => True

section Local
variable {q : Request} {t : Token R} {c c' : Cache R A} {p p' : Progress A}

private theorem proceed_holds (h : Proceeds q t c p c' p') (hp : p.Holds q) : p'.Holds q := by
  cases h with
  | @miss why _ _ _ _ => cases why <;> exact hp
  | unanswered => simpa [Progress.Holds] using hp
  | run | store => exact hp
  | add _ => simpa [Progress.Holds] using hp
  | owning => simpa [Progress.Holds] using hp
  | arrive | reread => rfl
  | _ => trivial

private theorem proceed_moves (h : Proceeds q t c p c' p') (hp : p.Holds q) :
    Moves t c.marker p.held c'.marker p'.held := by
  cases h with
  | lost =>
    obtain rfl := hp
    exact .keeps (.refl _)
  | add free => exact .takes _ free
  | skip other => exact .finds _ other (.refl _)
  | delete => exact .frees _ (.refl _)
  | _ => exact .keeps (.refl _)

/-- A step keeps the books of its own request and leaves the tokens of the others where they are. -/
theorem Moves.books {marker marker' : Key → Option (Token R)} {held held' : List Key}
    (h : Moves t marker held marker' held') (own : ∀ k, k ∈ held ↔ marker k = some t)
    (distinct : held.Nodup) :
    (∀ k, k ∈ held' ↔ marker' k = some t) ∧ held'.Nodup ∧
      ∀ k t', t' ≠ t → (marker' k = some t' ↔ marker k = some t') := by
  cases h with
  | keeps same =>
    exact ⟨fun k => same.mem_iff.symm.trans (own k), same.nodup_iff.mp distinct, fun _ _ _ => .rfl⟩
  | takes k free =>
    have hk : k ∉ held := by rw [own, free]; nofun
    refine ⟨fun x => ?_, distinct.append (List.nodup_singleton k) (by simpa using hk), fun x t' ht => ?_⟩
    · by_cases hx : x = k
      · simp [hx]
      · simp [hx, own]
    · by_cases hx : x = k
      · simp [hx, free, ht.symm]
      · simp [hx]
  | frees k same =>
    have hnd := List.nodup_cons.mp (same.nodup_iff.mp distinct)
    have hk : marker k = some t := (own k).mp (same.mem_iff.mpr (List.mem_cons_self))
    refine ⟨fun x => ?_, hnd.2, fun x t' ht => ?_⟩
    · by_cases hx : x = k
      · simp [hx, hnd.1]
      · simp [hx, ← own, same.mem_iff]
    · by_cases hx : x = k
      · simp [hx, hk, ht.symm]
      · simp [hx]
  | finds k other same => exact absurd ((own k).mp (same.mem_iff.mpr List.mem_cons_self)) other

end Local

section Owned
variable (req : R → Request)

/-- Every marker is held by the one request whose token it carries. -/
structure Owned (w : World R A) : Prop where
  holds : ∀ r, (w.progress r).Holds (req r)
  distinct : ∀ r, (w.progress r).held.Nodup
  mem_held : ∀ r k, k ∈ (w.progress r).held ↔ w.cache.marker k = some (token req r)
  issued : ∀ k t, w.cache.marker k = some t → t = token req t.nonce

variable {req} {w w' : World R A}

theorem Owned.initial : Owned req (World.initial : World R A) where
  holds _ := trivial
  distinct _ := .nil
  mem_held _ _ := ⟨nofun, nofun⟩
  issued := nofun

private theorem token_inj {r r' : R} : token req r = token req r' ↔ r = r' :=
  ⟨congrArg Token.nonce, congrArg _⟩

theorem Owned.unique (h : Owned req w) {r r' : R} {k : Key} (hr : k ∈ (w.progress r).held)
    (hr' : k ∈ (w.progress r').held) : r = r' := by
  have hk := (h.mem_held r k).mp hr
  have hk' := (h.mem_held r' k).mp hr'
  exact token_inj.mp (Option.some.inj (hk.symm.trans hk'))

theorem Owned.exclusive (h : Owned req w) {r r' : R} (hr : (w.progress r).held = (req r).markers)
    (hr' : (w.progress r').held = (req r').markers) : r = r' :=
  h.unique (hr ▸ (req r).legacy_mem_markers) (hr' ▸ (req r').legacy_mem_markers)

theorem Owned.running (h : Owned req w) {r : R} (hr : (w.progress r).isRunning = true) :
    (w.progress r).held = (req r).markers := by
  have hh := h.holds r
  generalize w.progress r = p at hr hh
  cases p with
  | running held => exact hh
  | _ => cases hr

theorem Owned.marked (h : Owned req w) {k : Key} {t : Token R} (hk : w.cache.marker k = some t) :
    k ∈ (w.progress t.nonce).held := by
  rw [h.mem_held, ← h.issued k t hk, hk]

theorem Owned.none_left (h : Owned req w) (ended : ∀ r, (w.progress r).isEnded = true) (k : Key) :
    w.cache.marker k = none := by
  cases hk : w.cache.marker k with
  | none => rfl
  | some t =>
    have hheld := h.marked hk
    have hend := ended t.nonce
    generalize w.progress t.nonce = p at hheld hend
    cases p with
    | dropped checking deleting =>
      cases checking <;> cases deleting <;> simp_all [Progress.isEnded, Progress.held]
    | absent | ended => cases hheld
    | _ => cases hend

variable [DecidableEq R]

theorem Owned.move (h : Owned req w) {r : R} {c : Cache R A} {p : Progress A}
    (holds : p.Holds (req r))
    (moves : Moves (token req r) w.cache.marker (w.progress r).held c.marker p.held) :
    Owned req (w.set r (c, p)) := by
  have hset := fun r' => w.set_progress r r' c p
  have hcache : (w.set r (c, p)).cache = c := rfl
  obtain ⟨own, distinct, others⟩ := moves.books (h.mem_held r) (h.distinct r)
  refine ⟨fun r' => ?_, fun r' => ?_, fun r' k => ?_, fun k t ht => ?_⟩
  · rw [hset]
    split
    · subst r'; exact holds
    · exact h.holds r'
  · rw [hset]
    split
    · exact distinct
    · exact h.distinct r'
  · rw [hset, hcache]
    split
    · subst r'; exact own k
    · rename_i hne
      rw [others k _ fun he => hne (token_inj.mp he)]
      exact h.mem_held r' k
  · by_cases hr : t = token req r
    · rw [hr]; rfl
    · exact h.issued k t ((others k t hr).mp ht)

theorem step_owned {e : Event R A} (h : step req e w = some w') (owned : Owned req w) :
    Owned req w' := by
  obtain ⟨c, p, acts, rfl⟩ := step_cases h
  have hh := owned.holds e.request
  cases acts with
  | proceeds rule => exact owned.move (proceed_holds rule hh) (proceed_moves rule hh)
  | stores running =>
    rw [running] at hh
    exact owned.move hh (.keeps (running ▸ .refl _))
  | answers running _ => exact owned.move trivial (.keeps (running ▸ .refl _))
  | drops _ =>
    refine owned.move trivial (.keeps ?_)
    simp [Progress.held]
  | cleans _ _ moves => exact owned.move trivial moves

end Owned

end Rustango.Idempotency
