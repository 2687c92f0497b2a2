import Rustango.JwtLifecycle.Protocol

/-!
# What the store and the calls have of a token

A recorded jti stays in the store while its token lives, and what a call has decided agrees with what is
recorded.
-/

namespace Rustango.JwtLifecycle

open Rustango.Threads
open Rustango.Url (Text)

variable (codec : Codec) (jwt : Config) (issued : Set Text)

/-- A recorded token is in the store until it expires, and what is in the store was recorded for one. -/
structure StoreLedger (capacity : Nat) (clock : Int) (store : JtiMap) (recorded : List (Text × Int)) : Prop where
  wellFormed : store.WellFormed
  bounded : store.map.length ≤ capacity
  live : ∀ e ∈ recorded, clock < e.2 → e ∈ store.map
  of_map : ∀ e ∈ store.map, e ∈ recorded ∧
    ∃ t ∈ issued, ∃ c, decodeSigned codec jwt t = some c ∧ e = (c.jti, c.exp)

/-- The token was recorded, or it expired. -/
def Dead {M : Type} (clock : Int) (recorded : List (Text × Int)) (c : JwtClaims M) : Prop :=
  (c.jti, c.exp) ∈ recorded ∨ c.exp ≤ clock

/-- A call and its phase. -/
structure Hold (M : Type) where
  call : Call M
  afterRevoke : Bool
  phase : Phase

/-- What is known of a call. -/
structure Knows (clock : Int) (recorded : List (Text × Int)) (h : Hold codec.json.Map) : Prop where
  issued : ∀ c, decodeSigned codec jwt h.call.token = some c → h.call.token ∈ issued
  dead : h.afterRevoke = true → ∀ c, decodeSigned codec jwt h.call.token = some c → Dead clock recorded c
  live : h.phase = .live → h.call.kind ≠ .revoke → h.afterRevoke = true →
    ∀ c, decodeSigned codec jwt h.call.token = some c → (c.jti, c.exp) ∈ recorded
  accepted : h.phase = .accepted → h.afterRevoke = false ∧ (h.call.kind = .redeem →
    ∃ c, decodeSigned codec jwt h.call.token = some c ∧ (c.jti, c.exp) ∈ recorded)
  revoked : h.phase = .revoked → ∃ c, decodeSigned codec jwt h.call.token = some c ∧ Dead clock recorded c

/-- The tokens whose redemption was the first to mark, their pair not returned yet. -/
def winners {M : Type} (holds : List (Hold M)) : List Text :=
  holds.filterMap fun h => if h.phase = .accepted ∧ h.call.kind = .redeem then some h.call.token else none

/-- A thread is at its call's phase. -/
structure At (h : Hold codec.json.Map) (th : Thread codec.json.Map) : Prop where
  call : th.call = h.call
  afterRevoke : th.afterRevoke = h.afterRevoke
  follows : th.prog.Follows (Moves h.call.kind (decodeSigned codec jwt h.call.token)) (Settled h.call.kind) h.phase

structure Ledger (capacity : Nat) (s : State codec.json.Map) (holds : List (Hold codec.json.Map)) : Prop where
  pool : List.Forall₂ (At codec jwt) holds s.threads
  knows : ∀ h ∈ holds, Knows codec jwt issued s.clock s.recorded h
  store : StoreLedger codec jwt issued capacity s.clock s.store s.recorded
  once : (winners holds ++ s.pairs).Nodup
  paired : ∀ t ∈ s.pairs, ∃ c, decodeSigned codec jwt t = some c ∧ (c.jti, c.exp) ∈ s.recorded
  revoked : ∀ t ∈ s.revoked, ∃ c, decodeSigned codec jwt t = some c ∧ Dead s.clock s.recorded c
  accepted : ∀ a ∈ s.accepted, a.2 = false

variable {codec} {jwt} {issued} {capacity : Nat} {clock clock' : Int} {store : JtiMap} {recorded recorded' : List (Text × Int)}

theorem Dead.mono {M : Type} {c : JwtClaims M} (hclock : clock ≤ clock') (hrec : recorded ⊆ recorded')
    (h : Dead clock recorded c) : Dead clock' recorded' c :=
  h.imp (fun hmem => hrec hmem) fun hpast => hpast.trans hclock

theorem Knows.mono {h : Hold codec.json.Map} (hclock : clock ≤ clock') (hrec : recorded ⊆ recorded')
    (hk : Knows codec jwt issued clock recorded h) : Knows codec jwt issued clock' recorded' h where
  issued := hk.issued
  dead hafter c hc := (hk.dead hafter c hc).mono hclock hrec
  live hphase hkind hafter c hc := hrec (hk.live hphase hkind hafter c hc)
  accepted hphase := by
    obtain ⟨hafter, hredeem⟩ := hk.accepted hphase
    refine ⟨hafter, fun hkind => ?_⟩
    obtain ⟨c, hc, hmem⟩ := hredeem hkind
    exact ⟨c, hc, hrec hmem⟩
  revoked hphase := by
    obtain ⟨c, hc, hdead⟩ := hk.revoked hphase
    exact ⟨c, hc, hdead.mono hclock hrec⟩

theorem StoreLedger.tick (h : StoreLedger codec jwt issued capacity clock store recorded) (hclock : clock ≤ clock') :
    StoreLedger codec jwt issued capacity clock' store recorded where
  wellFormed := h.wellFormed
  bounded := h.bounded
  live e he hlive := h.live e he (hclock.trans_lt hlive)
  of_map := h.of_map

section Operations
variable (h : StoreLedger codec jwt issued capacity clock store recorded) {t : Text} {c : JwtClaims codec.json.Map}
include h

theorem StoreLedger.markUsed (ht : t ∈ issued) (hc : decodeSigned codec jwt t = some c) :
    StoreLedger codec jwt issued capacity clock (store.markUsed capacity clock c.jti c.exp).2
      (noteMarked recorded (.markUsed c.jti c.exp) (store.markUsed capacity clock c.jti c.exp).1) := by
  have hmarked : JtiMap.Marked store clock c.jti c.exp (store.markUsed capacity clock c.jti c.exp).1
      (store.markUsed capacity clock c.jti c.exp).2 := JtiMap.markUsed_spec h.wellFormed
  have hbounded : (store.markUsed capacity clock c.jti c.exp).2.map.length ≤ capacity :=
    JtiMap.length_markUsed h.bounded
  generalize hans : (store.markUsed capacity clock c.jti c.exp).1 = answer at hmarked
  generalize (store.markUsed capacity clock c.jti c.exp).2 = after at hmarked hbounded
  have hnoted : ∀ e, e ∈ noteMarked recorded (.markUsed c.jti c.exp) answer ↔
      e ∈ recorded ∨ answer = true ∧ e = (c.jti, c.exp) := by
    cases answer <;> simp [noteMarked, or_comm]
  constructor
  · exact hmarked.wellFormed
  · exact hbounded
  · intro e he hlive
    rw [hmarked.mem_iff]
    exact ((hnoted e).1 he).imp (fun hold => ⟨h.live e hold hlive, hlive⟩) id
  · intro e he
    rw [hnoted]
    cases (hmarked.mem_iff e).1 he with
    | inl hold => exact ⟨.inl (h.of_map e hold.1).1, (h.of_map e hold.1).2⟩
    | inr hnew => exact ⟨.inr hnew, t, ht, c, hc, hnew.2⟩

theorem StoreLedger.past_of_first (hfirst : (store.markUsed capacity clock c.jti c.exp).1 = true)
    (hrec : (c.jti, c.exp) ∈ recorded) : c.exp ≤ clock := by
  by_contra hlive
  rw [not_le] at hlive
  exact (JtiMap.markUsed_spec h.wellFormed).first hfirst _ (h.live _ hrec hlive) hlive rfl

theorem StoreLedger.isUsed_of_recorded (hrec : (c.jti, c.exp) ∈ recorded) (hlive : clock < c.exp) :
    store.containsKey c.jti = true :=
  JtiMap.containsKey_of_mem (h.live _ hrec hlive)

theorem StoreLedger.recorded_of_isUsed (hdistinct : Distinct codec jwt issued) (ht : t ∈ issued)
    (hc : decodeSigned codec jwt t = some c) (hused : store.containsKey c.jti = true) :
    (c.jti, c.exp) ∈ recorded := by
  obtain ⟨exp, hmem⟩ := JtiMap.exists_of_containsKey hused
  obtain ⟨hrec, t', ht', c', hc', heq⟩ := h.of_map _ hmem
  obtain ⟨hjti, hexp⟩ := Prod.mk.inj heq
  have hsame : t = t' := hdistinct t ht t' ht' c c' hc hc' hjti
  rw [← hsame, hc] at hc'
  rwa [hexp, ← Option.some.inj hc'] at hrec

end Operations

end Rustango.JwtLifecycle
