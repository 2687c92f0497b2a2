import Rustango.JwtLifecycle.Ledger

/-!
# A token is redeemed once

Every step keeps the ledger, where the store is asked in time: so a refresh token yields one pair, and what was
revoked is not accepted again.
-/

namespace Rustango.JwtLifecycle

open Rustango.Runs Rustango.Threads
open Rustango.Url (Text)

variable {codec : Codec} {jwt : Config} {issued : Set Text} {capacity : Nat} {clock : Int} {store : JtiMap}
  {recorded : List (Text × Int)}

private theorem noteMarked_subset (recorded : List (Text × Int)) (o : Op) (ans : o.Answer) :
    recorded ⊆ noteMarked recorded o ans := by
  unfold noteMarked
  split
  · exact List.subset_cons_self _ _
  · exact List.Subset.refl _

/-- What an operation keeps and tells of its call. -/
structure Stepped (codec : Codec) (jwt : Config) (issued : Set Text) (capacity : Nat) (clock : Int)
    (recorded recorded' : List (Text × Int)) (store' : JtiMap) (h : Hold codec.json.Map) (p' : Phase) : Prop where
  store : StoreLedger codec jwt issued capacity clock store' recorded'
  knows : Knows codec jwt issued clock recorded' { h with phase := p' }
  first : p' = .accepted → h.call.kind = .redeem → h.phase = .accepted ∨
    ∀ c, decodeSigned codec jwt h.call.token = some c → (c.jti, c.exp) ∉ recorded

section Operation
variable {h : Hold codec.json.Map} (hknows : Knows codec jwt issued clock recorded h)
  {claims : JwtClaims codec.json.Map} (hc : decodeSigned codec jwt h.call.token = some claims)
include hknows hc

theorem Knows.undecided {p' : Phase} (hlive : p' = .live → h.call.kind ≠ .revoke → h.afterRevoke = true →
      (claims.jti, claims.exp) ∈ recorded) (haccepted : p' ≠ .accepted) (hrevoked : p' ≠ .revoked) :
    Knows codec jwt issued clock recorded { h with phase := p' } where
  issued := hknows.issued
  dead := hknows.dead
  live hphase hkind hafter c hc' := by
    rw [← Option.some.inj (hc.symm.trans hc')]
    exact hlive hphase hkind hafter
  accepted hphase := absurd hphase haccepted
  revoked hphase := absurd hphase hrevoked

theorem Knows.revoke (hdead : Dead clock recorded claims) : Knows codec jwt issued clock recorded { h with phase := .revoked } where
  issued := hknows.issued
  dead := hknows.dead
  live hphase := by cases hphase
  accepted hphase := by cases hphase
  revoked _ := ⟨claims, hc, hdead⟩

variable (hstore : StoreLedger codec jwt issued capacity clock store recorded)
include hstore

private theorem stepped_check :
    Stepped codec jwt issued capacity clock recorded recorded store h (if clock < claims.exp then .live else .refused) where
  store := hstore
  knows := by
    apply hknows.undecided hc
    · intro hphase _ hafter
      have hlive : clock < claims.exp := by
        by_contra hpast
        rw [if_neg hpast] at hphase
        cases hphase
      exact (hknows.dead hafter claims hc).resolve_right (not_le.2 hlive)
    · split <;> simp
    · split <;> simp
  first hphase := by
    split at hphase <;> cases hphase

private theorem stepped_mark (hkind : h.call.kind = .redeem) (hphase : h.phase = .live)
    (htimely : (claims.jti, claims.exp) ∈ recorded → clock < claims.exp) :
    Stepped codec jwt issued capacity clock recorded
      (noteMarked recorded (.markUsed claims.jti claims.exp) (store.markUsed capacity clock claims.jti claims.exp).1)
      (store.markUsed capacity clock claims.jti claims.exp).2 h
      (if (store.markUsed capacity clock claims.jti claims.exp).1 then .accepted else .refused) := by
  have hkept := hstore.markUsed (hknows.issued claims hc) hc
  have hnew : (store.markUsed capacity clock claims.jti claims.exp).1 = true → (claims.jti, claims.exp) ∉ recorded := by
    intro hfirst hrec
    exact absurd (hstore.past_of_first hfirst hrec) (not_le.2 (htimely hrec))
  have hgrown := hknows.mono (le_refl clock) (noteMarked_subset recorded
    (.markUsed claims.jti claims.exp) (store.markUsed capacity clock claims.jti claims.exp).1)
  cases hans : (store.markUsed capacity clock claims.jti claims.exp).1 with
  | false =>
    rw [hans] at hkept hgrown
    exact ⟨hkept, hgrown.undecided hc (fun h => by cases h) (by simp) (by simp), fun h => by cases h⟩
  | true =>
    rw [hans] at hkept hgrown
    refine ⟨hkept, ?_, ?_⟩
    · constructor
      · exact hknows.issued
      · exact hgrown.dead
      · intro hp
        cases hp
      · intro _
        constructor
        · by_contra hafter
          rw [Bool.not_eq_false] at hafter
          exact hnew hans (hknows.live hphase (by simp [hkind]) hafter claims hc)
        · exact fun _ => ⟨claims, hc, List.mem_cons_self⟩
      · intro hp
        cases hp
    · intro _ _
      right
      intro c hc'
      rw [← Option.some.inj (hc.symm.trans hc')]
      exact hnew hans

private theorem stepped_look (hkind : h.call.kind = .verify) (hphase : h.phase = .live)
    (htimely : (claims.jti, claims.exp) ∈ recorded → clock < claims.exp) :
    Stepped codec jwt issued capacity clock recorded recorded store h
      (if store.containsKey claims.jti then .refused else .accepted) where
  store := hstore
  knows := by
    cases hused : store.containsKey claims.jti with
    | true => exact hknows.undecided hc (fun h => by cases h) (by simp) (by simp)
    | false =>
      constructor
      · exact hknows.issued
      · exact hknows.dead
      · intro hp
        cases hp
      · intro _
        constructor
        · by_contra hafter
          rw [Bool.not_eq_false] at hafter
          have hrec := hknows.live hphase (by simp [hkind]) hafter claims hc
          rw [hstore.isUsed_of_recorded hrec (htimely hrec)] at hused
          cases hused
        · intro hredeem
          rw [hkind] at hredeem
          cases hredeem
      · intro hp
        cases hp
  first _ hredeem := by
    rw [hkind] at hredeem
    cases hredeem

private theorem stepped_checkRevoked (hkind : h.call.kind = .revoke) :
    Stepped codec jwt issued capacity clock recorded recorded store h (if claims.exp ≤ clock then .revoked else .live) where
  store := hstore
  knows := by
    split
    · rename_i hpast
      exact hknows.revoke hc (.inr hpast)
    · exact hknows.undecided hc (fun _ hne => absurd hkind hne) (by simp) (by simp)
  first hphase := by
    split at hphase <;> cases hphase

private theorem stepped_markRevoked : Stepped codec jwt issued capacity clock recorded
      (noteMarked recorded (.markUsed claims.jti claims.exp) (store.markUsed capacity clock claims.jti claims.exp).1)
      (store.markUsed capacity clock claims.jti claims.exp).2 h
      (if (store.markUsed capacity clock claims.jti claims.exp).1 then .revoked else .unmarked) := by
  have hkept := hstore.markUsed (hknows.issued claims hc) hc
  have hgrown := hknows.mono (le_refl clock) (noteMarked_subset recorded
    (.markUsed claims.jti claims.exp) (store.markUsed capacity clock claims.jti claims.exp).1)
  cases hans : (store.markUsed capacity clock claims.jti claims.exp).1 with
  | false =>
    rw [hans] at hkept hgrown
    exact ⟨hkept, hgrown.undecided hc (fun h => by cases h) (by simp) (by simp), fun h => by cases h⟩
  | true =>
    rw [hans] at hkept hgrown
    exact ⟨hkept, hgrown.revoke hc (.inl List.mem_cons_self), fun h => by cases h⟩

private theorem stepped_lookRevoked (hdistinct : Distinct codec jwt issued) :
    Stepped codec jwt issued capacity clock recorded recorded store h
      (if store.containsKey claims.jti then .revoked else .refused) where
  store := hstore
  knows := by
    cases hused : store.containsKey claims.jti with
    | true => exact hknows.revoke hc (.inl (hstore.recorded_of_isUsed hdistinct (hknows.issued claims hc) hc hused))
    | false => exact hknows.undecided hc (fun h => by cases h) (by simp) (by simp)
  first hphase := by
    split at hphase <;> cases hphase

end Operation

private theorem stepped_issue {h : Hold codec.json.Map} (hknows : Knows codec jwt issued clock recorded h)
    (hstore : StoreLedger codec jwt issued capacity clock store recorded) (hphase : h.phase = .accepted) :
    Stepped codec jwt issued capacity clock recorded recorded store h .accepted where
  store := hstore
  knows := by
    rw [← hphase]
    exact hknows
  first _ _ := .inl hphase

/-- Whatever the operation, where the store is asked in time. -/
theorem Moves.stepped {h : Hold codec.json.Map} (hknows : Knows codec jwt issued clock recorded h)
    (hstore : StoreLedger codec jwt issued capacity clock store recorded) (hdistinct : Distinct codec jwt issued)
    {o : Op} {p' : Phase} {random : Text} (htimely : o.asksStore = true → h.call.kind ≠ .revoke →
      ∀ c, decodeSigned codec jwt h.call.token = some c → (c.jti, c.exp) ∈ recorded → clock < c.exp)
    (hmove : Moves h.call.kind (decodeSigned codec jwt h.call.token) h.phase o (o.run capacity clock random store).1 p') :
    Stepped codec jwt issued capacity clock recorded (noteMarked recorded o (o.run capacity clock random store).1)
      (o.run capacity clock random store).2 h p' := by
  generalize hphase : h.phase = p at hmove
  generalize hans : (o.run capacity clock random store).1 = ans at hmove ⊢
  cases hmove with
  | check hc hk now =>
    subst hans
    exact stepped_check hknows hc hstore
  | mark hc hk first =>
    subst hans
    exact stepped_mark hknows hc hstore hk hphase (htimely rfl (by simp [hk]) _ hc)
  | look hc hk used =>
    subst hans
    exact stepped_look hknows hc hstore hk hphase (htimely rfl (by simp [hk]) _ hc)
  | issueAt hk now => exact stepped_issue hknows hstore hphase
  | issueJti jti => exact stepped_issue hknows hstore hphase
  | checkRevoked hc hk now =>
    subst hans
    exact stepped_checkRevoked hknows hc hstore hk
  | markRevoked hc hk first =>
    subst hans
    exact stepped_markRevoked hknows hc hstore
  | lookRevoked hc hk used =>
    subst hans
    exact stepped_lookRevoked hknows hc hstore hdistinct

section Winners
variable {M : Type} {before after : List (Hold M)} {h : Hold M}

/-- The token of a call that has won. -/
def won (h : Hold M) : List Text := if h.phase = .accepted ∧ h.call.kind = .redeem then [h.call.token] else []

private theorem winners_append :
    winners (before ++ h :: after) = winners before ++ (won h ++ winners after) := by
  unfold winners won
  rw [List.filterMap_append, List.filterMap_cons]
  split <;> simp_all

end Winners

section Steps
variable {s : State codec.json.Map} {holds before after : List (Hold codec.json.Map)} {h : Hold codec.json.Map}

theorem Ledger.recorded_of_winner (L : Ledger codec jwt issued capacity s holds) {t : Text} (ht : t ∈ winners holds) :
    ∃ c, decodeSigned codec jwt t = some c ∧ (c.jti, c.exp) ∈ s.recorded := by
  obtain ⟨h, hmem, hwon⟩ := List.mem_filterMap.1 ht
  split at hwon
  · rename_i hphase
    cases hwon
    exact ((L.knows h hmem).accepted hphase.1).2 hphase.2
  · cases hwon

/-- Of all but one call the tokens stay the same; that one wins anew only with a token not recorded. -/
theorem Ledger.winners_step (L : Ledger codec jwt issued capacity s (before ++ h :: after)) {p' : Phase}
    (hfirst : p' = .accepted → h.call.kind = .redeem → h.phase = .accepted ∨
      ∀ c, decodeSigned codec jwt h.call.token = some c → (c.jti, c.exp) ∉ s.recorded) :
    (winners (before ++ { h with phase := p' } :: after) ++ s.pairs).Nodup := by
  have hold := L.once
  rw [winners_append] at hold ⊢
  have hrest : (winners before ++ winners after ++ s.pairs).Nodup := by
    refine List.Nodup.sublist ?_ hold
    simp only [List.append_assoc]
    exact (List.Sublist.refl _).append (List.sublist_append_right _ _)
  by_cases hwon : p' = .accepted ∧ h.call.kind = .redeem
  · cases hfirst hwon.1 hwon.2 with
    | inl hsame =>
      have heq : won { h with phase := p' } = won h := by simp [won, hwon, hsame]
      rwa [heq]
    | inr hnew =>
      have hone : won { h with phase := p' } = [h.call.token] := by simp [won, hwon]
      rw [hone]
      have hnot : h.call.token ∉ winners before ++ winners after ++ s.pairs := by
        intro hmem
        obtain ⟨c, hc, hrec⟩ : ∃ c, decodeSigned codec jwt h.call.token = some c ∧ (c.jti, c.exp) ∈ s.recorded := by
          rw [List.mem_append, List.mem_append, or_assoc] at hmem
          rcases hmem with hmem | hmem | hmem
          · apply L.recorded_of_winner
            rw [winners_append]
            exact List.mem_append_left _ hmem
          · apply L.recorded_of_winner
            rw [winners_append]
            exact List.mem_append_right _ (List.mem_append_right _ hmem)
          · exact L.paired _ hmem
        exact hnew c hc hrec
      have hperm : (winners before ++ ([h.call.token] ++ winners after) ++ s.pairs).Perm
          (h.call.token :: (winners before ++ winners after ++ s.pairs)) := by
        simp only [List.append_assoc, List.singleton_append]
        exact List.perm_middle
      exact hperm.nodup_iff.2 (List.nodup_cons.2 ⟨hnot, hrest⟩)
  · have hnone : won { h with phase := p' } = [] := by simp [won, hwon]
    rwa [hnone, List.nil_append]

theorem Ledger.act (L : Ledger codec jwt issued capacity s holds) (hdistinct : Distinct codec jwt issued) {i : Nat}
    {random : Text} {th : Thread codec.json.Map} {o : Op} {next : o.Answer → JwtProg (Reply codec.json.Map)}
    (hi : s.threads[i]? = some th) (hprog : th.prog = .op o next) (htimely : Timely codec jwt s (.step i random)) :
    ∃ holds', Ledger codec jwt issued capacity (s.act capacity random i th o next) holds' := by
  obtain ⟨before, h, after, hholds, hAt, hset, -⟩ := forall₂_at L.pool hi
  subst hholds
  have hfollows := hAt.follows
  rw [hprog] at hfollows
  obtain ⟨p', hmove, hnext⟩ := hfollows (o.run capacity s.clock random s.store).1
  have hmem : h ∈ before ++ h :: after := List.mem_append_right _ List.mem_cons_self
  have hstep := Moves.stepped (L.knows h hmem) L.store hdistinct (fun hasks hkind c hc =>
    htimely th o c hi (by rwa [hAt.call]) (by rw [hprog]; rfl) hasks (by rwa [hAt.call])) hmove
  have hgrows := noteMarked_subset s.recorded o (o.run capacity s.clock random s.store).1
  refine ⟨before ++ { h with phase := p' } :: after, ?_, ?_, hstep.store, L.winners_step hstep.first, ?_, ?_, L.accepted⟩
  · exact hset _ _ ⟨hAt.call, hAt.afterRevoke, hnext⟩
  · intro h' hh'
    rw [List.mem_append, List.mem_cons] at hh'
    rcases hh' with hb | hsame | ha
    · exact (L.knows h' (List.mem_append_left _ hb)).mono (le_refl _) hgrows
    · rw [hsame]
      exact hstep.knows
    · exact (L.knows h' (List.mem_append_right _ (List.mem_cons_of_mem _ ha))).mono (le_refl _) hgrows
  · intro t ht
    obtain ⟨c, hc, hrec⟩ := L.paired t ht
    exact ⟨c, hc, hgrows hrec⟩
  · intro t ht
    obtain ⟨c, hc, hdead⟩ := L.revoked t ht
    exact ⟨c, hc, hdead.mono (le_refl _) hgrows⟩

theorem Ledger.finish (L : Ledger codec jwt issued capacity s holds) {i : Nat} {th : Thread codec.json.Map}
    {reply : Reply codec.json.Map} (hi : s.threads[i]? = some th) (hprog : th.prog = .ret reply) :
    ∃ holds', Ledger codec jwt issued capacity (s.return_ i th reply) holds' := by
  obtain ⟨before, h, after, hholds, hAt, -, herase⟩ := forall₂_at L.pool hi
  subst hholds
  have hmem : h ∈ before ++ h :: after := List.mem_append_right _ List.mem_cons_self
  have hknows := L.knows h hmem
  have hsettled : Settled h.call.kind reply h.phase := by
    have hfollows := hAt.follows
    rwa [hprog] at hfollows
  have hpair : reply.yieldsPair = true → h.phase = .accepted ∧ h.call.kind = .redeem := fun hyields =>
    ⟨hsettled.accepted (accepts_of_yieldsPair hyields), hsettled.pair hyields⟩
  refine ⟨before ++ after, herase, ?_, L.store, ?_, ?_, ?_, ?_⟩
  · intro h' hh'
    exact L.knows h' (List.append_subset.2 ⟨List.subset_append_left _ _, fun x hx =>
      List.mem_append_right _ (List.mem_cons_of_mem _ hx)⟩ hh')
  · have hold := L.once
    rw [winners_append] at hold
    have hsplit : winners (before ++ after) = winners before ++ winners after := List.filterMap_append
    simp only [State.return_, hsplit]
    split
    · rename_i hyields
      have hone : won h = [th.call.token] := by simp [won, hpair hyields, hAt.call]
      rw [hone] at hold
      refine (List.Perm.nodup_iff ?_).1 hold
      simp only [List.append_assoc, List.singleton_append]
      exact List.Perm.append_left _ List.perm_middle.symm
    · refine List.Nodup.sublist ?_ hold
      simp only [List.append_assoc]
      exact (List.Sublist.refl _).append (List.sublist_append_right _ _)
  · intro t ht
    simp only [State.return_] at ht
    split at ht
    · rename_i hyields
      cases List.mem_cons.1 ht with
      | inl hsame =>
        rw [hsame, hAt.call]
        exact (hknows.accepted (hpair hyields).1).2 (hpair hyields).2
      | inr hmem => exact L.paired t hmem
    · exact L.paired t ht
  · intro t ht
    simp only [State.return_] at ht
    split at ht
    · rename_i hrevokes
      cases List.mem_cons.1 ht with
      | inl hsame =>
        rw [hsame, hAt.call]
        exact hknows.revoked (hsettled.revoked hrevokes)
      | inr hmem => exact L.revoked t hmem
    · exact L.revoked t ht
  · intro a ha
    simp only [State.return_] at ha
    split at ha
    · rename_i haccepts
      cases List.mem_cons.1 ha with
      | inl hsame =>
        rw [hsame]
        exact hAt.afterRevoke.trans (hknows.accepted (hsettled.accepted haccepts)).1
      | inr hmem => exact L.accepted a hmem
    · exact L.accepted a ha

theorem Ledger.tick (L : Ledger codec jwt issued capacity s holds) {clock : Int} (hclock : s.clock ≤ clock) :
    Ledger codec jwt issued capacity { s with clock := clock } holds where
  pool := L.pool
  knows h hh := (L.knows h hh).mono hclock (List.Subset.refl _)
  store := L.store.tick hclock
  once := L.once
  paired := L.paired
  revoked t ht := by
    obtain ⟨c, hc, hdead⟩ := L.revoked t ht
    exact ⟨c, hc, hdead.mono hclock (List.Subset.refl _)⟩
  accepted := L.accepted

theorem Ledger.call (L : Ledger codec jwt issued capacity s holds) {c : Call codec.json.Map}
    (hunforged : Unforged codec jwt issued (.call c)) : Ledger codec jwt issued capacity
      { s with threads := s.threads ++ [⟨c, decide (c.token ∈ s.revoked), callProg codec jwt c⟩] }
      (holds ++ [⟨c, decide (c.token ∈ s.revoked), .start⟩]) where
  pool := List.rel_append L.pool (.cons ⟨rfl, rfl, callProg_follows c⟩ .nil)
  knows h hh := by
    cases List.mem_append.1 hh with
    | inl hold => exact L.knows h hold
    | inr hnew =>
      rw [List.mem_singleton.1 hnew]
      constructor
      · exact hunforged
      · intro hafter claims hclaims
        obtain ⟨c', hc', hdead⟩ := L.revoked _ (of_decide_eq_true hafter)
        rwa [← Option.some.inj (hc'.symm.trans hclaims)]
      · intro hphase
        cases hphase
      · intro hphase
        cases hphase
      · intro hphase
        cases hphase
  store := L.store
  once := by
    have hsame : winners (holds ++ [⟨c, decide (c.token ∈ s.revoked), .start⟩]) = winners holds := by
      simp [winners]
    rw [hsame]
    exact L.once
  paired := L.paired
  revoked := L.revoked
  accepted := L.accepted

/-- Every step keeps the ledger. -/
theorem Ledger.step (L : Ledger codec jwt issued capacity s holds) (hdistinct : Distinct codec jwt issued)
    {e : Event codec.json.Map} {s' : State codec.json.Map} (hunforged : Unforged codec jwt issued e)
    (htimely : Timely codec jwt s e) (hstep : JwtLifecycle.step codec jwt capacity e s = some s') :
    ∃ holds', Ledger codec jwt issued capacity s' holds' := by
  cases e with
  | tick clock =>
    simp only [JwtLifecycle.step] at hstep
    split at hstep
    · rename_i hclock
      cases hstep
      exact ⟨holds, L.tick hclock⟩
    · cases hstep
  | call c =>
    cases hstep
    exact ⟨_, L.call hunforged⟩
  | step i random =>
    simp only [JwtLifecycle.step] at hstep
    split at hstep
    · rename_i call afterRevoke o next hi
      cases hstep
      exact L.act hdistinct hi rfl htimely
    · cases hstep
  | finish i =>
    simp only [JwtLifecycle.step] at hstep
    split at hstep
    · rename_i call afterRevoke reply hi
      cases hstep
      exact L.finish hi rfl
    · cases hstep

end Steps

private theorem ledger_fresh (clock : Int) : Ledger codec jwt issued capacity (fresh clock) [] where
  pool := .nil
  knows := by simp
  store := ⟨JtiMap.wellFormed_default, Nat.zero_le _, by simp [fresh], by simp [fresh, JtiMap.default]⟩
  once := List.nodup_nil
  paired := by simp [fresh]
  revoked := by simp [fresh]
  accepted := by simp [fresh]

section Store
variable {s s' : State codec.json.Map} {e : Event codec.json.Map}

private theorem store_of_reach {start : Int}
    (h : Reach (step codec jwt capacity) (fun _ _ => True) (fresh start) s) :
    s.store.WellFormed ∧ s.store.map.length ≤ capacity := by
  refine h.invariant (P := fun s => s.store.WellFormed ∧ s.store.map.length ≤ capacity) ?_ ?_
  · exact ⟨JtiMap.wellFormed_default, Nat.zero_le _⟩
  · intro e s s' _ hstep hs
    cases e with
    | tick clock =>
      simp only [step] at hstep
      split at hstep <;> cases hstep
      exact hs
    | call c =>
      cases hstep
      exact hs
    | step i random =>
      simp only [step] at hstep
      split at hstep
      · rename_i call afterRevoke o next hi
        cases hstep
        cases o with
        | now => exact hs
        | isUsed jti => exact hs
        | markUsed jti exp => exact ⟨(JtiMap.markUsed_spec hs.1).wellFormed, JtiMap.length_markUsed hs.2⟩
        | randomJti => exact hs
      · cases hstep
    | finish i =>
      simp only [step] at hstep
      split at hstep <;> cases hstep
      exact hs

private theorem keepsEntries_of_step (hs : s.store.WellFormed) (hstep : step codec jwt capacity e s = some s') :
    KeepsEntries s s' := by
  intro entry hentry hlive
  cases e with
  | tick clock =>
    simp only [step] at hstep
    split at hstep <;> cases hstep
    exact hentry
  | call c =>
    cases hstep
    exact hentry
  | step i random =>
    simp only [step] at hstep
    split at hstep
    · rename_i call afterRevoke o next hi
      cases hstep
      cases o with
      | now => exact hentry
      | isUsed jti => exact hentry
      | markUsed jti exp => exact ((JtiMap.markUsed_spec hs).mem_iff entry).2 (.inl ⟨hentry, hlive⟩)
      | randomJti => exact hentry
    · cases hstep
  | finish i =>
    simp only [step] at hstep
    split at hstep <;> cases hstep
    exact hentry

end Store

/-- Where the store is asked before the token expires, once it was recorded, a token is redeemed once and a
revocation holds. -/
theorem redeemed_once (hdistinct : Distinct codec jwt issued) {start : Int} {s : State codec.json.Map}
    (h : Reach (step codec jwt capacity) (fun e s => Unforged codec jwt issued e ∧ Timely codec jwt s e)
      (fresh start) s) :
    SingleUse capacity s ∧ ∀ e s', step codec jwt capacity e s = some s' → KeepsEntries s s' := by
  have hstore := store_of_reach (h.mono fun _ _ _ => trivial)
  have hledger : ∃ holds, Ledger codec jwt issued capacity s holds := by
    refine h.invariant (P := fun s => ∃ holds, Ledger codec jwt issued capacity s holds) ⟨[], ledger_fresh start⟩ ?_
    intro e x y hok hstep hx
    obtain ⟨holds, L⟩ := hx
    exact L.step hdistinct hok.1 hok.2 hstep
  obtain ⟨holds, L⟩ := hledger
  refine ⟨⟨?_, L.accepted, hstore.2, hstore.1.nodes⟩, fun e s' hstep => keepsEntries_of_step hstore.1 hstep⟩
  exact List.Nodup.sublist (List.sublist_append_right _ _) L.once

section Known

inductive KnownValue
  | int (n : Int)
  | str (s : Text)
deriving DecidableEq

private def quote (s : Text) : Text := Char.ofNat 0x22 :: s ++ [Char.ofNat 0x22]

def KnownValue.render : KnownValue → Text
  | .int n => (toString n).toList
  | .str s => quote s

/-- An object without nesting and escapes, in the order of its keys. -/
private def renderObject (entries : List (Text × KnownValue)) : Text :=
  Char.ofNat 0x7B :: [','].intercalate (entries.map fun e => quote e.1 ++ ':' :: e.2.render) ++ [Char.ofNat 0x7D]

private def knownHeader : List (Text × KnownValue) := [("alg".toList, .str "HS256".toList), (typName, .str "JWT".toList)]

/-- A refresh token's payload. -/
private def knownPayload : List (Text × KnownValue) :=
  [(expName, .int 1700000000), (jtiName, .str "AAECAwQFBgcICQoLDA0ODw".toList), (subName, .int 7), (typName, .str refreshTyp)]

/-- Objects of numbers and texts; of those read, the known two. -/
private def knownJson : Json where
  Value := KnownValue
  Map := List (Text × KnownValue)
  ofInt := .int
  ofStr := .str
  asI64
    | .int n => some n
    | .str _ => none
  asStr
    | .int _ => none
    | .str s => some s
  empty := []
  get m key := (m.find? fun e => e.1 = key).map Prod.snd
  insert m key value := (m.filter fun e => e.1 < key) ++ (key, value) :: m.filter fun e => key < e.1
  remove m key := m.filter fun e => e.1 ≠ key
  entries m := m
  toVec m := Utf8.encode (renderObject m)
  fromSlice b := if b = Utf8.encode (renderObject knownHeader) then some knownHeader
    else if b = Utf8.encode (renderObject knownPayload) then some knownPayload else none

private def knownSecret : Utf8.Bytes := Utf8.encode "0123456789abcdef0123456789abcdef".toList

private def knownInput : Text := ("eyJhbGciOiJIUzI1NiIsInR5cCI6IkpXVCJ9." ++
  "eyJleHAiOjE3MDAwMDAwMDAsImp0aSI6IkFBRUNBd1FGQmdjSUNRb0xEQTBPRHciLCJzdWIiOjcsInR5cCI6InJlZnJlc2gifQ").toList

/-- What HMAC-SHA256 makes of the header and the payload. -/
private def knownTag : Utf8.Bytes := [65, 52, 17, 71, 161, 83, 163, 204, 170, 141, 191, 135, 193, 134, 194, 161, 104, 242, 226,
  66, 38, 164, 119, 163, 245, 187, 168, 207, 181, 219, 175, 110]

abbrev knownCodec : Codec where
  hmac secret message := if secret = knownSecret ∧ message = Utf8.encode knownInput then knownTag else 0 :: message
  base64 := Base64.urlSafeNoPad
  json := knownJson

private def knownConfig : Config := ⟨knownSecret, by decide +kernel, 900, 604800⟩

private def knownToken : Text := encodeToken knownCodec knownPayload knownSecret

/-- Two refreshes of one token, the second marked as it expires. -/
private def replay : List (Event knownJson.Map) :=
  [.call (.refresh knownToken), .call (.refresh knownToken), .step 0 [], .step 1 [], .step 0 [], .tick 1700000000,
    .step 1 [], .step 0 [], .step 0 ['a'], .step 0 [], .step 0 ['b'], .finish 0, .step 0 [], .step 0 ['c'], .step 0 [],
    .step 0 ['d'], .finish 0]

/-- A refresh after the token was revoked, marked as it expires. -/
private def lateRefresh : List (Event knownJson.Map) :=
  [.call (.tryRevoke knownToken), .step 0 [], .step 0 [], .finish 0, .call (.refresh knownToken), .step 0 [],
    .tick 1700000000, .step 0 [], .step 0 [], .step 0 ['a'], .step 0 [], .step 0 ['b'], .finish 0]

private theorem known_distinct : Distinct knownCodec knownConfig {knownToken} := by
  intro t ht t' ht' _ _ _ _ _
  rw [Set.mem_singleton_iff.1 ht, Set.mem_singleton_iff.1 ht']

/-- Every event that starts a call presents the known token. -/
private def presentsKnown : Event knownJson.Map → Bool
  | .call c => c.token = knownToken
  | _ => true

private theorem known_unforged (e : Event knownJson.Map) (he : presentsKnown e = true) :
    Unforged knownCodec knownConfig {knownToken} e := by
  cases e with
  | call c => exact fun _ _ => of_decide_eq_true he
  | tick clock => trivial
  | step i random => trivial
  | finish i => trivial

private theorem fromSlice_of_verify {codec : Codec} {token : Text} {secret : Utf8.Bytes}
    {payload : codec.json.Map}
    (h : verify codec token secret = some payload) : ∃ b, codec.json.fromSlice b = some payload := by
  unfold verify at h
  split at h
  · cases h
  · split at h
    · simp only [Option.bind_eq_bind, Option.bind_eq_some_iff] at h
      obtain ⟨provided, -, h⟩ := h
      split at h
      · cases h
      · simp only [Option.bind_eq_some_iff] at h
        obtain ⟨headerBytes, -, header, -, h⟩ := h
        split at h
        · cases h
        · obtain ⟨bytes, -, h⟩ := Option.bind_eq_some_iff.1 h
          exact ⟨bytes, h⟩
    · cases h

private theorem known_fromSlice {b : Utf8.Bytes} {payload : knownJson.Map}
    (h : knownJson.fromSlice b = some payload) :
    payload = knownHeader ∨ payload = knownPayload := by
  unfold knownJson at h
  simp only at h
  split at h
  · exact .inl (Option.some.inj h).symm
  · split at h
    · exact .inr (Option.some.inj h).symm
    · cases h

private theorem known_exp {t : Text} {claims : JwtClaims knownCodec.json.Map}
    (h : decodeSigned knownCodec knownConfig t = some claims) : claims.exp = 1700000000 := by
  unfold decodeSigned at h
  simp only [Option.bind_eq_bind, Option.bind_eq_some_iff] at h
  obtain ⟨payload, hverify, sub, hsub, exp, hexp, jti, -, typ, -, hclaims⟩ := h
  cases hclaims
  obtain ⟨b, hb⟩ := fromSlice_of_verify hverify
  cases known_fromSlice hb with
  | inl hheader =>
    obtain ⟨value, hget, -⟩ := hsub
    have hnone : knownJson.get knownHeader subName = none := by decide
    rw [hheader] at hget
    cases hnone.symm.trans hget
  | inr hpayload =>
    obtain ⟨value, hget, hint⟩ := hexp
    have hfound : knownJson.get knownPayload expName = some (.int 1700000000) := rfl
    rw [hpayload] at hget
    cases hfound.symm.trans hget
    exact (Option.some.inj hint).symm

/-- Two refreshes in time: the second is refused. -/
private def inTime : List (Event knownJson.Map) :=
  [.call (.refresh knownToken), .call (.refresh knownToken), .step 0 [], .step 1 [], .step 0 [], .step 1 [],
    .step 0 [], .step 0 ['a'], .step 0 [], .step 0 ['b'], .finish 0, .finish 0]

theorem known_redeemed_once : ∃ s : State knownJson.Map, s.pairs = [knownToken] ∧ SingleUse 10 s ∧
    ∀ e s', step knownCodec knownConfig 10 e s = some s' → KeepsEntries s s' := by
  have hrun : ((steps (guarded (step knownCodec knownConfig 10)
      fun e s => presentsKnown e = true ∧ s.clock < 1700000000) inTime (fresh 1699999999)).map State.pairs) =
        some [knownToken] := by decide +kernel
  obtain ⟨s, hs, hpairs⟩ := Option.map_eq_some_iff.1 hrun
  refine ⟨s, hpairs, redeemed_once known_distinct ((Reach.of_guarded hs).mono ?_)⟩
  intro e x hok
  refine ⟨known_unforged e hok.1, ?_⟩
  cases e with
  | step i random =>
    intro th o claims _ _ _ _ hclaims _
    rw [known_exp hclaims]
    exact hok.2
  | tick clock => trivial
  | call c => trivial
  | finish i => trivial

/-- Asked as the token expires, the store lets it be redeemed twice, and accepted after its revocation. -/
theorem replayed_at_expiry :
    (¬ ∀ (codec : Codec) (jwt : Config) (issued : Set Text) (capacity : Nat) (start : Int)
      (s : State codec.json.Map), Distinct codec jwt issued →
        Reach (step codec jwt capacity) (fun e _ => Unforged codec jwt issued e) (fresh start) s → s.pairs.Nodup) ∧
    ¬ ∀ (codec : Codec) (jwt : Config) (issued : Set Text) (capacity : Nat) (start : Int)
      (s : State codec.json.Map), Distinct codec jwt issued →
        Reach (step codec jwt capacity) (fun e _ => Unforged codec jwt issued e) (fresh start) s →
          ∀ a ∈ s.accepted, a.2 = false := by
  constructor
  · intro hall
    have hrun : ((steps (step knownCodec knownConfig 10) replay (fresh 1699999999)).map State.pairs) =
        some [knownToken, knownToken] := by decide +kernel
    have hpresents : ∀ e ∈ replay, presentsKnown e = true := by simp [replay, presentsKnown, Call.token]
    obtain ⟨s, hs, hpairs⟩ := Option.map_eq_some_iff.1 hrun
    have hnodup := hall knownCodec knownConfig {knownToken} 10 1699999999 s known_distinct
      (Reach.of_steps hs fun e he _ => known_unforged e (hpresents e he))
    rw [hpairs] at hnodup
    simp at hnodup
  · intro hall
    have hrun : ((steps (step knownCodec knownConfig 10) lateRefresh (fresh 1699999999)).map State.accepted) =
        some [(knownToken, true)] := by decide +kernel
    have hpresents : ∀ e ∈ lateRefresh, presentsKnown e = true := by
      simp [lateRefresh, presentsKnown, Call.token]
    obtain ⟨s, hs, haccepted⟩ := Option.map_eq_some_iff.1 hrun
    have hrefused := hall knownCodec knownConfig {knownToken} 10 1699999999 s known_distinct
      (Reach.of_steps hs fun e he _ => known_unforged e (hpresents e he))
    have hafter := hrefused (knownToken, true) (by rw [haccepted]; exact List.mem_singleton_self _)
    cases hafter

end Known

end Rustango.JwtLifecycle
