import Rustango.Resolver.Keeps

/-!
# No stale tenant after an invalidation

Every operation that is allowed keeps what a call knows, and every run keeps the caches fresh.
-/

namespace Rustango.Resolver

open Function Rustango.Threads Rustango.Runs

variable {fails : Bool} {p p' : Pod} {th th' : Thread} {tok tok' : Tok} {o : Op} {ans : o.Answer}
  {threads : List Thread} {i : Nat}

private theorem claimed_covers (h : Recorded p threads) {t : Table}
    (hfree : ∀ u ∈ threads, u.clearing ≠ some t) : ∀ write ∈ p.seen t, p.Covers t write := by
  intro write hw
  rcases h t write hw with hcovers | ⟨u, hu, hclearing, -⟩
  · exact hcovers
  · exact absurd hclearing (hfree u hu)

/-- An operation moves what its call knows as the protocol says. -/
theorem Knows.op (hok : p.Ok) (h : Knows p tok th)
    (hclaim : ∀ t interval, o = .claim t interval → p.due t interval = true →
      ∀ write ∈ p.seen t, p.Covers t write)
    (hans : (o.run fails th p).1 = ans) (hmove : Moves th.call.cache tok o ans tok') :
    Knows (o.run fails th p).2 tok' (th.after p o ans) := by
  cases hmove with
  | lookup row side key found =>
    have hfound : (p.lookup th.call.cache side key).1 = found := hans
    rw [lookup_fst] at hfound
    subst hfound
    rw [Option.isSome_map]
    exact (h.lookup hok side key).mono (lookup_alike _ side key).grows
  | remove row side key => exact h.mono (run_alike rfl).grows
  | insert side cap key value => exact h.mono (run_alike rfl).grows
  | findOrg row f found => exact h.query hok
  | findHost row host found => exact h.query hok
  | isOpen row b window down => exact h
  | aside row o ans ho => exact (h.aside ho).mono (run_alike (aside_quiet ho)).grows
  | notDue row t interval => exact h.mono (claim_alike t interval).grows
  | taken row t interval previous =>
    have hanswer : (p.claim t interval).1 = .taken previous := hans
    have hdue : p.due t interval = true ∧ p.seen t = previous := by
      unfold Pod.claim at hanswer
      split at hanswer
      · rename_i hdue
        exact ⟨hdue, Claim.taken.inj hanswer⟩
      · cases hanswer
    have hcovers := hclaim t interval rfl hdue.1
    rw [hdue.2] at hcovers
    have hknows : Knows p ⟨row, .claimed t previous⟩ th :=
      ⟨h.row, h.read, h.since, h.basis, h.idle, hcovers⟩
    exact hknows.mono (claim_alike t interval).grows
  | declined row t previous b window => exact h.toIdle
  | closed row t previous b window => exact h
  | failed row t previous => exact h.toIdle
  | generation row t previous current =>
    have hcurrent : p.written t = current := by
      cases fails with
      | true => cases hans
      | false => exact Option.some.inj hans
    subst hcurrent
    exact h.generation hok
  | record row t previous current changed =>
    have hchanged : moved previous current = changed := hans
    subst hchanged
    exact h.record
  | clear row t d side left => exact h.clear
  | settle row t => exact h.settle

private theorem run_ok (hok : p.Ok) (h : Knows p tok th) {threads : List Thread}
    (hsound : Sound ⟨p, threads⟩ th o) (hmove : Moves th.call.cache tok o ans tok') :
    (o.run fails th p).2.Ok := by
  cases hmove with
  | clear row t d side left => exact clear_ok hok h.basis
  | settle row t => exact settle_ok hok h.covers
  | record row t previous current changed =>
    refine record_ok hok ?_ h.phase.2.1 ?_
    · exact Nat.le_trans (Nat.le_of_eq h.phase.2.2.symm) h.basis
    · rintro rfl c hc side
      exact hsound c hc side (by cases side <;> simp)
  | insert side cap key value => exact insert_ok hok hsound
  | lookup row side key found => exact run_quiet_ok hok rfl nofun
  | remove row side key => exact run_quiet_ok hok rfl nofun
  | findOrg row f found => exact hok
  | findHost row host found => exact hok
  | isOpen row b window down => exact hok
  | aside row o ans ho =>
    apply run_quiet_ok hok (aside_quiet ho)
    rintro c side cap key value rfl
    cases ho
  | notDue row t interval => exact run_quiet_ok hok rfl nofun
  | taken row t interval previous => exact run_quiet_ok hok rfl nofun
  | declined row t previous b window => exact hok
  | closed row t previous b window => exact hok
  | failed row t previous => exact hok
  | generation row t previous current => exact hok

private theorem run_grows (o : Op) : p.Grows (o.run fails th p).2 := by
  by_cases hquiet : o.quiet = true
  · exact (run_alike hquiet).grows
  · cases o with
    | clear c side => exact clear_grows c side _
    | record t previous current => exact record_grows t previous current
    | settle t => exact settle_grows t _
    | _ => exact absurd rfl hquiet

theorem Knows.clearing_none (h : Knows p tok th) (hquiet : o.quiet = true)
    (hmove : Moves th.call.cache tok o ans tok') : th.clearing = none := by
  cases hmove with
  | lookup | remove | insert | findOrg | findHost | isOpen | aside | notDue | taken => exact h.phase
  | declined | closed | failed | generation => exact h.phase.1
  | record | clear | settle => cases hquiet

theorem Recorded.set (h : Recorded p threads) (hi : threads[i]? = some th) (hgrows : p.Grows p')
    (hseen : ∀ t, p'.seen t = p.seen t)
    (hself : ∀ t, th.clearing = some t →
      p'.Covers t th.basis ∨ (th'.clearing = some t ∧ th'.basis = th.basis)) :
    Recorded p' (threads.set i th') := by
  have hlt : i < threads.length := (List.getElem?_eq_some_iff.mp hi).1
  apply h.op hgrows hseen
  intro t u hu hclearing
  rcases mem_set_or hi hu with rfl | hstays
  · exact (hself t hclearing).imp_right fun hth' => ⟨th', List.mem_set hlt th', hth'⟩
  · exact .inr ⟨u, hstays, hclearing, rfl⟩

/-- A fingerprint that moved is left to its call to clear for; another is covered. -/
theorem Recorded.record (h : Recorded p threads) (hi : threads[i]? = some th) {t : Table}
    {previous : Option Nat} {current : Nat} (hfree : th.clearing = none)
    (hself : moved previous current = true → th'.clearing = some t ∧ th'.basis = current) :
    Recorded (p.record t previous current).2 (threads.set i th') := by
  have hlt : i < threads.length := (List.getElem?_eq_some_iff.mp hi).1
  intro t' write hw
  by_cases ht : t' = t
  · subst ht
    obtain rfl : current = write := by simpa [Pod.seen, Pod.record] using hw
    cases hmoved : moved previous current with
    | true => exact .inr ⟨th', List.mem_set hlt th', hself hmoved⟩
    | false => exact .inl (record_covers hmoved)
  · have hold : p.seen t' = some write := by
      simpa [Pod.seen, Pod.record, update_of_ne ht] using hw
    rcases h t' write hold with hcovers | ⟨u, hu, hclearing, hbasis⟩
    · exact .inl (hcovers.mono (record_grows t previous current))
    · rcases mem_set_or hi hu with rfl | hstays
      · rw [hfree] at hclearing
        cases hclearing
      · exact .inr ⟨u, hstays, hclearing, hbasis⟩

private theorem after_call (o : Op) (ans : o.Answer) : (th.after p o ans).call = th.call := by
  cases o with
  | generation t => cases ans <;> rfl
  | record t previous current => cases ans <;> rfl
  | _ => rfl

private theorem recorded_op (h : Recorded p threads) (hi : threads[i]? = some th) (hknows : Knows p tok th)
    (hans : (o.run fails th p).1 = ans) (hmove : Moves th.call.cache tok o ans tok')
    {prog : ResolverProg Resolved} :
    Recorded (o.run fails th p).2 (threads.set i { th.after p o ans with prog }) := by
  by_cases hquiet : o.quiet = true
  · have hnone := hknows.clearing_none hquiet hmove
    apply h.set hi (run_grows o) (run_alike hquiet).seen
    intro t ht
    rw [hnone] at ht
    cases ht
  · cases hmove with
    | record row t previous current changed =>
      apply h.record hi hknows.phase.1
      intro hmoved
      have hchanged : moved previous current = changed := hans
      rw [hmoved] at hchanged
      subst hchanged
      exact ⟨rfl, hknows.phase.2.2⟩
    | clear row t d side left =>
      exact h.set hi (clear_grows d side _) (fun _ => rfl) fun _ ht => .inr ⟨ht, rfl⟩
    | settle row t =>
      apply h.set hi (settle_grows t _) (fun _ => rfl)
      intro t' ht
      obtain rfl := hknows.phase.1 t' ht
      exact .inl hknows.covers
    | aside row o ans ho => exact absurd (aside_quiet ho) hquiet
    | lookup | remove | insert | findOrg | findHost | isOpen | notDue | taken | declined | closed
    | failed | generation => exact absurd rfl hquiet

/-- A call in progress does what its token says. -/
structure Known (p : Pod) (tok : Tok) (th : Thread) : Prop where
  knows : Knows p tok th
  follows : th.prog.Follows (Moves th.call.cache) Settled tok

structure Inv (s : State) (toks : List Tok) : Prop where
  known : List.Forall₂ (Known s.pod) toks s.threads
  pod : s.pod.Ok
  recorded : Recorded s.pod s.threads

variable {s s' : State} {toks : List Tok}

private theorem known_grows {threads : List Thread} (h : List.Forall₂ (Known p) toks threads)
    (hgrows : p.Grows p') : List.Forall₂ (Known p') toks threads :=
  h.imp fun _ _ hk => ⟨hk.knows.mono hgrows, hk.follows⟩

private theorem inv_fresh (checkEvery : Option Nat) (orgs : List Org) (hosts : List OrgHost) :
    Inv (fresh checkEvery orgs hosts) [] := by
  refine ⟨.nil, ⟨?_, ?_, ?_, ?_⟩, ?_⟩
  · exact fun _ _ _ hke => nomatch hke
  · exact fun _ _ => Nat.le_refl _
  · exact fun _ _ => Nat.le_refl _
  · exact fun _ => Nat.le_refl _
  · intro t write hw
    cases hw

theorem Inv.outside (h : Inv s toks) {p' : Pod} (hgrows : s.pod.Grows p') (hok : p'.Ok)
    (hseen : ∀ t, p'.seen t = s.pod.seen t) : Inv { s with pod := p' } toks := by
  refine ⟨known_grows h.known hgrows, hok, h.recorded.op hgrows hseen ?_⟩
  exact fun t u hu hclearing => .inr ⟨u, hu, hclearing, rfl⟩

private theorem written_ok (hok : p.Ok) (t : Table) (orgs : List Org) (hosts : List OrgHost) :
    (p.write t orgs hosts).Ok ∧ p.Grows (p.write t orgs hosts) := by
  refine ⟨⟨hok.entries, ?_, hok.settled, ?_⟩, ⟨?_, ?_, ?_⟩⟩
  · exact fun c side => Nat.le_succ_of_le (hok.floor c side)
  · intro t'
    have hle := hok.written t'
    dsimp only [Pod.write]
    by_cases ht : t' = t
    · rw [ht, update_self]
    · rw [update_of_ne ht]
      omega
  · exact Nat.le_succ _
  · exact fun _ _ => Nat.le_refl _
  · exact fun _ => Nat.le_refl _

theorem Inv.call (h : Inv s toks) (c : Call) :
    Inv { s with threads := s.threads ++ [Thread.start s.pod c] } (toks ++ [c.start]) where
  known := by
    have hknows : Knows s.pod c.start (Thread.start s.pod c) := by
      refine ⟨?_, ?_, fun _ => Nat.le_refl _, Nat.le_refl _, ?_⟩
      · intro hrow
        cases c <;> cases hrow
      · exact nofun
      · cases c with
        | lookup l => rfl
        | invalidate t => exact ⟨nofun, fun d hd side => .inl (mem_mapsOf hd side)⟩
    exact List.rel_append h.known (.cons ⟨hknows, prog_follows _ c⟩ .nil)
  pod := h.pod
  recorded := by
    apply h.recorded.op (.refl _) fun _ => rfl
    exact fun t u hu hclearing => .inr ⟨u, List.mem_append_left _ hu, hclearing, rfl⟩

theorem Inv.act (h : Inv s toks) {next : o.Answer → ResolverProg Resolved}
    (hi : s.threads[i]? = some th) (hprog : th.prog = .op o next) (hsound : Sound s th o) :
    ∃ toks', Inv (s.act i fails th o next) toks' := by
  have hgrows : s.pod.Grows (o.run fails th s.pod).2 := run_grows o
  have hmono : ∀ tok u, Known s.pod tok u → Known (o.run fails th s.pod).2 tok u :=
    fun _ _ hk => ⟨hk.knows.mono hgrows, hk.follows⟩
  obtain ⟨before, tok, after, rfl, hknown, hset, -⟩ := forall₂_step hmono h.known hi
  have hfollows := hknown.follows
  rw [hprog] at hfollows
  obtain ⟨tok', hmove, hnext⟩ := hfollows (o.run fails th s.pod).1
  have hclaim : ∀ t interval, o = .claim t interval → s.pod.due t interval = true →
      ∀ write ∈ s.pod.seen t, s.pod.Covers t write := by
    rintro t interval rfl hdue
    exact claimed_covers h.recorded (hsound hdue)
  have hknows := hknown.knows.op h.pod hclaim rfl hmove
  refine ⟨_, hset tok' _ ⟨?_, ?_⟩, run_ok h.pod hknown.knows hsound hmove,
    recorded_op h.recorded hi hknown.knows rfl hmove⟩
  · exact ⟨hknows.row, hknows.read, hknows.since, hknows.basis, hknows.phase⟩
  · dsimp only
    rw [after_call]
    exact hnext

theorem Inv.remove (h : Inv s toks) (hi : s.threads[i]? = some th)
    (hidle : ∀ tok, Known s.pod tok th → th.clearing = none) :
    ∃ toks', Inv { s with threads := s.threads.eraseIdx i } toks' := by
  obtain ⟨before, tok, after, rfl, hknown, -, herase⟩ := forall₂_at h.known hi
  refine ⟨_, herase, h.pod, h.recorded.op (.refl _) (fun _ => rfl) ?_⟩
  intro t u hu hclearing
  rcases mem_eraseIdx_or hi hu with rfl | hstays
  · rw [hidle tok hknown] at hclearing
    cases hclearing
  · exact .inr ⟨u, hstays, hclearing, rfl⟩

theorem Inv.finish (h : Inv s toks) {out : Resolved} (hi : s.threads[i]? = some th)
    (hprog : th.prog = .ret out) : ∃ toks', Inv { s with threads := s.threads.eraseIdx i } toks' := by
  apply h.remove hi
  intro tok hknown
  have hsettled : Settled out tok := by
    have hfollows := hknown.follows
    rw [hprog] at hfollows
    exact hfollows
  have hphase := hknown.knows.phase
  rw [hsettled.1] at hphase
  exact hphase

private theorem awaits_quiet (h : o.awaits = true) : o.quiet = true := by
  cases o <;> first | rfl | cases h

/-- A call is dropped where it waits. -/
theorem Inv.drop (h : Inv s toks) {next : o.Answer → ResolverProg Resolved}
    (hi : s.threads[i]? = some th) (hprog : th.prog = .op o next) (hawaits : o.awaits = true) :
    ∃ toks', Inv (s.dropAt i th o) toks' := by
  have hidle : ∀ tok, Known s.pod tok th → th.clearing = none := by
    intro tok hknown
    have hfollows := hknown.follows
    rw [hprog] at hfollows
    obtain ⟨tok', hmove, -⟩ := hfollows (o.run true th s.pod).1
    exact hknown.knows.clearing_none (awaits_quiet hawaits) hmove
  unfold State.dropAt
  split
  · exact h.remove hi hidle
  · exact h.remove hi hidle
  · rename_i hflying
    obtain ⟨before, tok, after, rfl, hknown, hset, -⟩ := forall₂_at h.known hi
    refine ⟨_, hset ⟨false, .idle⟩ _ ⟨?_, landDropped_follows _ false _ _ _⟩, h.pod,
      h.recorded.set hi (.refl _) (fun _ => rfl) ?_⟩
    · exact ⟨nofun, hknown.knows.read, hknown.knows.since, hknown.knows.basis, hidle tok hknown⟩
    · intro t ht
      rw [hidle tok hknown] at ht
      cases ht

theorem Inv.next (h : Inv s toks) {e : Event} (hok : Allowed e s) (hstep : step e s = some s') :
    ∃ toks', Inv s' toks' := by
  cases e with
  | tick now =>
    simp only [step] at hstep
    split at hstep
    · obtain rfl := Option.some.inj hstep
      have halike : s.pod.Alike { s.pod with now } := ⟨rfl, rfl, rfl, rfl, fun _ => rfl⟩
      exact ⟨toks, h.outside halike.grows (h.pod.aside halike rfl) fun _ => rfl⟩
    · cases hstep
  | writeOrgs orgs =>
    obtain rfl := Option.some.inj hstep
    have hwritten := written_ok h.pod .orgs orgs s.pod.hosts
    exact ⟨toks, h.outside hwritten.2 hwritten.1 fun _ => rfl⟩
  | writeHosts hosts =>
    obtain rfl := Option.some.inj hstep
    have hwritten := written_ok h.pod .hosts s.pod.orgs hosts
    exact ⟨toks, h.outside hwritten.2 hwritten.1 fun _ => rfl⟩
  | call c =>
    obtain rfl := Option.some.inj hstep
    exact ⟨_, h.call c⟩
  | step i fails =>
    simp only [step] at hstep
    split at hstep
    · rename_i call o next since basis read clearing flying hi
      split at hstep
      · obtain rfl := Option.some.inj hstep
        exact h.act hi rfl (hok _ hi o rfl)
      · cases hstep
    · cases hstep
  | finish i =>
    simp only [step] at hstep
    split at hstep
    · rename_i hi
      obtain rfl := Option.some.inj hstep
      exact h.finish hi rfl
    · cases hstep
  | drop i =>
    simp only [step] at hstep
    split at hstep
    · rename_i call o next since basis read clearing flying hi
      split at hstep
      · rename_i hawaits
        obtain rfl := Option.some.inj hstep
        exact h.drop hi rfl hawaits
      · cases hstep
    · cases hstep

theorem Inv.noStale (h : Inv s toks) : NoStale s where
  returned th hth l org hcall hprog := by
    obtain ⟨i, hi⟩ := List.mem_iff_getElem?.mp hth
    obtain ⟨tok, -, hknown⟩ := forall₂_getElem h.known hi
    have hsettled : Settled (some (some org)) tok := by
      have hfollows := hknown.follows
      rw [hprog] at hfollows
      exact hfollows
    obtain ⟨r, hr⟩ := Option.isSome_iff_exists.mp (hknown.knows.row (hsettled.2 org rfl))
    have hread := hknown.knows.read r hr
    rw [hcall] at hread
    exact ⟨r, hr, hread⟩
  cleared c side ke hke :=
    Nat.le_trans (h.pod.settled c side) (h.pod.entries c side ke hke)

/-- Where every step is allowed, no tenant is stale after an invalidation or a poll. -/
theorem no_stale_tenant (checkEvery : Option Nat) (orgs : List Org) (hosts : List OrgHost) (s : State)
    (h : Reach step Allowed (fresh checkEvery orgs hosts) s) : NoStale s := by
  have hinv : ∃ toks, Inv s toks := by
    apply h.invariant ⟨[], inv_fresh checkEvery orgs hosts⟩
    rintro e x y hok hstep ⟨toks, hx⟩
    exact hx.next hok hstep
  obtain ⟨toks, hinv⟩ := hinv
  exact hinv.noStale

private def acmeOrg (active : Bool) : Org := ⟨1, "acme", some "acme.app", none, none, active⟩
private def acmeHost : Call := .lookup (.host "acme.app")
private def takes (i n : Nat) : List Event := List.replicate n (.step i false)

/-- A lookup caches a tenant, which is suspended; the poll of the next lookup clears it. -/
private def polledChange : List Event :=
  .call acmeHost :: takes 0 18 ++
    [.finish 0, .writeOrgs [acmeOrg false], .tick 6000, .call acmeHost] ++ takes 0 30

theorem polledChange_fresh : ∃ s : State,
    Reach step Allowed (fresh (some 5000) [acmeOrg true] []) s ∧ s.pod.settled .org = 1 ∧
      s.threads.map (·.read) = [some 1] ∧ NoStale s := by
  have hrun : (steps (guarded step Allowed) polledChange (fresh (some 5000) [acmeOrg true] [])).map
      (fun s => (s.pod.settled .org, s.threads.map (·.read))) = some (1, [some 1]) := by
    rfl
  obtain ⟨s, hs, hobs⟩ := Option.map_eq_some_iff.mp hrun
  have hreach : Reach step Allowed (fresh (some 5000) [acmeOrg true] []) s := .of_guarded hs
  exact ⟨s, hreach, congrArg Prod.fst hobs, congrArg Prod.snd hobs,
    no_stale_tenant (some 5000) [acmeOrg true] [] s hreach⟩

/-- A lookup reads a tenant, which is suspended; the caches are cleared, and the lookup stores it. -/
private def latePut : List Event :=
  .call acmeHost :: takes 0 8 ++ [.writeOrgs [acmeOrg false], .call (.invalidate .orgs)] ++ takes 1 13 ++
    takes 0 5 ++ [.call acmeHost] ++ takes 2 1

/-- The suspended tenant is served to a lookup that starts after the invalidation. -/
theorem latePut_stale : ∃ s, steps step latePut (fresh none [acmeOrg true] []) = some s ∧
    (∃ th ∈ s.threads, th.call = acmeHost ∧ th.since .org = 1 ∧ th.read = some 0 ∧
      th.prog = .ret (some (some (acmeOrg true)))) ∧ ¬ NoStale s := by
  have hrun : (steps step latePut (fresh none [acmeOrg true] [])).map
      (fun s => (s.threads[2]?).map fun th =>
        (decide (th.call = acmeHost ∧ th.since .org = 1 ∧ th.read = some 0), th.prog.result?)) =
      some (some (true, some (some (some (acmeOrg true))))) := by rfl
  obtain ⟨s, hs, hobs⟩ := Option.map_eq_some_iff.mp hrun
  obtain ⟨th, hth, hfacts⟩ := Option.map_eq_some_iff.mp hobs
  simp only [Prod.mk.injEq, decide_eq_true_eq, Prog.result?_eq_some] at hfacts
  have hmem : th ∈ s.threads := List.mem_of_getElem? hth
  obtain ⟨⟨hcall, hsince, hread⟩, hresult⟩ := hfacts
  refine ⟨s, hs, ⟨th, hmem, hcall, hsince, hread, hresult⟩, fun hfresh => ?_⟩
  obtain ⟨r, hr, hle⟩ := hfresh.returned th hmem _ _ hcall hresult
  rw [hread] at hr
  obtain rfl := Option.some.inj hr
  have hzero : th.since .org ≤ 0 := hle
  omega

end Rustango.Resolver
