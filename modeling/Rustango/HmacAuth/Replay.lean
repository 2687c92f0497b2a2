import Rustango.Cache.Flat
import Rustango.HmacAuth.Covered
import Rustango.Lib.Runs
import Rustango.Lib.Threads

/-!
# Replayed requests

The nonce store of `HmacAuthLayer`: a signature that passed is kept in a shared cache for twice the tolerance. Any
number of copies of a request may be on their way at once, on any number of servers.
-/

namespace Rustango.HmacAuth.Replay

open Function (update)
open Rustango.Base64 (encodeStandard decodeStandard_encodeStandard)
open Rustango.Cache (Reply)
open Rustango.Runs Rustango.Threads
open Rustango.Url (Text)
open Rustango.Utf8 (Bytes)

/-- A look at the clock, or the claim of a signature. -/
inductive Op where
  | now
  | add (signature : Bytes)
deriving DecidableEq

/-- The clock shows unix seconds; either may fail. -/
@[reducible] def Op.Answer : Op → Type
  | .now => Option Int
  | .add _ => Option Bool

abbrev HmacProg := Prog Op Op.Answer

def now : HmacProg (Option Int) := Prog.call Op.now

def add (signature : Bytes) : HmacProg (Option Bool) := Prog.call (Op.add signature)

def nonceKey (signature : Bytes) : String := "hmac_nonce:" ++ String.ofList (encodeStandard signature)

section Code
variable {x : Crates} (cfg : HmacAuthConfig x)

/-- `tolerance_secs.saturating_mul(2)` -/
def nonceTtl : Nat := min (cfg.toleranceSecs * 2) (2 ^ 64 - 1)

def verifyRequest (req : Request) : HmacProg (Except Denial Unit) := do
  let secs ← now
  match checkRequest x cfg secs req with
  | .error d => pure (.error d)
  | .ok (_, signature) =>
    if cfg.nonceStore then
      match ← add signature with
      | some false => pure (.error (.unauthorized "replayed request"))
      -- Auth does not depend on the cache.
      | some true | none => pure (.ok ())
    else pure (.ok ())

end Code

structure Thread where
  req : Request
  prog : HmacProg (Except Denial Unit)

/-- What became of a claim; of one that failed, whether the cache took it. -/
inductive Verdict where
  | claimed
  | refused
  | failed (applied : Bool)
deriving DecidableEq

structure Claim where
  req : Request
  signature : Bytes
  time : Nat
  verdict : Verdict

/-- The clock in milliseconds, the cache, the claims made of it, the newest first, and the requests in progress. -/
structure State where
  now : Nat
  cache : Cache.Store
  log : List Claim
  threads : List Thread

inductive Event where
  | tick (now : Nat)
  | request (req : Request)
  /-- `fault` is an error, whether the cache took the operation or not. -/
  | step (i : Nat) (fault : Option Bool)
  | finish (i : Nat)
  | drop (i : Nat)
  /-- Another user of the cache writes. -/
  | other (key : String) (slot : Option Cache.Entry)

section Step
variable {x : Crates} (cfg : HmacAuthConfig x)

def flagOf : Reply → Option Bool
  | .flag b => some b
  | _ => none

def claim (now : Nat) (signature : Bytes) (c : Cache.Store) : Reply × Cache.Store :=
  Cache.runOne now (.add "1" (some (nonceTtl cfg * 1000))) (nonceKey signature) c

def Op.run (now : Nat) (fault : Option Bool) (c : Cache.Store) : (o : Op) → o.Answer × Cache.Store
  | .now => (match fault with
    | none => some ((now / 1000 : Nat) : Int)
    | some _ => none, c)
  | .add signature =>
    match fault with
    | none => (flagOf (claim cfg now signature c).1, (claim cfg now signature c).2)
    | some applied => (none, if applied then (claim cfg now signature c).2 else c)

def verdictOf (fault : Option Bool) (ans : Option Bool) : Verdict :=
  match fault with
  | some applied => .failed applied
  | none => if ans = some true then .claimed else .refused

def note (now : Nat) (fault : Option Bool) (req : Request) : (o : Op) → o.Answer → List Claim
  | .now, _ => []
  | .add signature, ans => [⟨req, signature, now, verdictOf fault ans⟩]

def State.act (s : State) (i : Nat) (fault : Option Bool) (req : Request) (o : Op)
    (next : o.Answer → HmacProg (Except Denial Unit)) : State :=
  let ans := (o.run cfg s.now fault s.cache).1
  { s with
    cache := (o.run cfg s.now fault s.cache).2
    log := note s.now fault req o ans ++ s.log
    threads := s.threads.set i ⟨req, next ans⟩ }

def step : Event → State → Option State
  | .tick now, s => if s.now ≤ now then some { s with now := now } else none
  | .request req, s => some { s with threads := s.threads ++ [⟨req, verifyRequest cfg req⟩] }
  | .step i fault, s =>
    match s.threads[i]? with
    | some ⟨req, .op o next⟩ => some (s.act cfg i fault req o next)
    | _ => none
  | .finish i, s =>
    match s.threads[i]? with
    | some ⟨_, .ret _⟩ => some { s with threads := s.threads.eraseIdx i }
    | _ => none
  | .drop i, s => if i < s.threads.length then some { s with threads := s.threads.eraseIdx i } else none
  | .other key slot, s =>
    if "hmac_nonce:".toList <+: key.toList then none else some { s with cache := update s.cache key slot }

def fresh : State := ⟨0, fun _ => none, [], []⟩

/-- The date of the request is in its tolerance. -/
def inTolerance (req : Request) (now : Nat) : Bool :=
  ((header req headerDate).getD none).any fun date =>
    dateWithinTolerance x date cfg.toleranceSecs (some ((now / 1000 : Nat) : Int))

/-- Every step but the claim of a request whose date ran out since it was checked. -/
def Allowed : Event → State → Prop
  | .step i _, s =>
    match s.threads[i]? with
    | some ⟨req, .op (.add _) _⟩ => inTolerance cfg req s.now = true
    | _ => True
  | _, _ => True

end Step

section Claims
variable {x : Crates} {cfg : HmacAuthConfig x}

theorem nonceKey_injective {a b : Bytes} (h : nonceKey a = nonceKey b) : a = b := by
  have htexts := congrArg String.toList h
  rw [nonceKey, nonceKey, String.toList_append, String.toList_append] at htexts
  have hencoded : encodeStandard a = encodeStandard b := by
    simpa using List.append_cancel_left htexts
  have hread := decodeStandard_encodeStandard a
  rw [hencoded, decodeStandard_encodeStandard] at hread
  exact (Option.some.inj hread).symm

theorem claim_eq (now : Nat) (signature : Bytes) (c : Cache.Store) : claim cfg now signature c =
    if (Cache.live now (c (nonceKey signature))).isSome then (.flag false, c)
    else (.flag true, update c (nonceKey signature) (some ⟨"1", some (now + nonceTtl cfg * 1000)⟩)) := by
  have hplain : '\x00' ∉ "1".toList := by decide
  rw [claim, Cache.runOne, Cache.KeyOp.run]
  simp only [Cache.checkText, hplain, if_false, Option.map_some]
  split <;> simp

/-- When a nonce that was written at `time` expires. -/
def expiry (cfg : HmacAuthConfig x) (time : Nat) : Nat := time + nonceTtl cfg * 1000

/-- The claim of `c.signature` was there for the cache to take. -/
def Claim.Wrote (c : Claim) : Prop := c.verdict = .claimed ∨ c.verdict = .failed true

/-- Two claims that were taken are more than the time of a nonce apart. -/
def Apart (cfg : HmacAuthConfig x) (newer older : Claim) : Prop :=
  newer.verdict = .claimed → older.verdict = .claimed → newer.signature = older.signature →
    expiry cfg older.time < newer.time

/-- A claim is refused for an earlier one that the cache may have taken. -/
def Justified (cfg : HmacAuthConfig x) (c : Claim) (older : List Claim) : Prop :=
  c.verdict = .refused →
    ∃ o ∈ older, o.Wrote ∧ o.signature = c.signature ∧ o.time ≤ c.time ∧ c.time ≤ expiry cfg o.time

/-- What the log and the cache keep of each other. -/
structure Nonces (cfg : HmacAuthConfig x) (s : State) : Prop where
  past : ∀ c ∈ s.log, c.time ≤ s.now
  kept : ∀ c ∈ s.log, c.verdict = .claimed → ∃ e t, s.cache (nonceKey c.signature) = some e ∧ e.expiresAt = some t ∧
    expiry cfg c.time ≤ t
  sourced : ∀ signature e, s.cache (nonceKey signature) = some e → ∃ o ∈ s.log, o.Wrote ∧ o.signature = signature ∧
    e.expiresAt = some (expiry cfg o.time)
  apart : s.log.Pairwise (Apart cfg)
  justified : ∀ newer c older, s.log = newer ++ c :: older → Justified cfg c older

theorem nonces_fresh : Nonces cfg fresh where
  past := by simp [fresh]
  kept := by simp [fresh]
  sourced := by
    intro signature e he
    cases he
  apart := .nil
  justified := by simp [fresh]

variable {s : State}

theorem live_isSome {c : Cache.Store} {now : Nat} {key : String} :
    (Cache.live now (c key)).isSome = true ↔ ∃ e, c key = some e ∧ e.expiresAt.all (now ≤ ·) = true := by
  rw [Cache.live]
  cases c key with
  | none => simp
  | some e => simp [Option.isSome_filter]

theorem Nonces.past_cons (h : Nonces cfg s) {c : Claim} (hnow : c.time = s.now) : ∀ o ∈ c :: s.log, o.time ≤ s.now := by
  intro o ho
  rcases List.mem_cons.mp ho with rfl | ho
  · exact hnow.le
  · exact h.past o ho

theorem Nonces.justified_cons (h : Nonces cfg s) {c : Claim} (hc : Justified cfg c s.log) :
    ∀ newer d older, c :: s.log = newer ++ d :: older → Justified cfg d older := by
  intro newer d older hlog
  cases newer with
  | nil =>
    obtain ⟨rfl, rfl⟩ := List.cons.inj hlog
    exact hc
  | cons n newer => exact h.justified newer d older (List.cons.inj hlog).2

/-- A claim that finds no live nonce, answered or not. -/
theorem Nonces.write (h : Nonces cfg s) {c : Claim} (hnow : c.time = s.now) (hwrote : c.Wrote)
    (hfree : ¬ (Cache.live s.now (s.cache (nonceKey c.signature))).isSome = true) (threads : List Thread) :
    Nonces cfg { s with
      cache := update s.cache (nonceKey c.signature) (some ⟨"1", some (expiry cfg s.now)⟩)
      log := c :: s.log
      threads := threads } where
  past := h.past_cons hnow
  kept := by
    intro o ho hclaimed
    dsimp only
    by_cases hsame : o.signature = c.signature
    · rw [hsame, Function.update_self]
      exact ⟨_, _, rfl, rfl, Nat.add_le_add_right (h.past_cons hnow o ho) _⟩
    · rcases List.mem_cons.mp ho with rfl | ho
      · exact absurd rfl hsame
      · rw [Function.update_of_ne fun hk => hsame (nonceKey_injective hk)]
        exact h.kept o ho hclaimed
  sourced := by
    intro signature e he
    dsimp only at he
    by_cases hsame : signature = c.signature
    · subst hsame
      rw [Function.update_self] at he
      cases he
      exact ⟨c, List.mem_cons_self, hwrote, rfl, by rw [hnow]⟩
    · rw [Function.update_of_ne fun hk => hsame (nonceKey_injective hk)] at he
      obtain ⟨o, ho, hrest⟩ := h.sourced signature e he
      exact ⟨o, List.mem_cons_of_mem _ ho, hrest⟩
  apart := by
    refine List.pairwise_cons.mpr ⟨?_, h.apart⟩
    intro o ho hclaimed holder hsame
    obtain ⟨e, t, he, ht, hle⟩ := h.kept o ho holder
    have hexpired : t < s.now := by
      by_contra hle'
      apply hfree
      rw [hsame, live_isSome]
      exact ⟨e, he, by simpa [ht] using hle'⟩
    omega
  justified := by
    apply h.justified_cons
    intro hrefused
    rcases hwrote with hv | hv <;> rw [hv] at hrefused <;> cases hrefused

/-- A claim that leaves the cache alone. -/
theorem Nonces.leave (h : Nonces cfg s) {c : Claim} (hnow : c.time = s.now) (hclaimed : c.verdict ≠ .claimed)
    (hlive : c.verdict = .refused → (Cache.live s.now (s.cache (nonceKey c.signature))).isSome = true)
    (threads : List Thread) : Nonces cfg { s with log := c :: s.log, threads := threads } where
  past := h.past_cons hnow
  kept := by
    intro o ho hv
    rcases List.mem_cons.mp ho with rfl | ho
    · exact absurd hv hclaimed
    · exact h.kept o ho hv
  sourced := by
    intro signature e he
    obtain ⟨o, ho, hrest⟩ := h.sourced signature e he
    exact ⟨o, List.mem_cons_of_mem _ ho, hrest⟩
  apart := List.pairwise_cons.mpr ⟨fun _ _ hv => absurd hv hclaimed, h.apart⟩
  justified := by
    apply h.justified_cons
    intro hrefused
    obtain ⟨e, he, hvalid⟩ := live_isSome.mp (hlive hrefused)
    obtain ⟨o, ho, hwrote, hsame, ht⟩ := h.sourced _ e he
    rw [ht] at hvalid
    have hle : s.now ≤ expiry cfg o.time := by simpa using hvalid
    exact ⟨o, ho, hwrote, hsame, hnow ▸ h.past o ho, hnow ▸ hle⟩

theorem Nonces.act (h : Nonces cfg s) (i : Nat) (fault : Option Bool) (req : Request) (o : Op)
    (next : o.Answer → HmacProg (Except Denial Unit)) : Nonces cfg (s.act cfg i fault req o next) := by
  cases o with
  | now => exact { h with }
  | add signature =>
    by_cases hlive : (Cache.live s.now (s.cache (nonceKey signature))).isSome = true
    · have hclaim : claim cfg s.now signature s.cache = (.flag false, s.cache) := by rw [claim_eq, if_pos hlive]
      cases fault with
      | none =>
        have hact := h.leave (c := ⟨req, signature, s.now, .refused⟩) rfl (by simp) (fun _ => hlive)
          (s.threads.set i ⟨req, next (some false)⟩)
        simpa [State.act, Op.run, hclaim, flagOf, note, verdictOf] using hact
      | some applied =>
        have hact := h.leave (c := ⟨req, signature, s.now, .failed applied⟩) rfl (by simp) (by simp)
          (s.threads.set i ⟨req, next none⟩)
        simpa [State.act, Op.run, hclaim, note, verdictOf] using hact
    · have hclaim : claim cfg s.now signature s.cache =
          (.flag true, update s.cache (nonceKey signature) (some ⟨"1", some (expiry cfg s.now)⟩)) := by
        rw [claim_eq, if_neg hlive]
        rfl
      cases fault with
      | none =>
        have hact := h.write (c := ⟨req, signature, s.now, .claimed⟩) rfl (.inl rfl) hlive
          (s.threads.set i ⟨req, next (some true)⟩)
        simpa [State.act, Op.run, hclaim, flagOf, note, verdictOf] using hact
      | some applied => cases applied with
        | true =>
          have hact := h.write (c := ⟨req, signature, s.now, .failed true⟩) rfl (.inr rfl) hlive
            (s.threads.set i ⟨req, next none⟩)
          simpa [State.act, Op.run, hclaim, note, verdictOf] using hact
        | false =>
          have hact := h.leave (c := ⟨req, signature, s.now, .failed false⟩) rfl (by simp) (by simp)
            (s.threads.set i ⟨req, next none⟩)
          simpa [State.act, Op.run, note, verdictOf] using hact

theorem Nonces.step {e : Event} {s' : State} (h : Nonces cfg s) (hstep : step cfg e s = some s') : Nonces cfg s' := by
  cases e with
  | tick now =>
    simp only [Replay.step] at hstep
    split at hstep
    · next hle =>
      cases hstep
      exact { h with past := fun c hc => (h.past c hc).trans hle }
    · cases hstep
  | request req =>
    cases hstep
    exact { h with }
  | step i fault =>
    simp only [Replay.step] at hstep
    split at hstep
    · cases hstep
      exact h.act i fault _ _ _
    · cases hstep
  | finish i =>
    simp only [Replay.step] at hstep
    split at hstep
    · cases hstep
      exact { h with }
    · cases hstep
  | drop i =>
    simp only [Replay.step] at hstep
    split at hstep
    · cases hstep
      exact { h with }
    · cases hstep
  | other key slot =>
    simp only [Replay.step] at hstep
    split at hstep
    · cases hstep
    · next hother =>
      cases hstep
      have hkept : ∀ signature, update s.cache key slot (nonceKey signature) = s.cache (nonceKey signature) := by
        intro signature
        apply Function.update_of_ne
        intro hk
        apply hother
        rw [← hk, nonceKey, String.toList_append]
        exact List.prefix_append _ _
      exact { h with
        kept := fun c hc hv => by
          dsimp only
          rw [hkept]
          exact h.kept c hc hv
        sourced := fun signature e he => h.sourced signature e ((hkept signature).symm.trans he) }

/-- Every claim was made while the date of its request was in tolerance. -/
theorem timed_step {e : Event} {s' : State} (h : ∀ c ∈ s.log, inTolerance cfg c.req c.time = true)
    (hallowed : Allowed cfg e s) (hstep : step cfg e s = some s') :
    ∀ c ∈ s'.log, inTolerance cfg c.req c.time = true := by
  cases e with
  | step i fault =>
    simp only [Replay.step] at hstep
    split at hstep
    · next req o next hi =>
      cases hstep
      intro c hc
      rcases List.mem_append.mp hc with hc | hc
      · cases o with
        | now => cases hc
        | add signature =>
          rw [List.mem_singleton.mp hc]
          simpa only [Allowed, hi] using hallowed
      · exact h c hc
    · cases hstep
  | tick now =>
    simp only [Replay.step] at hstep
    split at hstep <;> cases hstep
    exact h
  | request req =>
    cases hstep
    exact h
  | finish i =>
    simp only [Replay.step] at hstep
    split at hstep <;> cases hstep
    exact h
  | drop i =>
    simp only [Replay.step] at hstep
    split at hstep <;> cases hstep
    exact h
  | other key slot =>
    simp only [Replay.step] at hstep
    split at hstep <;> cases hstep
    exact h

theorem run_keeps (hrun : Reach (step cfg) (Allowed cfg) fresh s) :
    Nonces cfg s ∧ ∀ c ∈ s.log, inTolerance cfg c.req c.time = true := by
  apply hrun.invariant (P := fun s => Nonces cfg s ∧ ∀ c ∈ s.log, inTolerance cfg c.req c.time = true)
  · exact ⟨nonces_fresh, by simp [fresh]⟩
  · intro e s s' hallowed hstep h
    exact ⟨h.1.step hstep, timed_step h.2 hallowed hstep⟩

/-- Both claims are of one signed request. -/
def Copies (c d : Claim) : Prop :=
  c.signature = d.signature ∧ (header c.req headerDate).getD none = (header d.req headerDate).getD none

/-- The date of `c` is `t`. -/
def Dated (x : Crates) (c : Claim) (t : Int) : Prop :=
  ∃ date, header c.req headerDate = some (some date) ∧ x.rfc3339 date = some t

def seconds (time : Nat) : Int := ((time / 1000 : Nat) : Int)

theorem inTolerance_iff {req : Request} {time : Nat} : inTolerance cfg req time = true ↔ ∃ date t,
    header req headerDate = some (some date) ∧ x.rfc3339 date = some t ∧
      (seconds time - t).natAbs ≤ cfg.toleranceSecs := by
  rw [inTolerance]
  cases hh : header req headerDate with
  | none => simp
  | some v => cases v with
    | none => simp
    | some date =>
      cases ht : x.rfc3339 date with
      | none => simp [dateWithinTolerance, ht]
      | some t => simp [dateWithinTolerance, ht, seconds]

theorem apart_ends (hfits : cfg.toleranceSecs * 2 < 2 ^ 64) {newer older : Claim} (hapart : Apart cfg newer older)
    (hnewer : inTolerance cfg newer.req newer.time = true) (holder : inTolerance cfg older.req older.time = true)
    (hn : newer.verdict = .claimed) (ho : older.verdict = .claimed) (hcopies : Copies newer older) :
    ∃ t, Dated x older t ∧ seconds older.time = t - cfg.toleranceSecs ∧
      seconds newer.time = t + cfg.toleranceSecs := by
  obtain ⟨date, t, hdate, ht, hbound⟩ := inTolerance_iff.mp holder
  obtain ⟨date', t', hdate', ht', hbound'⟩ := inTolerance_iff.mp hnewer
  have hsame := hcopies.2
  rw [hdate, hdate'] at hsame
  have hdates : date' = date := Option.some.inj hsame
  rw [hdates, ht] at ht'
  cases ht'
  have hgap := hapart hn ho hcopies.1
  have httl : nonceTtl cfg = cfg.toleranceSecs * 2 := by
    rw [nonceTtl]
    omega
  rw [expiry, httl] at hgap
  simp only [seconds] at hbound hbound' ⊢
  refine ⟨t, ⟨date, hdate, ht⟩, ?_, ?_⟩ <;> omega

/-- Of two copies of a request that are both taken, one is in the first second of its tolerance and one in the last,
and there is no third. -/
theorem copies_at_window_ends (hfits : cfg.toleranceSecs * 2 < 2 ^ 64)
    (hrun : Reach (step cfg) (Allowed cfg) fresh s) :
    (s.log.Pairwise fun newer older => newer.verdict = .claimed → older.verdict = .claimed → Copies newer older →
      ∃ t, Dated x older t ∧ seconds older.time = t - cfg.toleranceSecs ∧
        seconds newer.time = t + cfg.toleranceSecs) ∧
    (0 < cfg.toleranceSecs → ∀ taken : List Claim, taken.Sublist s.log → (∀ c ∈ taken, c.verdict = .claimed) →
      taken.Pairwise Copies → taken.length ≤ 2) := by
  obtain ⟨hnonces, htimed⟩ := run_keeps hrun
  have hends := hnonces.apart.imp_of_mem fun hn ho hapart => apart_ends hfits hapart (htimed _ hn) (htimed _ ho)
  refine ⟨hends, fun hpos taken hsub hclaimed hcopies => ?_⟩
  -- The one in the middle would be in both seconds.
  match taken, hsub, hclaimed, hcopies with
  | [], _, _, _ => exact Nat.zero_le _
  | [_], _, _, _ => exact Nat.le_succ 1
  | [_, _], _, _, _ => exact Nat.le_refl 2
  | c :: d :: e :: rest, hsub, hclaimed, hcopies =>
    have hpairs := hends.sublist hsub
    have hc := hclaimed c (by simp)
    have hd := hclaimed d (by simp)
    have he := hclaimed e (by simp)
    obtain ⟨t, ⟨date, hdate, ht⟩, hfirst, -⟩ := (List.pairwise_cons.mp hpairs).1 d (by simp) hc hd
      ((List.pairwise_cons.mp hcopies).1 d (by simp))
    have hrest := (List.pairwise_cons.mp hpairs).2
    have hcopy := (List.pairwise_cons.mp (List.pairwise_cons.mp hcopies).2).1 e (by simp)
    obtain ⟨t', ⟨date', hdate', ht'⟩, -, hlast⟩ := (List.pairwise_cons.mp hrest).1 e (by simp) hd he hcopy
    have hsame := hcopy.2
    rw [hdate, hdate'] at hsame
    have hdates : date = date' := Option.some.inj hsame
    rw [hdates, ht'] at ht
    cases ht
    omega

/-- A refusal has a claim of that signature before it, in the time of a nonce, which the cache may have taken. -/
theorem refusals_justified (hrun : Reach (step cfg) (Allowed cfg) fresh s) (newer : List Claim) (c : Claim)
    (older : List Claim) (hlog : s.log = newer ++ c :: older) (hrefused : c.verdict = .refused) :
    ∃ o ∈ older, (o.verdict = .claimed ∨ o.verdict = .failed true) ∧ o.signature = c.signature ∧ o.time ≤ c.time ∧
      c.time ≤ o.time + 2 * cfg.toleranceSecs * 1000 := by
  obtain ⟨o, ho, hwrote, hsame, hle, hexpiry⟩ := (run_keeps hrun).1.justified newer c older hlog hrefused
  refine ⟨o, ho, hwrote, hsame, hle, hexpiry.trans ?_⟩
  rw [expiry, nonceTtl]
  omega

end Claims

section Known

instance {x : Crates} (cfg : HmacAuthConfig x) (e : Event) (s : State) : Decidable (Allowed cfg e s) :=
  match e with
  | .step i _ =>
    match h : s.threads[i]? with
    | some ⟨req, .op (.add _) _⟩ => decidable_of_iff (inTolerance cfg req s.now = true) (by simp [Allowed, h])
    | some ⟨_, .op .now _⟩ => isTrue (by simp [Allowed, h])
    | some ⟨_, .ret _⟩ => isTrue (by simp [Allowed, h])
    | none => isTrue (by simp [Allowed, h])
  | .tick _ | .request _ | .finish _ | .drop _ | .other _ _ => isTrue trivial

private def knownStore : HmacAuthConfig knownCrates := { knownLayer with toleranceSecs := 1, nonceStore := true }

/-- The request in the first second, a copy of it, and one in the last second. -/
private def knownEvents : List Event :=
  [.tick 1777725295000, .request knownRequest, .request knownRequest, .request knownRequest, .step 0 none,
    .step 1 none, .step 0 none, .step 1 none, .tick 1777725297001, .step 2 none, .step 2 none]

def verdicts (s : State) : List Verdict := s.log.map Claim.verdict

theorem known_copies : ∃ s, Reach (step knownStore) (Allowed knownStore) fresh s ∧
    verdicts s = [.claimed, .refused, .claimed] ∧
    (s.log.Pairwise fun newer older => newer.verdict = .claimed → older.verdict = .claimed → Copies newer older →
      ∃ t, Dated knownCrates older t ∧ seconds older.time = t - knownStore.toleranceSecs ∧
        seconds newer.time = t + knownStore.toleranceSecs) ∧
    (0 < knownStore.toleranceSecs → ∀ taken : List Claim, taken.Sublist s.log → (∀ c ∈ taken, c.verdict = .claimed) →
      taken.Pairwise Copies → taken.length ≤ 2) := by
  have hrun : (steps (guarded (step knownStore) (Allowed knownStore)) knownEvents fresh).map verdicts =
      some [.claimed, .refused, .claimed] := by decide +kernel
  obtain ⟨s, hs, hverdicts⟩ := Option.map_eq_some_iff.mp hrun
  have hreach : Reach (step knownStore) (Allowed knownStore) fresh s := .of_guarded hs
  exact ⟨s, hreach, hverdicts, copies_at_window_ends (by decide) hreach⟩

theorem known_refusal : ∃ s, Reach (step knownStore) (Allowed knownStore) fresh s ∧
    ∃ c o : Claim, s.log.head? = some c ∧ c.verdict = .refused ∧ (o.verdict = .claimed ∨ o.verdict = .failed true) ∧
      o.signature = c.signature ∧ o.time ≤ c.time ∧ c.time ≤ o.time + 2 * knownStore.toleranceSecs * 1000 := by
  have hrun : (steps (guarded (step knownStore) (Allowed knownStore)) (knownEvents.take 8) fresh).map verdicts =
      some [.refused, .claimed] := by decide +kernel
  obtain ⟨s, hs, hverdicts⟩ := Option.map_eq_some_iff.mp hrun
  have hreach : Reach (step knownStore) (Allowed knownStore) fresh s := .of_guarded hs
  cases hlog : s.log with
  | nil => simp [verdicts, hlog] at hverdicts
  | cons c older =>
    have hrefused : c.verdict = .refused := by
      rw [verdicts, hlog] at hverdicts
      exact (List.cons.inj hverdicts).1
    obtain ⟨o, -, hclaim⟩ := refusals_justified hreach [] c older hlog hrefused
    exact ⟨s, hreach, c, o, by rw [hlog, List.head?_cons], hrefused, hclaim⟩

end Known

end Rustango.HmacAuth.Replay
