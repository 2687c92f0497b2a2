import Rustango.JwtLifecycle.Run

/-!
# What a call knows between two operations

Whether the expiry check passed, what the store answered, and so whether the token is accepted or revoked.
-/

namespace Rustango.JwtLifecycle

open Rustango.Threads
open Rustango.Url (Text)

/-- Where a call stands. -/
inductive Phase
  | start
  /-- Its expiry check passed. -/
  | live
  | accepted
  | refused
  /-- The store did not mark its revocation. -/
  | unmarked
  | revoked
deriving DecidableEq

section Moves
variable {M : Type} (kind : Kind) (claims : Option (JwtClaims M))

/-- How an operation and its answer move the phase. -/
inductive Moves : Phase → (o : Op) → o.Answer → Phase → Prop
  | check {c : JwtClaims M} (hc : claims = some c) (hk : kind ≠ .revoke) (now : Int) :
      Moves .start .now now (if now < c.exp then .live else .refused)
  | mark {c : JwtClaims M} (hc : claims = some c) (hk : kind = .redeem) (first : Bool) :
      Moves .live (.markUsed c.jti c.exp) first (if first then .accepted else .refused)
  | look {c : JwtClaims M} (hc : claims = some c) (hk : kind = .verify) (used : Bool) :
      Moves .live (.isUsed c.jti) used (if used then .refused else .accepted)
  | issueAt (hk : kind = .redeem) (now : Int) : Moves .accepted .now now .accepted
  | issueJti (jti : Text) : Moves .accepted .randomJti jti .accepted
  | checkRevoked {c : JwtClaims M} (hc : claims = some c) (hk : kind = .revoke) (now : Int) :
      Moves .start .now now (if c.exp ≤ now then .revoked else .live)
  | markRevoked {c : JwtClaims M} (hc : claims = some c) (hk : kind = .revoke) (first : Bool) :
      Moves .live (.markUsed c.jti c.exp) first (if first then .revoked else .unmarked)
  | lookRevoked {c : JwtClaims M} (hc : claims = some c) (hk : kind = .revoke) (used : Bool) :
      Moves .unmarked (.isUsed c.jti) used (if used then .revoked else .refused)

/-- A call returns what its phase says. -/
structure Settled (kind : Kind) (reply : Reply M) (p : Phase) : Prop where
  pair : reply.yieldsPair = true → kind = .redeem
  accepted : reply.accepts = true → p = .accepted
  revoked : reply.revokes = true → p = .revoked

end Moves

theorem accepts_of_yieldsPair {M : Type} {reply : Reply M} (h : reply.yieldsPair = true) : reply.accepts = true := by
  cases reply with
  | refresh pair => exact h
  | refreshWith pair =>
    cases pair with
    | ok pair => exact h
    | error e => rfl
  | tryRevoke revoked => cases h
  | verifyToken claims => cases h

section Follows
variable {codec : Codec} {jwt : Config} {token : Text}

private theorem decodeUnexpired_follows {kind : Kind} (hk : kind ≠ .revoke) :
    (decodeUnexpired codec jwt token).Follows (Moves kind (decodeSigned codec jwt token))
      (fun r p => ∀ c, r = some c → decodeSigned codec jwt token = some c ∧ p = .live) .start := by
  unfold decodeUnexpired
  cases hdecode : decodeSigned codec jwt token with
  | none =>
    intro c hc
    cases hc
  | some claims =>
    intro now
    refine ⟨_, .check rfl hk now, ?_⟩
    intro c hc
    by_cases hlive : (now : Int) < claims.exp
    · rw [if_pos hlive] at hc ⊢
      exact ⟨hc, rfl⟩
    · rw [if_neg hlive] at hc
      cases hc

private theorem redeemRefresh_follows :
    (redeemRefresh codec jwt token).Follows (Moves .redeem (decodeSigned codec jwt token))
    (fun r p => r.isSome = true → p = .accepted) .start := by
  apply (decodeUnexpired_follows (by decide)).bind
  intro r p hr
  cases r with
  | none =>
    intro h
    cases h
  | some claims =>
    obtain ⟨hdecode, hp⟩ := hr claims rfl
    subst hp
    simp only
    split
    · intro h
      cases h
    · intro first
      refine ⟨_, .mark hdecode rfl first, ?_⟩
      cases first with
      | true => exact fun _ => rfl
      | false =>
        intro h
        cases h

private theorem issueTokenInner_follows {claims : Option (JwtClaims codec.json.Map)} (userId : Int) (typ : Text)
    (ttlSecs : Int) (custom : codec.json.Map) : (issueTokenInner codec jwt userId typ ttlSecs custom).Follows
      (Moves .redeem claims) (fun _ p => p = .accepted) .accepted :=
  fun now => ⟨_, .issueAt rfl now, fun jti => ⟨_, .issueJti jti, rfl⟩⟩

private theorem issuePairWith_follows {claims : Option (JwtClaims codec.json.Map)} (userId : Int)
    (custom : codec.json.Map) :
    (issuePairWith codec jwt userId custom).Follows (Moves .redeem claims) (fun _ p => p = .accepted) .accepted := by
  unfold issuePairWith
  split
  · rfl
  · apply (issueTokenInner_follows userId accessTyp jwt.accessTtlSecs custom).bind
    intro access p hp
    subst hp
    apply (issueTokenInner_follows userId refreshTyp jwt.refreshTtlSecs custom).bind
    intro refresh p hp
    exact hp

private theorem verifyToken_follows :
    (verifyToken codec jwt token).Follows (Moves .verify (decodeSigned codec jwt token))
    (fun r p => r.isSome = true → p = .accepted) .start := by
  apply (decodeUnexpired_follows (by decide)).bind
  intro r p hr
  cases r with
  | none =>
    intro h
    cases h
  | some claims =>
    obtain ⟨hdecode, hp⟩ := hr claims rfl
    subst hp
    intro used
    refine ⟨_, .look hdecode rfl used, ?_⟩
    cases used with
    | true =>
      intro h
      cases h
    | false => exact fun _ => rfl

private theorem recordRevoked_follows (claims : JwtClaims codec.json.Map) :
    (recordRevoked claims.jti claims.exp).Follows (Moves .revoke (some claims)) (fun r p => r = .ok () → p = .revoked)
      .start := by
  intro now
  refine ⟨_, .checkRevoked rfl rfl now, ?_⟩
  change Prog.Follows _ _ (if claims.exp ≤ (now : Int) then _ else _) _
  by_cases hpast : claims.exp ≤ (now : Int)
  · rw [if_pos hpast, if_pos hpast]
    exact fun _ => rfl
  · rw [if_neg hpast, if_neg hpast]
    intro first
    refine ⟨_, .markRevoked rfl rfl first, ?_⟩
    cases first with
    | true => exact fun _ => rfl
    | false =>
      intro used
      refine ⟨_, .lookRevoked rfl rfl used, ?_⟩
      cases used with
      | true => exact fun _ => rfl
      | false =>
        intro h
        cases h

private theorem tryRevoke_follows :
    (tryRevoke codec jwt token).Follows (Moves .revoke (decodeSigned codec jwt token))
    (fun r p => r = .ok true → p = .revoked) .start := by
  unfold tryRevoke
  cases hdecode : decodeSigned codec jwt token with
  | none =>
    intro h
    cases h
  | some claims =>
    apply (recordRevoked_follows claims).bind
    intro r p hr h
    cases r with
    | ok u => exact hr rfl
    | error e => cases h

/-- Every call follows the protocol of its kind. -/
theorem callProg_follows (c : Call codec.json.Map) : (callProg codec jwt c).Follows
    (Moves c.kind (decodeSigned codec jwt c.token)) (Settled c.kind) .start := by
  cases c with
  | refresh token =>
    have hpair : (refresh codec jwt token).Follows (Moves .redeem (decodeSigned codec jwt token))
        (fun r p => r.isSome = true → p = .accepted) .start := by
      apply redeemRefresh_follows.bind
      intro r p hr
      cases r with
      | none =>
        intro h
        cases h
      | some claims =>
        rw [hr rfl]
        apply (issuePairWith_follows claims.sub claims.custom).bind
        intro issued p hp _
        exact hp
    apply hpair.bind
    intro r p hr
    exact ⟨fun _ => rfl, hr, fun h => by cases h⟩
  | refreshWith token newCustom =>
    have hpair : (refreshWith codec jwt token newCustom).Follows (Moves .redeem (decodeSigned codec jwt token))
        (fun r p => (Reply.refreshWith r : Reply codec.json.Map).accepts = true → p = .accepted) .start := by
      apply redeemRefresh_follows.bind
      intro r p hr
      cases r with
      | none =>
        intro h
        cases h
      | some claims =>
        rw [hr rfl]
        apply (issuePairWith_follows claims.sub newCustom).bind
        intro issued p hp _
        exact hp
    apply hpair.bind
    intro r p hr
    exact ⟨fun _ => rfl, hr, fun h => by cases h⟩
  | tryRevoke token =>
    apply tryRevoke_follows.bind
    intro r p hr
    change Settled .revoke (.tryRevoke r) p
    constructor
    · intro h
      cases h
    · intro h
      cases h
    · intro h
      apply hr
      cases r with
      | ok revoked => exact congrArg Except.ok h
      | error e => cases h
  | verifyToken token =>
    apply verifyToken_follows.bind
    intro r p hr
    exact ⟨fun h => (by cases h), hr, fun h => by cases h⟩

end Follows

end Rustango.JwtLifecycle
