import Rustango.JwtLifecycle.Token
import Rustango.Lib.Runs

/-!
# Calls on one store

Any number of calls take their operations one at a time while the clock goes on.
-/

namespace Rustango.JwtLifecycle

open Rustango.Threads
open Rustango.Url (Text)

/-- What an operation answers and makes of the store. -/
def Op.run (capacity : Nat) (clock : Int) (random : Text) (store : JtiMap) : (o : Op) → o.Answer × JtiMap
  | .now => (clock, store)
  | .isUsed jti => (store.containsKey jti, store)
  | .markUsed jti exp => store.markUsed capacity clock jti exp
  | .randomJti => (random, store)

def Op.asksStore : Op → Bool
  | .isUsed _ | .markUsed _ _ => true
  | .now | .randomJti => false

/-- A mark that was the first is noted. -/
def noteMarked (recorded : List (Text × Int)) : (o : Op) → o.Answer → List (Text × Int)
  | .markUsed jti exp, true => (jti, exp) :: recorded
  | _, _ => recorded

inductive Kind
  | redeem
  | revoke
  | verify
deriving DecidableEq

section Kinds
variable {M : Type}

def Call.kind : Call M → Kind
  | .refresh _ | .refreshWith _ _ => .redeem
  | .tryRevoke _ => .revoke
  | .verifyToken _ => .verify

def Reply.yieldsPair : Reply M → Bool
  | .refresh pair | .refreshWith (.ok pair) => pair.isSome
  | _ => false

/-- The token was accepted; a payload with a reserved name is refused after that. -/
def Reply.accepts : Reply M → Bool
  | .refresh pair | .refreshWith (.ok pair) => pair.isSome
  | .refreshWith (.error _) => true
  | .verifyToken claims => claims.isSome
  | .tryRevoke _ => false

/-- `Ok(true)`. -/
def Reply.revokes : Reply M → Bool
  | .tryRevoke (.ok revoked) => revoked
  | _ => false

/-- A call in progress; `afterRevoke` when a revocation of its token had returned before it started. -/
structure Thread (M : Type) where
  call : Call M
  afterRevoke : Bool
  prog : JwtProg (Reply M)

/-- `recorded` are the jtis that were marked, with their expiry; `revoked` the tokens whose revocation returned
`Ok(true)`; `pairs` a token for each pair it yielded; `accepted` the tokens that calls accepted, each with
whether its revocation came before the call. -/
structure State (M : Type) where
  clock : Int
  store : JtiMap
  threads : List (Thread M)
  recorded : List (Text × Int)
  revoked : List Text
  pairs : List Text
  accepted : List (Text × Bool)

inductive Event (M : Type)
  | tick (clock : Int)
  | call (c : Call M)
  | step (i : Nat) (random : Text)
  | finish (i : Nat)

namespace State

/-- The thread at `i` takes an operation. -/
def act (s : State M) (capacity : Nat) (random : Text) (i : Nat) (th : Thread M) (o : Op)
    (next : o.Answer → JwtProg (Reply M)) : State M :=
  let ans := (o.run capacity s.clock random s.store).1
  { s with
    store := (o.run capacity s.clock random s.store).2
    threads := s.threads.set i { th with prog := next ans }
    recorded := noteMarked s.recorded o ans }

/-- The thread at `i` returns. -/
def return_ (s : State M) (i : Nat) (th : Thread M) (reply : Reply M) : State M :=
  let token := th.call.token
  { s with
    threads := s.threads.eraseIdx i
    revoked := if reply.revokes then token :: s.revoked else s.revoked
    pairs := if reply.yieldsPair then token :: s.pairs else s.pairs
    accepted := if reply.accepts then (token, th.afterRevoke) :: s.accepted else s.accepted }

end State

end Kinds

section Model
variable (codec : Codec) (jwt : Config) (capacity : Nat)

def step : Event codec.json.Map → State codec.json.Map → Option (State codec.json.Map)
  | .tick clock, s => if s.clock ≤ clock then some { s with clock := clock } else none
  | .call c, s => some { s with threads := s.threads ++ [⟨c, decide (c.token ∈ s.revoked), callProg codec jwt c⟩] }
  | .step i random, s =>
    match s.threads[i]? with
    | some ⟨call, afterRevoke, .op o next⟩ => some (s.act capacity random i ⟨call, afterRevoke, .op o next⟩ o next)
    | _ => none
  | .finish i, s =>
    match s.threads[i]? with
    | some ⟨call, afterRevoke, .ret reply⟩ => some (s.return_ i ⟨call, afterRevoke, .ret reply⟩ reply)
    | _ => none

variable {codec} in
/-- A store nobody asked yet. -/
def fresh (clock : Int) : State codec.json.Map := ⟨clock, .default, [], [], [], [], []⟩

/-- Of the tokens presented only issued ones have a signature. -/
def Unforged (issued : Set Text) : Event codec.json.Map → Prop
  | .call c => ∀ claims, decodeSigned codec jwt c.token = some claims → c.token ∈ issued
  | _ => True

/-- No two issued tokens have one jti. -/
def Distinct (issued : Set Text) : Prop := ∀ t ∈ issued, ∀ t' ∈ issued, ∀ claims claims',
  decodeSigned codec jwt t = some claims → decodeSigned codec jwt t' = some claims' → claims.jti = claims'.jti → t = t'

/-- The store is asked before the token expires, once its jti was recorded. -/
def Timely (s : State codec.json.Map) : Event codec.json.Map → Prop
  | .step i _ => ∀ th o claims, s.threads[i]? = some th → th.call.kind ≠ .revoke → th.prog.op? = some o →
    o.asksStore = true → decodeSigned codec jwt th.call.token = some claims →
      (claims.jti, claims.exp) ∈ s.recorded → s.clock < claims.exp
  | _ => True

end Model

section Spec
variable {M : Type}

/-- One pair for a token, nothing accepted after its revocation, and a bounded store whose entries have
their nodes. -/
structure SingleUse (capacity : Nat) (s : State M) : Prop where
  once : s.pairs.Nodup
  revoked : ∀ a ∈ s.accepted, a.2 = false
  bounded : s.store.map.length ≤ capacity
  nodes : ∀ e ∈ s.store.map, (e.2, e.1) ∈ s.store.expiry

/-- No entry is dropped before it expires. -/
def KeepsEntries (s s' : State M) : Prop := ∀ e ∈ s.store.map, s'.clock < e.2 → e ∈ s'.store.map

end Spec

end Rustango.JwtLifecycle
