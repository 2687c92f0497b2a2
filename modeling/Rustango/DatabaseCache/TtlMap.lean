import Mathlib
import Rustango.DatabaseCache.Ops
import Rustango.Lib.Expiring

/-!
# A map with expiries

What the cache is for: one map from the full keys, whose entries are live up to their expiry and gone after it.
-/

namespace Rustango.DatabaseCache

open Function (update)
open Rustango.Cache (Entry Reply counterValue live)
open Rustango.Expiring
open Rustango.Url (Text)

abbrev Store := Text → Option Entry

/-- The entry is past its expiry at one of the readings. -/
def Dead (readings : List Nat) (e : Entry) : Prop := ∃ now ∈ readings, ∃ t, e.expiresAt = some t ∧ t < now

def expiry (ttl : Option Nat) (clock : Clock) : Option Nat := ttl.map (nowUnixMs clock + ·)

/-- The readings at which a call may drop what has expired, before it acts. -/
def Op.before : Op → List Nat
  | .incr _ _ _ _ _ sweep _ => [nowUnixMs sweep]
  | _ => []

/-- The readings at which a call may drop what has expired, after it acts. -/
def Op.after : Op → List Nat
  | .get _ _ gone => [nowUnixMs gone]
  | .set _ _ _ _ sweep _ => [nowUnixMs sweep]
  | .add _ _ _ _ _ sweep _ => [nowUnixMs sweep]
  | _ => []

/-- What a call answers from a map, and the map it leaves. -/
def Answers (op : Op) (m : Store) (r : Reply) (m' : Store) : Prop :=
  match op with
  | .get key now _ => r = .value ((live (nowUnixMs now) (m key)).map (·.value)) ∧ m' = m
  | .set key text ttl now _ _ =>
    match checkText text with
    | some e => r = .error e ∧ m' = m
    | none => r = .done ∧ m' = update m key (some ⟨text, expiry ttl now⟩)
  | .add key text ttl start now _ _ =>
    match checkText text with
    | some e => r = .error e ∧ m' = m
    | none =>
      if (live (nowUnixMs now) (m key)).isSome then r = .flag false ∧ m' = m
      else r = .flag true ∧ m' = update m key (some ⟨text, expiry ttl start⟩)
  | .incr key by_ ttl now start _ _ =>
    let old := live (nowUnixMs now) (m key)
    let new := (old.bind fun e => counterValue e.value).getD 0 + by_.toInt
    if inI64 new then
      r = .count new ∧ m' = update m key (some ⟨toString new, (old.map (·.expiresAt)).getD (expiry ttl start)⟩)
    else r = .error incrOverflow ∧ m' = m
  | .touch key ttl start now =>
    match live (nowUnixMs now) (m key) with
    | none => r = .flag false ∧ m' = m
    | some e => r = .flag true ∧ m' = update m key (some { e with expiresAt := expiry ttl start })
  | .delete key => r = .done ∧ m' = update m key none
  | .deletePrefix p => r = .done ∧ (∀ k, p <+: k → m' k = none) ∧ (∀ k, m' k = m k ∨ m' k = none) ∧
      (byteLen p ≤ hashedHeadBytes → ∀ k, ¬ p <+: k → m' k = m k)
  | .purge now _ => m' = (fun k => live (nowUnixMs now) (m k)) ∧ ∃ gone : List Text, gone.Nodup ∧
      (∀ k, k ∈ gone ↔ (m k).isSome ∧ live (nowUnixMs now) (m k) = none) ∧ r = .count gone.length

/-- A call on a map that drops what has expired at the call's own readings. -/
def Step (op : Op) (m : Store) (r : Reply) (m' : Store) : Prop :=
  ∃ m₁ m₂, Loses (Dead op.before) m m₁ ∧ Answers op m₁ r m₂ ∧ Loses (Dead op.after) m₂ m'

/-- The answers of a run are those of one map. -/
def OfMap : Store → List Op → List Reply → Prop
  | _, [], rs => rs = []
  | m, op :: ops, rs => ∃ r rest m', rs = r :: rest ∧ Step op m r m' ∧ OfMap m' ops rest

end Rustango.DatabaseCache
