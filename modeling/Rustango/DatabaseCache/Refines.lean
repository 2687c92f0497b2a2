import Mathlib
import Rustango.DatabaseCache.Holds

/-!
# The cache is a map with expiries

One call after another keeps the table and the map together, and answers from the map, unless it steps where the
code leaves the map's rules: the instant of expiry in `add`, an expiry of 0, a prefix that goes into a hash, and a
NUL in a key on Postgres.
-/

namespace Rustango.DatabaseCache

open Function (update)
open Rustango.Cache (Entry Reply counterValue live)
open Rustango.Expiring
open Rustango.Query (likePattern likePattern_escapeLike likeEscapeChar escapeLikeChars like)
open Rustango.Url (Text)
open Rustango.Wildcards (matches_startsWith)

/-- The full keys that a call names. -/
def Op.keys : Op → List Text
  | .get key _ _ => [key]
  | .set key _ _ _ _ _ => [key]
  | .add key _ _ _ _ _ _ => [key]
  | .incr key _ _ _ _ _ _ => [key]
  | .touch key _ _ _ => [key]
  | .delete key => [key]
  | .deletePrefix _ => []
  | .purge _ _ => []

/-- No row of the key is live. -/
def Backend.Free (b : Backend) (t : Table) (key : Text) (now : Clock) : Prop :=
  ∀ row, t.slot (b.stored key) = some row → expired (nowUnixMs now) row = true

/-- The call does not leave the rules of the map. -/
def Backend.Keeps (b : Backend) (s : State) : Op → Prop
  | .get key _ _ => b.refuses (b.stored key) = false
  | .set key text ttl now _ _ =>
    checkText text = none → b.refuses (b.stored key) = false ∧ expiry ttl now ≠ some 0
  | .add key text ttl start now _ _ =>
    checkText text = none → b.refuses (b.stored key) = false ∧
      (∀ row, s.table.slot (b.stored key) = some row → row.expires = 0 ∨ row.expires ≠ nowUnixMs now) ∧
      (b.Free s.table key now → expiry ttl start ≠ some 0)
  | .incr key _ ttl now start sweep pick =>
    b.refuses (b.stored key) = false ∧ (b.Free (b.afterWrite s sweep pick).table key now → expiry ttl start ≠ some 0)
  | .touch key ttl start now =>
    b.refuses (b.stored key) = false ∧ (¬ b.Free s.table key now → expiry ttl start ≠ some 0)
  | .delete key => b.refuses (b.stored key) = false
  | .deletePrefix p =>
    b.refuses (head p) = false ∧ (byteLen p ≤ hashedHeadBytes → ∀ row ∈ s.table.rows, ¬ EntersHash p row.key)
  | .purge _ _ => True

/-- Every call of the run keeps to the rules, in the state it meets. -/
def Backend.KeepsAll (b : Backend) : State → List Op → Prop
  | _, [] => True
  | s, op :: ops => b.Keeps s op ∧ b.KeepsAll (op.run b s).2 ops

private theorem instr_eq_one (hay needle : Text) : instr hay needle = 1 ↔ needle <+: hay := by
  unfold instr
  rw [List.range_succ_eq_map, List.find?_cons]
  cases hprefix : needle.isPrefixOf (hay.drop 0) with
  | true => simpa using List.isPrefixOf_iff_prefix.1 hprefix
  | false =>
    have hnot : ¬ needle <+: hay := by
      intro h
      rw [List.drop_zero, List.isPrefixOf_iff_prefix.2 h] at hprefix
      cases hprefix
    refine iff_of_false ?_ hnot
    rw [List.find?_map]
    cases List.find? _ (List.range hay.length) <;> simp

private theorem startsWith_iff (b : Backend) (p key : Text) : b.startsWith p key = true ↔ head p <+: key := by
  have hlike : like (some likeEscapeChar) (String.ofList (escapeLikeChars (head p) ++ ['%'])) (String.ofList key) = true ↔
      head p <+: key := by
    rw [like, String.toList_ofList, String.toList_ofList, likePattern_escapeLike]
    exact matches_startsWith
  unfold Backend.startsWith
  cases b.dialect with
  | sqlite => simpa using instr_eq_one key (head p)
  | postgres => exact hlike
  | mysql => exact hlike

private theorem parseI64_toString {n : Int} (h : inI64 n = true) : parseI64 (toString n).toList = some n := by
  have hall : ((Nat.toDigits 10 n.natAbs).all Char.isDigit) = true :=
    List.all_eq_true.2 fun c hc => Nat.isDigit_of_mem_toDigits (by decide) (by decide) hc
  rw [toList_toString]
  split
  · rename_i hneg
    have hvalue : -(n.natAbs : Int) = n := by omega
    simp [-Nat.cast_natAbs, parseI64, hall, value_toDigits, hvalue, h]
  · rename_i hpos
    have hvalue : (n.natAbs : Int) = n := by omega
    obtain ⟨c, s, hdigits, hc⟩ := digits_cases n.natAbs
    have hvalues := value_toDigits n.natAbs
    rw [hdigits] at hall hvalues ⊢
    unfold parseI64
    split
    · rename_i heq
      rw [(List.cons.inj heq).1] at hc
      cases hc
    · rename_i heq
      rw [(List.cons.inj heq).1] at hc
      cases hc
    · simp [hall, hvalues, hvalue, h]

private theorem inI64_toInt (n : Int64) : inI64 n.toInt = true := by
  rw [inI64_iff]
  exact ⟨n.le_toInt, n.toInt_lt⟩

section Calls
variable {b : Backend} {keys : Set Text} {s : State} {m : Store}

/-- The result of a call is that of the call on the map, and its table holds the map that the call leaves. -/
def Simulates (b : Backend) (keys : Set Text) (op : Op) (m : Store) (result : Reply × State) : Prop :=
  ∃ m', Step op m result.1 m' ∧ Holds b.sha keys result.2.table m'

private theorem live_of_expired {k : Text} {e : Entry} (h : Holds b.sha keys s.table m) (hm : m k = some e)
    (now : Clock) :
    live (nowUnixMs now) (m k) = if expired (nowUnixMs now) (rowOf b.sha k e) then none else some e := by
  have hdead : expired (nowUnixMs now) (rowOf b.sha k e) = true ↔ Dead [nowUnixMs now] e :=
    expired_rowOf (h.dated k e hm) (nowUnixMs_le now)
  rw [hm]
  split
  · rename_i hexpired
    exact not_live_iff.2 (hdead.1 hexpired)
  · rename_i hlive
    rw [live_some]
    split
    · rfl
    · rename_i hnone
      have hgone : live (nowUnixMs now) (some e) = none := by rw [live_some, if_neg hnone]
      exact absurd (hdead.2 (not_live_iff.1 hgone)) hlive

private theorem free_iff (h : Holds b.sha keys s.table m) {key : Text} (hkey : key ∈ keys) (now : Clock) :
    b.Free s.table key now ↔ live (nowUnixMs now) (m key) = none := by
  unfold Backend.Free Backend.stored
  cases hm : m key with
  | none => simp [h.slot_none hkey hm, live]
  | some e =>
    have hlive := live_of_expired h hm now
    rw [hm] at hlive
    rw [hlive, h.slot_some hkey hm]
    simp

private theorem holds_written (hinj : Set.InjOn b.sha.hex keys) (h : Holds b.sha keys s.table m) {key : Text}
    (hkey : key ∈ keys)
    {e : Entry} (hdated : e.expiresAt ≠ some 0) (sweep : Clock) (pick : Pick) :
    ∃ m', Loses (Dead [nowUnixMs sweep]) (update m key (some e)) m' ∧
      Holds b.sha keys (b.afterWrite ⟨s.table.put (rowOf b.sha key e), s.writes⟩ sweep pick).table m' := by
  have hput : Holds b.sha keys (⟨s.table.put (rowOf b.sha key e), s.writes⟩ : State).table (update m key (some e)) :=
    h.put hinj hkey hdated
  exact hput.afterWrite sweep pick

private theorem get_simulates (h : Holds b.sha keys s.table m) {key : Text} (hkey : key ∈ keys)
    (now gone : Clock)
    (hkeeps : b.Keeps s (.get key now gone)) : Simulates b keys (.get key now gone) m (b.get s key now gone) := by
  have hrefuses : b.refuses (b.stored key) = false := hkeeps
  unfold Backend.get
  rw [hrefuses]
  cases hm : m key with
  | none =>
    have hslot : s.table.slot (b.stored key) = none := h.slot_none hkey hm
    simp only [hslot]
    exact ⟨m, ⟨m, m, Loses.refl _ m, ⟨by simp [hm, live], rfl⟩, Loses.refl _ m⟩, h⟩
  | some e =>
    have hslot : s.table.slot (b.stored key) = some (rowOf b.sha key e) := h.slot_some hkey hm
    have hlive := live_of_expired h hm now
    simp only [hslot]
    change Simulates b keys _ m (if expired (nowUnixMs now) (rowOf b.sha key e) then _ else _)
    cases hexpired : expired (nowUnixMs now) (rowOf b.sha key e) with
    | false =>
      rw [hexpired] at hlive
      exact ⟨m, ⟨m, m, Loses.refl _ m, ⟨by simp [hlive, rowOf], rfl⟩, Loses.refl _ m⟩, h⟩
    | true =>
      rw [hexpired] at hlive
      refine ⟨_, ⟨m, m, Loses.refl _ m, ⟨by simp [hlive], rfl⟩, ?_⟩, h.delete fun _ _ _ _ => rfl⟩
      intro k
      dsimp only
      cases hk : m k with
      | none => exact .inl rfl
      | some e' =>
        rw [Option.filter_some]
        split
        · exact .inl rfl
        · rename_i hdeleted
          refine .inr ⟨rfl, ?_⟩
          intro a ha
          cases ha
          simp only [Bool.not_eq_true', Bool.not_eq_false, Bool.and_eq_true] at hdeleted
          exact (expired_rowOf (h.dated k e' hk) (nowUnixMs_le gone)).1 hdeleted.2

private theorem set_simulates (hinj : Set.InjOn b.sha.hex keys) (h : Holds b.sha keys s.table m) {key : Text}
    (hkey : key ∈ keys)
    (text : String) (ttl : Option Nat) (now sweep : Clock) (pick : Pick)
    (hkeeps : b.Keeps s (.set key text ttl now sweep pick)) :
    Simulates b keys (.set key text ttl now sweep pick) m (b.set s key text ttl now sweep pick) := by
  unfold Backend.set
  cases htext : checkText text with
  | some err =>
    refine ⟨m, ⟨m, m, Loses.refl _ m, ?_, Loses.refl _ m⟩, h⟩
    simp [Answers, htext]
  | none =>
    obtain ⟨hrefuses, hexpiry⟩ := hkeeps htext
    have hrow : (⟨b.stored key, text, expiresFor ttl now⟩ : Row) = rowOf b.sha key ⟨text, expiry ttl now⟩ := by
      rw [expiresFor_eq]
      rfl
    have hupsert : (s.table.upsert ⟨b.stored key, text, expiresFor ttl now⟩ (fun _ => true)
        fun _ => ⟨b.stored key, text, expiresFor ttl now⟩).2 = s.table.put (rowOf b.sha key ⟨text, expiry ttl now⟩) := by
      rw [hrow]
      unfold Table.upsert
      split <;> rfl
    simp only [hrefuses, hupsert]
    obtain ⟨m', hloses, hholds⟩ := holds_written hinj h hkey (e := ⟨text, expiry ttl now⟩) hexpiry sweep pick
    refine ⟨m', ⟨m, _, Loses.refl _ m, ?_, hloses⟩, hholds⟩
    simp [Answers, htext]

private theorem add_eq (h : Holds b.sha keys s.table m) {key : Text} (hkey : key ∈ keys) {text : String}
    {ttl : Option Nat}
    {start now sweep : Clock} {pick : Pick} (htext : checkText text = none) (hrefuses : b.refuses (b.stored key) = false)
    (hinstant : ∀ row, s.table.slot (b.stored key) = some row → row.expires = 0 ∨ row.expires ≠ nowUnixMs now) :
    ∃ swept : Bool, b.add s key text ttl start now sweep pick = if (live (nowUnixMs now) (m key)).isSome then (.flag false, s)
      else
        let wrote : State := ⟨s.table.put (rowOf b.sha key ⟨text, expiry ttl start⟩), s.writes⟩
        (.flag true, if swept then b.afterWrite wrote sweep pick else wrote) := by
  have hrow : (⟨b.stored key, text, expiresFor ttl start⟩ : Row) = rowOf b.sha key ⟨text, expiry ttl start⟩ := by
    rw [expiresFor_eq]
    rfl
  unfold Backend.add
  simp only [htext, hrefuses, hrow, Table.insertIgnore, Table.upsert, Table.update]
  cases hm : m key with
  | none =>
    have hslot : s.table.slot (b.stored key) = none := h.slot_none hkey hm
    refine ⟨true, ?_⟩
    simp only [hslot]
    cases b.dialect <;> simp [live]
  | some e =>
    have hslot : s.table.slot (b.stored key) = some (rowOf b.sha key e) := h.slot_some hkey hm
    have htakeable : (decide ((rowOf b.sha key e).expires ≠ 0) && decide ((rowOf b.sha key e).expires ≤ nowUnixMs now)) =
        expired (nowUnixMs now) (rowOf b.sha key e) := by
      have hnot := hinstant _ hslot
      unfold expired
      rw [Bool.eq_iff_iff]
      simp only [Bool.and_eq_true, decide_eq_true_eq]
      omega
    have hlive := live_of_expired h hm now
    rw [hm] at hlive
    refine ⟨decide (b.dialect ≠ .mysql), ?_⟩
    simp only [hslot, htakeable, hlive]
    cases hexpired : expired (nowUnixMs now) (rowOf b.sha key e) <;> cases b.dialect <;> simp

private theorem add_simulates (hinj : Set.InjOn b.sha.hex keys) (h : Holds b.sha keys s.table m) {key : Text}
    (hkey : key ∈ keys)
    (text : String) (ttl : Option Nat) (start now sweep : Clock) (pick : Pick)
    (hkeeps : b.Keeps s (.add key text ttl start now sweep pick)) :
    Simulates b keys (.add key text ttl start now sweep pick) m (b.add s key text ttl start now sweep pick) := by
  cases htext : checkText text with
  | some err =>
    have hadd : b.add s key text ttl start now sweep pick = (.error err, s) := by
      unfold Backend.add
      rw [htext]
    rw [hadd]
    refine ⟨m, ⟨m, m, Loses.refl _ m, ?_, Loses.refl _ m⟩, h⟩
    simp [Answers, htext]
  | none =>
    obtain ⟨hrefuses, hinstant, hexpiry⟩ := hkeeps htext
    obtain ⟨swept, hadd⟩ := @add_eq b keys s m h key hkey text ttl start now sweep pick htext hrefuses hinstant
    rw [hadd]
    cases hlive : live (nowUnixMs now) (m key) with
    | some e =>
      refine ⟨m, ⟨m, m, Loses.refl _ m, ?_, Loses.refl _ m⟩, h⟩
      simp [Answers, htext, hlive]
    | none =>
      have hdated := hexpiry ((free_iff h hkey now).2 hlive)
      have hanswers : Answers (.add key text ttl start now sweep pick) m (.flag true)
          (update m key (some ⟨text, expiry ttl start⟩)) := by
        simp [Answers, htext, hlive]
      cases swept with
      | true =>
        obtain ⟨m', hloses, hholds⟩ := holds_written hinj h hkey (e := ⟨text, expiry ttl start⟩) hdated sweep pick
        exact ⟨m', ⟨m, _, Loses.refl _ m, hanswers, hloses⟩, hholds⟩
      | false => exact ⟨_, ⟨m, _, Loses.refl _ m, hanswers, Loses.refl _ _⟩, h.put hinj hkey hdated⟩

/-- The upsert of `incr`, told by what is live. -/
private theorem incr_upsert (h : Holds b.sha keys s.table m) {key : Text} (hkey : key ∈ keys) (by_ : Int64)
    (ttl : Option Nat)
    (now start : Clock) :
    let old := live (nowUnixMs now) (m key)
    let new := (old.bind fun e => counterValue e.value).getD 0 + by_.toInt
    let row : Row := ⟨b.stored key, toString by_.toInt, expiresFor ttl start⟩
    s.table.upsert row (fun old => b.restarts (nowUnixMs now) old || inI64 (b.sum row old))
      (b.counted (nowUnixMs now) row) = if inI64 new then
        (1, s.table.put (rowOf b.sha key ⟨toString new, (old.map (·.expiresAt)).getD (expiry ttl start)⟩))
      else (0, s.table) := by
  intro old new row
  have hrange := inI64_toInt by_
  have hrow : row = rowOf b.sha key ⟨toString by_.toInt, expiry ttl start⟩ := by
    change (⟨b.stored key, toString by_.toInt, expiresFor ttl start⟩ : Row) = _
    rw [expiresFor_eq]
    rfl
  unfold Table.upsert
  cases hm : m key with
  | none =>
    have hslot : s.table.slot row.key = none := h.slot_none hkey hm
    have hold : old = none := by simp [old, hm, live]
    have hnew : new = by_.toInt := by simp [new, hold]
    simp only [hslot]
    rw [hnew, if_pos hrange, hold, hrow]
    rfl
  | some e =>
    have hslot : s.table.slot row.key = some (rowOf b.sha key e) := h.slot_some hkey hm
    have hlive : old = if expired (nowUnixMs now) (rowOf b.sha key e) then none else some e := live_of_expired h hm now
    simp only [hslot]
    cases hexpired : expired (nowUnixMs now) (rowOf b.sha key e) with
    | true =>
      have hold : old = none := by rw [hlive, hexpired, if_pos rfl]
      have hnew : new = by_.toInt := by simp [new, hold]
      have hrestarts : b.restarts (nowUnixMs now) (rowOf b.sha key e) = true := by simp [Backend.restarts, hexpired]
      rw [hnew, if_pos hrange, hold, hrestarts, Bool.true_or, if_pos rfl, Backend.counted, hrestarts, hexpired, hrow]
      rfl
    | false =>
      have hold : old = some e := by rw [hlive, hexpired]; rfl
      obtain ⟨hnot, hint⟩ := notInt_iff b.dialect e.value
      cases hcount : counterValue e.value with
      | none =>
        have hnew : new = by_.toInt := by simp [new, hold, hcount]
        have hrestarts : b.restarts (nowUnixMs now) (rowOf b.sha key e) = true := by
          rw [Backend.restarts, hexpired, Bool.false_or]
          exact hnot.2 hcount
        rw [hnew, if_pos hrange, hold, hrestarts, Bool.true_or, if_pos rfl, Backend.counted, hrestarts, hexpired, hrow]
        rfl
      | some n =>
        have hcounter : counterValue (toString by_.toInt) = some by_.toInt := counterValue_eq_some.2 ⟨rfl, hrange⟩
        have hby : sqlInt b.dialect row.value = by_.toInt := (notInt_iff b.dialect _).2 _ hcounter
        have hsum : b.sum row (rowOf b.sha key e) = new := by
          have hnew : new = n + by_.toInt := by simp [new, hold, hcount]
          rw [Backend.sum, hby, hnew]
          exact congrArg (· + by_.toInt) (hint n hcount)
        have hrestarts : b.restarts (nowUnixMs now) (rowOf b.sha key e) = false := by
          rw [Backend.restarts, hexpired, Bool.false_or, ← Bool.not_eq_true]
          intro htrue
          have hnone := hnot.1 htrue
          rw [hcount] at hnone
          cases hnone
        rw [hrestarts, Bool.false_or, hsum, Backend.counted, hrestarts, hexpired, hsum, hold]
        rfl

private theorem incr_simulates (hinj : Set.InjOn b.sha.hex keys) (h : Holds b.sha keys s.table m) {key : Text}
    (hkey : key ∈ keys)
    (by_ : Int64) (ttl : Option Nat) (now start sweep : Clock) (pick : Pick)
    (hkeeps : b.Keeps s (.incr key by_ ttl now start sweep pick)) :
    Simulates b keys (.incr key by_ ttl now start sweep pick) m (b.incr s key by_ ttl now start sweep pick) := by
  obtain ⟨hrefuses, hexpiry⟩ := hkeeps
  obtain ⟨m₁, hloses, hholds⟩ := h.afterWrite (b := b) sweep pick
  have hupsert := incr_upsert (b := b) hholds hkey by_ ttl now start
  simp only at hupsert
  cases hfits : inI64 (((live (nowUnixMs now) (m₁ key)).bind fun e => counterValue e.value).getD 0 + by_.toInt) with
  | false =>
    have hincr : b.incr s key by_ ttl now start sweep pick = (.error incrOverflow, b.afterWrite s sweep pick) := by
      unfold Backend.incr
      simp only [hrefuses, hupsert, hfits]
      rfl
    rw [hincr]
    refine ⟨m₁, ⟨m₁, m₁, hloses, ?_, Loses.refl _ m₁⟩, hholds⟩
    simp [Answers, hfits]
  | true =>
    have hdated : ((live (nowUnixMs now) (m₁ key)).map (·.expiresAt)).getD (expiry ttl start) ≠ some 0 := by
      cases hlive : live (nowUnixMs now) (m₁ key) with
      | none => exact hexpiry ((free_iff hholds hkey now).2 hlive)
      | some e => exact hholds.dated key e (live_eq_some hlive)
    have hincr : b.incr s key by_ ttl now start sweep pick =
        (.count (((live (nowUnixMs now) (m₁ key)).bind fun e => counterValue e.value).getD 0 + by_.toInt),
          ⟨(b.afterWrite s sweep pick).table.put (rowOf b.sha key
            ⟨toString (((live (nowUnixMs now) (m₁ key)).bind fun e => counterValue e.value).getD 0 + by_.toInt),
              ((live (nowUnixMs now) (m₁ key)).map (·.expiresAt)).getD (expiry ttl start)⟩),
            (b.afterWrite s sweep pick).writes⟩) := by
      unfold Backend.incr
      simp only [hrefuses, hupsert, hfits, if_true, Table.slot_put]
      simp only [rowOf, Backend.stored, if_true, Option.map_some, Option.getD_some, parseI64_toString hfits]
      rfl
    rw [hincr]
    refine ⟨_, ⟨m₁, _, hloses, ?_, Loses.refl _ _⟩, hholds.put hinj hkey hdated⟩
    simp [Answers, hfits]

private theorem touch_simulates (hinj : Set.InjOn b.sha.hex keys) (h : Holds b.sha keys s.table m) {key : Text}
    (hkey : key ∈ keys) (ttl : Option Nat) (start now : Clock) (hkeeps : b.Keeps s (.touch key ttl start now)) :
    Simulates b keys (.touch key ttl start now) m (b.touch s key ttl start now) := by
  obtain ⟨hrefuses, hexpiry⟩ := hkeeps
  rw [free_iff h hkey] at hexpiry
  unfold Backend.touch Table.update
  rw [hrefuses]
  cases hm : m key with
  | none =>
    have hslot : s.table.slot (b.stored key) = none := h.slot_none hkey hm
    simp only [hslot]
    refine ⟨m, ⟨m, m, Loses.refl _ m, ?_, Loses.refl _ m⟩, h⟩
    simp [Answers, hm, live]
  | some e =>
    have hslot : s.table.slot (b.stored key) = some (rowOf b.sha key e) := h.slot_some hkey hm
    have hlive := live_of_expired h hm now
    have hguard : (decide ((rowOf b.sha key e).expires = 0) || decide (nowUnixMs now ≤ (rowOf b.sha key e).expires)) =
        !expired (nowUnixMs now) (rowOf b.sha key e) := by
      unfold expired
      rw [Bool.eq_iff_iff]
      simp only [Bool.or_eq_true, decide_eq_true_eq, Bool.not_eq_true', Bool.and_eq_false_iff, decide_eq_false_iff_not]
      omega
    simp only [hslot, hguard]
    cases hexpired : expired (nowUnixMs now) (rowOf b.sha key e) with
    | true =>
      rw [hexpired] at hlive
      refine ⟨m, ⟨m, m, Loses.refl _ m, ?_, Loses.refl _ m⟩, h⟩
      simp [Answers, hlive]
    | false =>
      rw [hexpired] at hlive
      have hsome : live (nowUnixMs now) (m key) = some e := hlive
      rw [hsome] at hexpiry
      have hput := h.put hinj hkey (e := { e with expiresAt := expiry ttl start }) (hexpiry (by simp))
      refine ⟨update m key (some { e with expiresAt := expiry ttl start }),
        ⟨m, update m key (some { e with expiresAt := expiry ttl start }), Loses.refl _ m, ?_, Loses.refl _ _⟩, ?_⟩
      · simp [Answers, hsome]
      · have hrow : ({ ({ rowOf b.sha key e with expires := expiresFor ttl start } : Row) with key := b.stored key } : Row) =
            rowOf b.sha key { e with expiresAt := expiry ttl start } := by
          rw [expiresFor_eq]
          rfl
        simpa [hrow] using hput

private theorem delete_simulates (hinj : Set.InjOn b.sha.hex keys) (h : Holds b.sha keys s.table m) {key : Text}
    (hkey : key ∈ keys) (hkeeps : b.Keeps s (.delete key)) : Simulates b keys (.delete key) m (b.delete s key) := by
  have hrefuses : b.refuses (b.stored key) = false := hkeeps
  have hdeleted := h.delete (p := fun row => row.key = b.stored key) (q := fun j _ => decide (j = key)) (by
    intro j hj e _
    rw [Bool.eq_iff_iff, decide_eq_true_eq, decide_eq_true_eq]
    exact ⟨fun heq => storedKey_inj hinj hj hkey heq, fun heq => by rw [heq]; rfl⟩)
  have hmap : (fun k => (m k).filter fun _ => !decide (k = key)) = update m key none := by
    funext k
    by_cases hk : k = key
    · subst hk
      cases m k <;> simp
    · rw [Function.update_of_ne hk]
      cases m k <;> simp [hk]
  rw [hmap] at hdeleted
  unfold Backend.delete
  rw [hrefuses]
  exact ⟨_, ⟨m, _, Loses.refl _ m, ⟨rfl, rfl⟩, Loses.refl _ _⟩, hdeleted⟩

private theorem deletePrefix_simulates (h : Holds b.sha keys s.table m) (p : Text)
    (hkeeps : b.Keeps s (.deletePrefix p)) :
    Simulates b keys (.deletePrefix p) m (b.deletePrefix s p) := by
  obtain ⟨hrefuses, hshort⟩ := hkeeps
  have hdeleted := h.delete (p := fun row => b.startsWith p row.key) (q := fun k _ => b.startsWith p (storedKey b.sha k))
    fun _ _ _ _ => rfl
  unfold Backend.deletePrefix
  rw [hrefuses]
  refine ⟨_, ⟨m, _, Loses.refl _ m, ⟨rfl, ?_, ?_, ?_⟩, Loses.refl _ _⟩, hdeleted⟩
  · intro k hp
    have hstarts := (startsWith_iff b p (storedKey b.sha k)).2 (head_prefix_storedKey hp)
    cases m k <;> simp [hstarts]
  · intro k
    cases m k with
    | none => exact .inl rfl
    | some e => cases b.startsWith p (storedKey b.sha k) <;> simp
  · intro hbytes k hp
    cases hm : m k with
    | none => rfl
    | some e =>
      have hk : k ∈ keys := by
        by_contra hout
        rw [h.outside k hout] at hm
        cases hm
      have hhead : head p = p := cut_of_byteLen hbytes
      have hrow := hshort hbytes _ (Table.mem_of_slot (h.slot_some hk hm))
      have hnot : b.startsWith p (storedKey b.sha k) = false := by
        rw [← Bool.not_eq_true, startsWith_iff, hhead]
        exact fun hprefix => hp (prefix_of_storedKey hprefix hrow)
      simp [hnot]

/-- The keys of the rows that have expired are those of the entries that have. -/
private theorem exists_gone (hinj : Set.InjOn b.sha.hex keys) (h : Holds b.sha keys s.table m) (now : Clock) :
    ∃ gone : List Text, gone.Nodup ∧ (∀ k, k ∈ gone ↔ (m k).isSome ∧ live (nowUnixMs now) (m k) = none) ∧
      gone.length = s.table.rows.countP (expired (nowUnixMs now)) := by
  choose! full hfull using fun row (hrow : row ∈ s.table.rows) => h.known row hrow
  have hname : ∀ k ∈ keys, ∀ e, m k = some e → full (rowOf b.sha k e) = k := by
    intro k hk e hm
    have hrow := Table.mem_of_slot (h.slot_some hk hm)
    exact storedKey_inj hinj (hfull _ hrow).1 hk (hfull _ hrow).2.symm
  refine ⟨(s.table.rows.filter (expired (nowUnixMs now))).map full, ?_, ?_, ?_⟩
  · apply List.Nodup.map_on _ ((s.table.once.of_map _).filter _)
    intro row hrow row' hrow' heq
    have hmem := List.mem_of_mem_filter hrow
    have hmem' := List.mem_of_mem_filter hrow'
    have hkey : row.key = row'.key := by rw [(hfull row hmem).2, (hfull row' hmem').2, heq]
    exact List.inj_on_of_nodup_map s.table.once hmem hmem' hkey
  · intro k
    rw [List.mem_map]
    constructor
    · intro hk
      obtain ⟨row, hrow, heq⟩ := hk
      obtain ⟨hmem, hexpired⟩ := List.mem_filter.1 hrow
      obtain ⟨j, hj, e, hm, hrowe⟩ := h.row_eq hmem
      subst hrowe
      rw [hname j hj e hm] at heq
      subst heq
      have hlive := live_of_expired h hm now
      rw [hexpired, if_pos rfl] at hlive
      exact ⟨by simp [hm], hlive⟩
    · intro hk
      obtain ⟨e, hm⟩ := Option.isSome_iff_exists.1 hk.1
      have hkeys : k ∈ keys := by
        by_contra hout
        rw [h.outside k hout] at hm
        cases hm
      have hlive := live_of_expired h hm now
      rw [hk.2] at hlive
      refine ⟨rowOf b.sha k e, List.mem_filter.2 ⟨Table.mem_of_slot (h.slot_some hkeys hm), ?_⟩, hname k hkeys e hm⟩
      by_contra hnot
      rw [if_neg hnot] at hlive
      cases hlive
  · rw [List.length_map, List.countP_eq_length_filter]

private theorem purge_simulates (hinj : Set.InjOn b.sha.hex keys) (h : Holds b.sha keys s.table m) (now : Clock)
    (picks : Nat → Pick) : Simulates b keys (.purge now picks) m (Backend.purgeExpired s now picks) := by
  obtain ⟨hcount, hrows⟩ := purgeLoop_eq (nowUnixMs now) picks 0 s.table
  have htable : (purgeLoop (nowUnixMs now) picks 0 s.table).2 = (s.table.delete (expired (nowUnixMs now))).2 :=
    Table.ext hrows
  have hdeleted := h.delete (p := expired (nowUnixMs now)) (q := fun k e => expired (nowUnixMs now) (rowOf b.sha k e))
    fun _ _ _ _ => rfl
  have hmap : (fun k => (m k).filter fun e => !expired (nowUnixMs now) (rowOf b.sha k e)) =
      fun k => live (nowUnixMs now) (m k) := by
    funext k
    cases hm : m k with
    | none => rfl
    | some e =>
      have hlive := live_of_expired h hm now
      rw [hm] at hlive
      rw [hlive, Option.filter_some]
      cases expired (nowUnixMs now) (rowOf b.sha k e) <;> rfl
  rw [hmap] at hdeleted
  obtain ⟨gone, hnodup, hgone, hlength⟩ := exists_gone hinj h now
  have hpurge : Backend.purgeExpired s now picks =
      (.count gone.length, ⟨(s.table.delete (expired (nowUnixMs now))).2, s.writes⟩) := by
    unfold Backend.purgeExpired
    simp only [htable, hcount, hlength, Nat.zero_add]
  rw [hpurge]
  exact ⟨_, ⟨m, _, Loses.refl _ m, ⟨rfl, gone, hnodup, hgone, rfl⟩, Loses.refl _ _⟩, hdeleted⟩

private theorem simulates (hinj : Set.InjOn b.sha.hex keys) (h : Holds b.sha keys s.table m) (op : Op)
    (hkeys : ∀ k ∈ op.keys, k ∈ keys) (hkeeps : b.Keeps s op) : Simulates b keys op m (op.run b s) := by
  cases op with
  | get key now gone => exact get_simulates h (hkeys key (by simp [Op.keys])) now gone hkeeps
  | set key text ttl now sweep pick =>
    exact set_simulates hinj h (hkeys key (by simp [Op.keys])) text ttl now sweep pick hkeeps
  | add key text ttl start now sweep pick =>
    exact add_simulates hinj h (hkeys key (by simp [Op.keys])) text ttl start now sweep pick hkeeps
  | incr key by_ ttl now start sweep pick =>
    exact incr_simulates hinj h (hkeys key (by simp [Op.keys])) by_ ttl now start sweep pick hkeeps
  | touch key ttl start now => exact touch_simulates hinj h (hkeys key (by simp [Op.keys])) ttl start now hkeeps
  | delete key => exact delete_simulates hinj h (hkeys key (by simp [Op.keys])) hkeeps
  | deletePrefix p => exact deletePrefix_simulates h p hkeeps
  | purge now picks => exact purge_simulates hinj h now picks

private theorem ofMap_of_keepsAll (hinj : Set.InjOn b.sha.hex keys) (ops : List Op)
    (hkeys : ∀ op ∈ ops, ∀ k ∈ op.keys, k ∈ keys)
    (h : Holds b.sha keys s.table m) (hkeeps : b.KeepsAll s ops) : OfMap m ops (replies b s ops) := by
  induction ops generalizing s m with
  | nil => rfl
  | cons op ops ih =>
    obtain ⟨hop, hrest⟩ := hkeeps
    obtain ⟨m', hstep, hholds⟩ := simulates hinj h op (hkeys op List.mem_cons_self) hop
    exact ⟨_, _, m', rfl, hstep, ih (fun o ho => hkeys o (List.mem_cons_of_mem op ho)) hholds hrest⟩

end Calls

/-- The cache answers every run from one map with expiries, when each call keeps to the rules. -/
theorem database_cache_of_map (b : Backend) (ops : List Op)
    (hsha : Set.InjOn b.sha.hex { k | ∃ op ∈ ops, k ∈ op.keys }) (hkeeps : b.KeepsAll ⟨Table.empty, 0⟩ ops) :
    OfMap (fun _ => none) ops (replies b ⟨Table.empty, 0⟩ ops) :=
  ofMap_of_keepsAll hsha ops (fun op hop _ hk => ⟨op, hop, hk⟩) Holds.empty hkeeps

private def firstRows : Pick := ⟨List.take purgeBatchSize, fun _ => List.take_sublist _ _, fun _ => List.length_take⟩

private def zeros : Sha256 := ⟨fun _ => List.replicate 64 '0', fun _ => rfl, fun _ => by decide⟩

private def sqliteCache : Backend := ⟨.sqlite, 0, zeros, ""⟩

private def counterRun : List Op :=
  [.set ['k'] "5" (some 5) (some 0) none firstRows, .incr ['k'] 2 none (some 3) none none firstRows,
    .get ['k'] (some 5) none, .add ['k'] "1" none none (some 6) none firstRows, .deletePrefix ['k'],
    .get ['k'] (some 6) none]

private theorem counterRun_keys {k : Text} (h : ∃ op ∈ counterRun, k ∈ op.keys) : k = ['k'] := by
  obtain ⟨op, hop, hk⟩ := h
  simp only [counterRun, List.mem_cons, List.not_mem_nil, or_false] at hop
  rcases hop with rfl | rfl | rfl | rfl | rfl | rfl <;> simp [Op.keys] at hk <;> exact hk

private theorem counterRun_keeps : sqliteCache.KeepsAll ⟨Table.empty, 0⟩ counterRun := by
  refine ⟨fun _ => ⟨rfl, by simp [expiry]⟩, ⟨rfl, fun _ => by simp [expiry]⟩, rfl, fun _ => ⟨rfl, ?_, by simp [expiry]⟩,
    ⟨rfl, fun _ => by decide⟩, rfl, trivial⟩
  intro row hrow
  have hslot := hrow.symm.trans (show _ = some (⟨['k'], "7", 5⟩ : Row) by decide)
  rw [Option.some.inj hslot]
  decide

theorem known_counter_run : replies sqliteCache ⟨Table.empty, 0⟩ counterRun =
      [.done, .count 7, .value (some "7"), .flag true, .done, .value none] ∧
    OfMap (fun _ => none) counterRun (replies sqliteCache ⟨Table.empty, 0⟩ counterRun) := by
  refine ⟨by decide, database_cache_of_map sqliteCache counterRun ?_ counterRun_keeps⟩
  intro k hk k' hk' _
  rw [counterRun_keys hk, counterRun_keys hk']

private def lockRun : List Op :=
  [.add ['k'] "1" (some 5) (some 0) (some 0) none firstRows, .add ['k'] "2" (some 5) (some 5) (some 5) none firstRows]

/-- The entry is live at 5, where a `get` still reads it, and `add` takes it. -/
theorem lock_taken_at_expiry : Set.InjOn zeros.hex { k | ∃ op ∈ lockRun, k ∈ op.keys } ∧
    ¬ OfMap (fun _ => none) lockRun (replies sqliteCache ⟨Table.empty, 0⟩ lockRun) := by
  have hreplies : replies sqliteCache ⟨Table.empty, 0⟩ lockRun = [.flag true, .flag true] := by decide
  have htext : checkText "1" = none := by decide
  have htext' : checkText "2" = none := by decide
  constructor
  · intro k hk k' hk' _
    have hone : ∀ j : Text, (∃ op ∈ lockRun, j ∈ op.keys) → j = ['k'] := by
      intro j hj
      obtain ⟨op, hop, hj⟩ := hj
      simp only [lockRun, List.mem_cons, List.not_mem_nil, or_false] at hop
      rcases hop with rfl | rfl <;> simpa [Op.keys] using hj
    rw [hone k hk, hone k' hk']
  · intro hmap
    rw [hreplies] at hmap
    obtain ⟨r, rest, m, heq, hfirst, r', rest', m', heq', hsecond, -⟩ := hmap
    obtain ⟨rfl, rfl⟩ := List.cons.inj heq
    obtain ⟨rfl, -⟩ := List.cons.inj heq'
    obtain ⟨m₁, m₂, hbefore, hanswers, hafter⟩ := hfirst
    have hnone : m₁ ['k'] = none := hbefore.eq_none rfl
    simp only [Answers, htext, hnone, live, Option.filter_none, Option.isSome_none] at hanswers
    have hentry : m₂ ['k'] = some ⟨"1", some 5⟩ := by
      rw [hanswers.2, Function.update_self]
      rfl
    have hkept : m ['k'] = some ⟨"1", some 5⟩ := by
      apply hafter.eq_some hentry
      simp [Dead, Op.after, nowUnixMs]
    obtain ⟨m₁', m₂', hbefore', hanswers', -⟩ := hsecond
    have hstill : m₁' ['k'] = some ⟨"1", some 5⟩ := by
      apply hbefore'.eq_some hkept
      simp [Dead, Op.before]
    have hlive : (live (nowUnixMs (some 5)) (m₁' ['k'])).isSome = true := by
      rw [hstill]
      decide
    simp [Answers, htext', hlive] at hanswers'

end Rustango.DatabaseCache
