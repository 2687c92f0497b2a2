import Mathlib
import Rustango.DatabaseCache.TtlMap

/-!
# The table holds the map

Each entry of the map is the row under its stored key, and the table has no other row.
-/

namespace Rustango.DatabaseCache

open Function (update)
open Rustango.Cache (Entry live)
open Rustango.Expiring
open Rustango.Url (Text)

def storedExpiry : Option Nat → Nat
  | none => 0
  | some t => min t maxMs

def rowOf (sha : Sha256) (key : Text) (e : Entry) : Row := ⟨storedKey sha key, e.value, storedExpiry e.expiresAt⟩

/-- The table holds the map, whose keys are among `keys`. No entry expires at 0, which means never in a row. -/
structure Holds (sha : Sha256) (keys : Set Text) (t : Table) (m : Store) : Prop where
  slot : ∀ k ∈ keys, t.slot (storedKey sha k) = (m k).map (rowOf sha k)
  known : ∀ row ∈ t.rows, ∃ k ∈ keys, row.key = storedKey sha k
  outside : ∀ k ∉ keys, m k = none
  dated : ∀ k e, m k = some e → e.expiresAt ≠ some 0

theorem nowUnixMs_le (clock : Clock) : nowUnixMs clock ≤ maxMs := min_le_right _ _

theorem expiresFor_eq (ttl : Option Nat) (clock : Clock) : expiresFor ttl clock = storedExpiry (expiry ttl clock) := by
  cases ttl with
  | none => rfl
  | some ms =>
    simp only [expiresFor, expiry, storedExpiry, Option.map_some]
    omega

section Rows
variable {sha : Sha256} {k : Text} {e : Entry} {now : Nat}

theorem expired_rowOf (hdated : e.expiresAt ≠ some 0) (hnow : now ≤ maxMs) :
    expired now (rowOf sha k e) = true ↔ Dead [now] e := by
  have hrow : (rowOf sha k e).expires = storedExpiry e.expiresAt := rfl
  rw [expired, Bool.and_eq_true, decide_eq_true_eq, decide_eq_true_eq, hrow]
  simp only [Dead, List.mem_singleton, exists_eq_left]
  cases hexp : e.expiresAt with
  | none => simp [storedExpiry]
  | some t =>
    rw [hexp] at hdated
    have hpos : t ≠ 0 := fun hzero => hdated (by rw [hzero])
    have hmax : 0 < maxMs := by decide
    simp only [storedExpiry, Option.some.injEq, exists_eq_left']
    omega

theorem live_some (now : Nat) (e : Entry) : live now (some e) = if e.expiresAt.all (now ≤ ·) then some e else none := by
  simp [live, Option.filter]

theorem not_live_iff : live now (some e) = none ↔ Dead [now] e := by
  rw [live_some]
  simp only [Dead, List.mem_singleton, exists_eq_left]
  cases hexp : e.expiresAt with
  | none => simp
  | some t => simp

theorem live_eq_some {slot : Option Entry} (h : live now slot = some e) : slot = some e := by
  unfold live at h
  exact (Option.filter_eq_some_iff.1 h).1

end Rows

namespace Holds
variable {sha : Sha256} {keys : Set Text} {t : Table} {m : Store}

theorem empty : Holds sha keys Table.empty (fun _ => none) where
  slot _ _ := rfl
  known row hrow := by cases hrow
  outside _ _ := rfl
  dated _ _ h := by cases h

/-- A row written under the key of its entry. -/
theorem put (h : Holds sha keys t m) (hinj : Set.InjOn sha.hex keys) {k : Text} (hk : k ∈ keys) {e : Entry}
    (hdated : e.expiresAt ≠ some 0) : Holds sha keys (t.put (rowOf sha k e)) (update m k (some e)) where
  slot := by
    intro j hj
    rw [Table.slot_put]
    by_cases hkey : j = k
    · subst hkey
      simp [rowOf]
    · have hne : (rowOf sha k e).key ≠ storedKey sha j := fun heq => hkey (storedKey_inj hinj hj hk heq.symm)
      rw [if_neg hne, Function.update_of_ne hkey, h.slot j hj]
  known := by
    intro row hrow
    rcases List.mem_cons.1 hrow with rfl | hrow
    · exact ⟨k, hk, rfl⟩
    · exact h.known row (List.mem_of_mem_filter hrow)
  outside := by
    intro j hj
    have hne : j ≠ k := fun heq => hj (heq ▸ hk)
    rw [Function.update_of_ne hne, h.outside j hj]
  dated := by
    intro j e' he'
    by_cases hkey : j = k
    · subst hkey
      rw [Function.update_self] at he'
      cases he'
      exact hdated
    · rw [Function.update_of_ne hkey] at he'
      exact h.dated j e' he'

theorem delete (h : Holds sha keys t m) {p : Row → Bool} {q : Text → Entry → Bool}
    (hq : ∀ k ∈ keys, ∀ e, m k = some e → p (rowOf sha k e) = q k e) :
    Holds sha keys (t.delete p).2 (fun k => (m k).filter fun e => !q k e) where
  slot := by
    intro k hk
    rw [Table.slot_delete, h.slot k hk]
    cases hm : m k with
    | none => rfl
    | some e =>
      simp only [Option.map_some, Option.filter_some, hq k hk e hm]
      cases q k e <;> rfl
  known row hrow := h.known row (List.mem_of_mem_filter hrow)
  outside k hk := by rw [h.outside k hk]; rfl
  dated k e he := h.dated k e (Option.filter_eq_some_iff.1 he).1

theorem row_eq (h : Holds sha keys t m) {row : Row} (hrow : row ∈ t.rows) :
    ∃ k ∈ keys, ∃ e, m k = some e ∧ row = rowOf sha k e := by
  obtain ⟨k, hk, hkey⟩ := h.known row hrow
  have hslot := Table.slot_of_mem hrow
  rw [hkey, h.slot k hk] at hslot
  obtain ⟨e, he, heq⟩ := Option.map_eq_some_iff.1 hslot
  exact ⟨k, hk, e, he, heq.symm⟩

theorem slot_none (h : Holds sha keys t m) {k : Text} (hk : k ∈ keys) (hm : m k = none) :
    t.slot (storedKey sha k) = none := by
  rw [h.slot k hk, hm]
  rfl

theorem slot_some (h : Holds sha keys t m) {k : Text} (hk : k ∈ keys) {e : Entry} (hm : m k = some e) :
    t.slot (storedKey sha k) = some (rowOf sha k e) := by
  rw [h.slot k hk, hm]
  rfl

end Holds

section Purge
variable {sha : Sha256} {keys : Set Text} {t : Table} {m : Store}

theorem Holds.purgeBatch (h : Holds sha keys t m) (now : Clock) (pick : Pick) :
    ∃ m', Loses (Dead [nowUnixMs now]) m m' ∧ Holds sha keys (purgeBatch t (nowUnixMs now) pick).2 m' := by
  have hpicked : ∀ row ∈ pick.run (t.rows.filter (expired (nowUnixMs now))), expired (nowUnixMs now) row = true :=
    fun row hrow => (List.mem_filter.1 ((pick.sub _).subset hrow)).2
  refine ⟨_, ?_, h.delete fun _ _ _ _ => rfl⟩
  intro k
  dsimp only
  cases hm : m k with
  | none => exact .inl rfl
  | some e =>
    rw [Option.filter_some]
    by_cases hgone : rowOf sha k e ∈ pick.run (t.rows.filter (expired (nowUnixMs now)))
    · refine .inr ⟨by simp [hgone], ?_⟩
      intro a ha
      cases ha
      exact (expired_rowOf (h.dated k e hm) (nowUnixMs_le now)).1 (hpicked _ hgone)
    · exact .inl (by simp [hgone])

theorem Holds.afterWrite {b : Backend} {s : State} (h : Holds sha keys s.table m) (sweep : Clock) (pick : Pick) :
    ∃ m', Loses (Dead [nowUnixMs sweep]) m m' ∧ Holds sha keys (b.afterWrite s sweep pick).table m' := by
  unfold Backend.afterWrite
  split
  · exact ⟨m, Loses.refl _ m, h⟩
  · exact h.purgeBatch sweep pick

private theorem countP_mem_of_sublist {α : Type*} [DecidableEq α] {g l : List α} (hg : g.Sublist l)
    (hl : l.Nodup) :
    l.countP (fun x => decide (x ∈ g)) = g.length := by
  rw [List.countP_eq_length_filter]
  apply List.Perm.length_eq
  rw [List.perm_ext_iff_of_nodup (hl.filter _) (hg.nodup hl)]
  intro x
  simp only [List.mem_filter, decide_eq_true_eq, and_iff_right_iff_imp]
  exact fun hx => hg.subset hx

/-- The loop deletes every row that has expired, and counts them. -/
theorem purgeLoop_eq (now : Nat) (picks : Nat → Pick) (total : Nat) (t : Table) :
    (purgeLoop now picks total t).1 = total + t.rows.countP (expired now) ∧
      (purgeLoop now picks total t).2.rows = t.rows.filter fun row => !expired now row := by
  induction hn : t.rows.length using Nat.strong_induction_on generalizing picks total t with
  | _ n ih =>
    have hnodup : t.rows.Nodup := t.once.of_map _
    have hsub := (picks 0).sub (t.rows.filter (expired now))
    have hlength := (picks 0).length (t.rows.filter (expired now))
    have hbatch : (purgeBatch t now (picks 0)).1 = ((picks 0).run (t.rows.filter (expired now))).length :=
      countP_mem_of_sublist (hsub.trans List.filter_sublist) hnodup
    have hrows : (purgeBatch t now (picks 0)).2.rows =
        t.rows.filter fun row => !decide (row ∈ (picks 0).run (t.rows.filter (expired now))) := rfl
    have hexpired : ∀ row ∈ (picks 0).run (t.rows.filter (expired now)), expired now row = true :=
      fun row hrow => (List.mem_filter.1 (hsub.subset hrow)).2
    rw [← List.countP_eq_length_filter] at hlength
    rw [purgeLoop]
    split
    · rename_i hless
      have hall : (picks 0).run (t.rows.filter (expired now)) = t.rows.filter (expired now) := by
        apply hsub.eq_of_length
        rw [← List.countP_eq_length_filter]
        omega
      rw [hbatch, hlength, hrows, hall]
      refine ⟨by omega, List.filter_congr fun row hrow => ?_⟩
      simp [hrow]
    · rename_i hfull
      have hcount := length_purgeBatch t now (picks 0)
      have hshort : (purgeBatch t now (picks 0)).2.rows.length < n := by
        simp only [purgeBatchSize] at hfull
        omega
      obtain ⟨htotal, hkept⟩ := ih _ hshort (fun i => picks (i + 1)) (total + (purgeBatch t now (picks 0)).1)
        (purgeBatch t now (picks 0)).2 rfl
      have hkeeps : (purgeBatch t now (picks 0)).2.rows.filter (fun row => !expired now row) =
          t.rows.filter fun row => !expired now row := by
        rw [hrows, List.filter_filter]
        apply List.filter_congr
        intro row hrow
        by_cases hgone : row ∈ (picks 0).run (t.rows.filter (expired now))
        · simp [hgone, hexpired row hgone]
        · simp [hgone]
      refine ⟨?_, hkept.trans hkeeps⟩
      -- as many rows are left that have not expired
      have hbefore := List.length_eq_countP_add_countP (expired now) (l := t.rows)
      have hafter := List.length_eq_countP_add_countP (expired now) (l := (purgeBatch t now (picks 0)).2.rows)
      have hsame := congrArg List.length hkeeps
      simp only [← List.countP_eq_length_filter] at hsame
      simp only [decide_not, Bool.decide_eq_true] at hbefore hafter
      rw [htotal]
      omega

end Purge

end Rustango.DatabaseCache
