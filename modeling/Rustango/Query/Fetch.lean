import Rustango.Query.Dedup
import Rustango.Query.Distinct

/-!
# Fetching a query

A lone `DISTINCT` adds the terms of its order that the select list lacks, and compares them too. The
head of a set operation cannot: with no slice it gives its order up.
-/

namespace Rustango.Query

open Rustango.Firsts

variable {L : Lang}

namespace SelectQuery
variable (q : SelectQuery L)

/-- The query as its set operation writes it, without helper columns. Postgres, which has `DISTINCT ON`, drops
the order of such a branch too; here it keeps it, as the ranked form of the other dialects does. -/
def asBranch : SelectQuery L :=
  { q with orderBy := if q.distinct = some .all then q.writtenOrder false else q.orderBy }

section Rows
variable (m : Meaning L) (db : Database L)

/-- The rows agree in the helper columns of a lone `DISTINCT`. -/
def helpersTied (a b : Env L) : Bool :=
  q.distinctOrderHelpers.all fun x => m.tied (x.value m q.model.table a) (x.value m q.model.table b)

/-- What a lone `DISTINCT` keeps; it compares the helper columns too. -/
def dedupFetched (envs : List (Env L)) : List (Env L) :=
  match q.distinct with
  | some .all => firsts (fun a b => sameOutput m (q.output m a) (q.output m b) && q.helpersTied m a b) envs
  | _ => q.dedup m envs

/-- A fetch of the query, which no other query surrounds, may return these rows. -/
def Fetches (rows : List (List (String × L.Value))) : Prop :=
  match q.compound with
  | [] => q.InScope m ∧ ∃ draw l, (q.matching m db).Perm l ∧
      l.Pairwise (ordered m q.model.table draw q.orderBy) ∧
        rows = (slice q.limit q.offset (q.dedupFetched m l)).map (q.output m)
  | _ :: _ => q.asBranch.Answers m db rows

end Rows

end SelectQuery

section Fetch
variable {m : Meaning L} {db : Database L} {q : SelectQuery L}

theorem fetches_plain (hc : q.compound = []) {rows : List (List (String × L.Value))} :
    q.Fetches m db rows ↔ q.InScope m ∧ ∃ draw l, (q.matching m db).Perm l ∧
      l.Pairwise (ordered m q.model.table draw q.orderBy) ∧
        rows = (slice q.limit q.offset (q.dedupFetched m l)).map (q.output m) := by
  rw [SelectQuery.Fetches, hc]

theorem fetches_combined (hc : q.compound ≠ []) {rows : List (List (String × L.Value))} :
    q.Fetches m db rows ↔ q.asBranch.Answers m db rows := by
  unfold SelectQuery.Fetches
  split
  · rename_i h
    exact absurd h hc
  · exact Iff.rfl

private theorem limitCount_eq_zero {limit : Option Int} : limitCount limit = some 0 ↔ limit = some 0 := by
  cases limit with
  | none => simp [limitCount]
  | some n =>
    by_cases hn : n < 0
    · simp only [limitCount, Option.bind_some, if_pos hn, reduceCtorEq, Option.some.injEq, false_iff]
      omega
    · simp only [limitCount, Option.bind_some, if_neg hn, Option.some.injEq]
      omega

theorem slice_eq_nil_iff {α : Type} {limit offset : Option Int} {l : List α} :
    slice limit offset l = [] ↔ limit = some 0 ∨ l.length ≤ offsetCount offset := by
  rw [← limitCount_eq_zero, slice]
  cases limitCount limit with
  | none => simp [window, List.drop_eq_nil_iff]
  | some n => simp [window, List.take_eq_nil_iff, List.drop_eq_nil_iff]

private theorem helpersTied_refl (a : Env L) : q.helpersTied m a a = true := by
  rw [SelectQuery.helpersTied, List.all_eq_true]
  exact fun x _ => m.tied_refl _

private theorem helpersTied_symm {a b : Env L} (h : q.helpersTied m a b = true) :
    q.helpersTied m b a = true := by
  rw [SelectQuery.helpersTied, List.all_eq_true] at h ⊢
  exact fun x hx => Meaning.tied_symm (h x hx)

private theorem helpersTied_trans {a b c : Env L} (hab : q.helpersTied m a b = true)
    (hbc : q.helpersTied m b c = true) : q.helpersTied m a c = true := by
  rw [SelectQuery.helpersTied, List.all_eq_true] at hab hbc ⊢
  exact fun x hx => Meaning.tied_trans (hab x hx) (hbc x hx)

section Wide
variable (m) (q)

/-- The rows look alike. -/
def narrow (a b : Env L) : Bool := sameOutput m (q.output m a) (q.output m b)

/-- The rows look alike, helper columns included. -/
def wide (a b : Env L) : Bool := sameOutput m (q.output m a) (q.output m b) && q.helpersTied m a b

variable {m} {q}

theorem wide_refl (a : Env L) : wide m q a a = true := by
  rw [wide, sameOutput_refl, helpersTied_refl, Bool.and_self]

private theorem wide_symm (a b : Env L) (h : wide m q a b = true) : wide m q b a = true := by
  rw [wide, Bool.and_eq_true] at h ⊢
  exact ⟨sameOutput_symm h.1, helpersTied_symm h.2⟩

theorem wide_trans (a b c : Env L) (hab : wide m q a b = true) (hbc : wide m q b c = true) :
    wide m q a c = true := by
  rw [wide, Bool.and_eq_true] at hab hbc ⊢
  exact ⟨sameOutput_trans hab.1 hbc.1, helpersTied_trans hab.2 hbc.2⟩

end Wide

theorem length_dedupFetched_perm {l l' : List (Env L)} (h : l.Perm l') :
    (q.dedupFetched m l).length = (q.dedupFetched m l').length := by
  unfold SelectQuery.dedupFetched
  split
  · exact length_firsts_perm (r := wide m q) wide_refl wide_symm wide_trans h
  · exact length_dedup_perm h

theorem dedupFetched_of_ne (hd : q.distinct ≠ some .all) (l : List (Env L)) :
    q.dedupFetched m l = q.dedup m l := by
  unfold SelectQuery.dedupFetched
  split
  · rename_i h
    exact absurd h hd
  · rfl

theorem dedupFetched_of_unordered (h : q.orderBy = []) (l : List (Env L)) :
    q.dedupFetched m l = q.dedup m l := by
  by_cases hd : q.distinct = some .all
  · simp [SelectQuery.dedupFetched, SelectQuery.dedup, hd, SelectQuery.helpersTied,
      SelectQuery.distinctOrderHelpers, h]
  · exact dedupFetched_of_ne hd l

/-- A fetch keeps as many rows as a count unless helper columns tell alike rows apart. -/
theorem length_dedup_eq_iff {l : List (Env L)} :
    (q.dedup m l).length = (q.dedupFetched m l).length ↔ (q.distinct = some .all →
      ∀ a ∈ l, ∀ b ∈ l, sameOutput m (q.output m a) (q.output m b) = true →
        q.helpersTied m a b = true) := by
  by_cases hd : q.distinct = some .all
  · have hiff := length_firsts_eq_iff (narrow m q) (wide m q) (l := l)
      (fun _ => sameOutput_refl _) (fun _ _ => sameOutput_symm) (fun _ _ _ => sameOutput_trans)
      wide_refl wide_symm wide_trans fun a b h => by
        rw [wide, Bool.and_eq_true] at h
        exact h.1
    simp only [SelectQuery.dedup, SelectQuery.dedupFetched, hd]
    refine hiff.trans ?_
    constructor
    · intro h _ a ha b hb hab
      have hwide := h a ha b hb hab
      rw [wide, Bool.and_eq_true] at hwide
      exact hwide.2
    · intro h a ha b hb hab
      rw [wide, Bool.and_eq_true]
      exact ⟨hab, h trivial a ha b hb hab⟩
  · rw [dedupFetched_of_ne hd]
    exact ⟨fun _ h => absurd h hd, fun _ => rfl⟩

private theorem firsts_length_eq_zero {α : Type} {r : α → α → Bool} {l : List α} :
    (firsts r l).length = 0 ↔ l = [] := by
  cases l <;> simp [firsts]

theorem dedup_length_eq_zero {l : List (Env L)} : (q.dedup m l).length = 0 ↔ l = [] := by
  unfold SelectQuery.dedup
  split
  · exact List.length_eq_zero_iff
  · exact firsts_length_eq_zero
  · exact firsts_length_eq_zero

theorem dedupFetched_length_eq_zero {l : List (Env L)} : (q.dedupFetched m l).length = 0 ↔ l = [] := by
  unfold SelectQuery.dedupFetched
  split
  · exact firsts_length_eq_zero
  · exact dedup_length_eq_zero

end Fetch

end Rustango.Query
