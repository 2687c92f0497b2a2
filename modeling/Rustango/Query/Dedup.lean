import Rustango.Lib.Leaders
import Rustango.Query.Joins

/-!
# What `DISTINCT` keeps

The rows that a query takes for one, and how many it keeps of them: as many as there are classes,
whatever the arrangement.
-/

namespace Rustango.Query

open Rustango.Firsts

variable {L : Lang} {m : Meaning L}

theorem sameOutput_trans {a b c : List (String × L.Value)} (hab : sameOutput m a b = true)
    (hbc : sameOutput m b c = true) : sameOutput m a c = true := by
  rw [sameOutput_iff] at hab hbc ⊢
  induction hab generalizing c with
  | nil => exact hbc
  | cons hxy _ ih =>
    cases hbc with
    | cons hyz hrest => exact List.Forall₂.cons (Meaning.tied_trans hxy hyz) (ih hrest)

section Agree
variable (cols : List String)

theorem agree_refl (a : Env L) : agree m cols a a = true := by
  rw [agree, List.all_eq_true]
  exact fun c _ => m.tied_refl _

theorem agree_symm (a b : Env L) (h : agree m cols a b = true) : agree m cols b a = true := by
  rw [agree, List.all_eq_true] at h ⊢
  exact fun c hc => Meaning.tied_symm (h c hc)

theorem agree_trans (a b c : Env L) (hab : agree m cols a b = true) (hbc : agree m cols b c = true) :
    agree m cols a c = true := by
  rw [agree, List.all_eq_true] at hab hbc ⊢
  exact fun x hx => Meaning.tied_trans (hab x hx) (hbc x hx)

end Agree

section Same
variable {q : SelectQuery L}

/-- What the `DISTINCT` of a query takes for one row. -/
def SelectQuery.same (m : Meaning L) (q : SelectQuery L) (a b : Env L) : Bool :=
  match q.distinct with
  | none => false
  | some .all => sameOutput m (q.output m a) (q.output m b)
  | some (.on_ cols) => agree m cols a b

theorem same_refl (hdistinct : q.distinct ≠ none) (a : Env L) : q.same m a a = true := by
  unfold SelectQuery.same
  cases hd : q.distinct with
  | none => exact absurd hd hdistinct
  | some mode =>
    cases mode with
    | all => exact sameOutput_refl _
    | on_ cols => exact List.all_eq_true.mpr fun c _ => m.tied_refl _

theorem same_symm {a b : Env L} (h : q.same m a b = true) : q.same m b a = true := by
  unfold SelectQuery.same at h ⊢
  cases hd : q.distinct with
  | none =>
    rw [hd] at h
    cases h
  | some mode =>
    rw [hd] at h
    cases mode with
    | all => exact sameOutput_symm h
    | on_ cols =>
      simp only [agree, List.all_eq_true] at h ⊢
      exact fun c hc => Meaning.tied_symm (h c hc)

private theorem same_trans {a b c : Env L} (hab : q.same m a b = true) (hbc : q.same m b c = true) :
    q.same m a c = true := by
  unfold SelectQuery.same at hab hbc ⊢
  cases hd : q.distinct with
  | none =>
    rw [hd] at hab
    cases hab
  | some mode =>
    rw [hd] at hab hbc
    cases mode with
    | all => exact sameOutput_trans hab hbc
    | on_ cols => exact agree_trans cols a b c hab hbc

theorem dedup_eq_firsts (envs : List (Env L)) : q.dedup m envs = firsts (q.same m) envs := by
  unfold SelectQuery.dedup SelectQuery.same
  cases q.distinct with
  | none => exact (firsts_eq_self _ (List.pairwise_of_forall fun _ _ => rfl)).symm
  | some mode => cases mode <;> rfl

theorem length_dedup_perm {l l' : List (Env L)} (h : l.Perm l') :
    (q.dedup m l).length = (q.dedup m l').length := by
  by_cases hdistinct : q.distinct = none
  · simp only [SelectQuery.dedup, hdistinct, h.length_eq]
  · rw [dedup_eq_firsts, dedup_eq_firsts]
    exact length_firsts_perm (same_refl hdistinct) (fun _ _ => same_symm) (fun _ _ _ => same_trans) h

end Same

end Rustango.Query
