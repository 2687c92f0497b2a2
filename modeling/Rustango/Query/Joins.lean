import Rustango.Query.Meaning

/-!
# Relation joins keep the base rows

A join along a foreign key is a LEFT join against a unique column, so each base row stays once.
Every join that a queryset adds by itself is of this kind.
-/

namespace Rustango.Query

open Rustango.Firsts

variable {L : Lang}

namespace Meaning
variable (m : Meaning L)

theorem tied_refl (v : L.Value) : m.tied v v = true :=
  (m.tied_iff false .default v v).mpr ⟨(m.le_total _ _ v v).elim id id, (m.le_total _ _ v v).elim id id⟩

variable {m}

theorem tied_symm {v w : L.Value} (h : m.tied v w = true) : m.tied w v = true :=
  (m.tied_iff false .default w v).mpr ((m.tied_iff false .default v w).mp h).symm

theorem tied_trans {u v w : L.Value} (h : m.tied u v = true) (h' : m.tied v w = true) :
    m.tied u w = true := by
  have huv := (m.tied_iff false .default u v).mp h
  have hvw := (m.tied_iff false .default v w).mp h'
  exact (m.tied_iff false .default u w).mpr
    ⟨m.le_trans _ _ u v w huv.1 hvw.1, m.le_trans _ _ w v u hvw.2 huv.2⟩

end Meaning

section Output
variable {m : Meaning L}

theorem sameOutput_iff {a b : List (String × L.Value)} :
    sameOutput m a b = true ↔ List.Forall₂ (fun x y => m.tied x.2 y.2 = true) a b := by
  rw [sameOutput, decide_eq_true_eq, List.all_eq_true, List.forall₂_iff_zip]
  simp

theorem sameOutput_refl (a : List (String × L.Value)) : sameOutput m a a = true :=
  sameOutput_iff.mpr (List.forall₂_same.mpr fun x _ => m.tied_refl x.2)

theorem sameOutput_symm {a b : List (String × L.Value)} (h : sameOutput m a b = true) :
    sameOutput m b a = true :=
  sameOutput_iff.mpr ((sameOutput_iff.mp h).flip.imp fun _ _ => Meaning.tied_symm)

end Output

section ToOne
variable (m : Meaning L) (db : Database L)

/-- No two rows share a value of the column other than NULL. -/
def UniqueColumn (rows : List (Row L)) (c : String) : Prop :=
  rows.Pairwise fun r r' => r c ≠ m.null → r' c ≠ m.null → m.tied (r c) (r' c) = false

/-- A LEFT join on a unique column of the target. -/
structure ToOne (table : String) (j : Join L) : Prop where
  kind : j.kind = .left
  on_ : ∃ prev column c, j.on_ = .exprCompare (.aliasedColumn prev column) .eq (.aliasedColumn j.alias_ c) ∧
    (prev = table ∨ prev ≠ j.alias_) ∧ UniqueColumn m (db j.target.table) c

variable {m} {table : String}

private theorem filter_unique {rows : List (Row L)} {c : String} (h : UniqueColumn m rows c)
    (v : L.Value) : (rows.filter fun r => m.compare .eq v (r c) = some true).length ≤ 1 := by
  induction rows with
  | nil => simp
  | cons r rs ih =>
    rw [UniqueColumn, List.pairwise_cons] at h
    by_cases hr : m.compare .eq v (r c) = some true
    · have hnone : (rs.filter fun r => m.compare .eq v (r c) = some true) = [] := by
        rw [List.filter_eq_nil_iff]
        intro r' hr' heq
        rw [decide_eq_true_eq, m.eq_true] at heq
        rw [m.eq_true] at hr
        have htied := Meaning.tied_trans (Meaning.tied_symm hr.2.2) heq.2.2
        rw [h.1 r' hr' hr.2.1 heq.2.1] at htied
        cases htied
      rw [List.filter_cons_of_pos (by simpa using hr), hnone]
      simp
    · rw [List.filter_cons_of_neg (by simpa using hr)]
      exact ih h.2

private theorem row_extend (e : Env L) (row : Row L) {alias_ : String} (ht : alias_ ≠ table)
    (hnew : alias_ ∉ e.joined.map (·.1)) :
    Env.row table { e with joined := e.joined ++ [(alias_, row)] } alias_ = some row := by
  have hfind : e.joined.find? (fun p => p.1 = alias_) = none := by
    rw [List.find?_eq_none]
    intro p hp heq
    exact hnew (by simpa using ⟨p.2, by simpa using of_decide_eq_true heq ▸ hp⟩)
  rw [Env.row, if_neg ht, List.find?_append, hfind]
  simp

private theorem row_extend_of_ne (e : Env L) (row : Row L) {alias_ a : String} (h : a ≠ alias_) :
    Env.row table { e with joined := e.joined ++ [(alias_, row)] } a = Env.row table e a := by
  rw [Env.row, Env.row]
  by_cases ht : a = table
  · rw [if_pos ht, if_pos ht]
  · rw [if_neg ht, if_neg ht, List.find?_append]
    simp [Ne.symm h]

/-- A to-one join gives each row one partner. -/
private theorem joinRows_toOne {j : Join L} (hj : ToOne m db table j) (ht : j.alias_ ≠ table)
    {envs : List (Env L)} (hnew : ∀ e ∈ envs, j.alias_ ∉ e.joined.map (·.1)) :
    ∃ partner : Env L → Row L,
      joinRows m table j.kind j.alias_ j.on_ (fun _ => db j.target.table) envs =
        envs.map fun e => { e with joined := e.joined ++ [(j.alias_, partner e)] } := by
  obtain ⟨prev, column, c, hon, hprev, hunique⟩ := hj.on_
  let extend (e : Env L) (row : Row L) : Env L :=
    { e with joined := e.joined ++ [(j.alias_, row)] }
  let found (e : Env L) : List (Row L) :=
    (db j.target.table).filter fun row => j.on_.accepts m table (extend e row)
  refine ⟨fun e => (found e).headD fun _ => m.null, ?_⟩
  have hlen : ∀ e ∈ envs, (found e).length ≤ 1 := by
    intro e he
    have hvalue : ∀ row, j.on_.accepts m table (extend e row) =
        decide (m.compare .eq (columnOf m (e.row table prev) column) (row c) = some true) := by
      intro row
      have hself : Env.row table (extend e row) j.alias_ = some row := row_extend e row ht (hnew e he)
      have hother : Env.row table (extend e row) prev = Env.row table e prev := by
        rcases hprev with rfl | hne
        · exact row_extend_of_ne e row (Ne.symm ht)
        · exact row_extend_of_ne e row hne
      rw [hon, WhereExpr.accepts, WhereExpr.holds, Expr.value, Expr.value, hself, hother]
      rfl
    have hfound : found e = (db j.target.table).filter fun row =>
        m.compare .eq (columnOf m (e.row table prev) column) (row c) = some true := by
      simp only [found, hvalue]
    rw [hfound]
    exact filter_unique hunique _
  rw [hj.kind]
  change (envs.flatMap fun e => if (found e).isEmpty then [extend e fun _ => m.null]
    else (found e).map (extend e)) = _
  rw [List.map_eq_flatMap]
  apply List.flatMap_congr
  intro e he
  cases hf : found e with
  | nil => simp [extend, hf]
  | cons row rows =>
    have hrows : rows = [] := by
      have h := hlen e he
      rw [hf, List.length_cons] at h
      exact List.length_eq_zero_iff.mp (by omega)
    subst hrows
    simp [extend, hf]

/-- The `FROM` clause of such joins is the base table, each row with its partners. -/
theorem sources_toOne {q : SelectQuery L} (hnodup : (q.model.table :: q.aliases).Nodup)
    (hj : ∀ j ∈ q.joins, ToOne m db q.model.table j) (hsub : q.subqueryJoins = []) :
    ∃ ext : Row L → Env L, q.sources m db = (db q.model.table).map ext ∧ ∀ r, (ext r).main = some r := by
  have hstep : ∀ (joins : List (Join L)) (ext : Row L → Env L) (done : List String),
      (∀ r, (ext r).main = some r ∧ (ext r).joined.map (·.1) = done) →
      (∀ j ∈ joins, ToOne m db q.model.table j) →
      (q.model.table :: (done ++ joins.map (·.alias_))).Nodup →
      ∃ ext' : Row L → Env L, joins.foldl (fun envs j => joinRows m q.model.table j.kind j.alias_
        j.on_ (fun _ => db j.target.table) envs) ((db q.model.table).map ext) =
          (db q.model.table).map ext' ∧ ∀ r, (ext' r).main = some r := by
    intro joins
    induction joins with
    | nil => exact fun ext done hext _ _ => ⟨ext, rfl, fun r => (hext r).1⟩
    | cons j js ih =>
      intro ext done hext htoOne hn
      rw [List.nodup_cons, List.map_cons, List.mem_append, List.mem_cons, List.nodup_append] at hn
      have ht : j.alias_ ≠ q.model.table := fun h => hn.1 (Or.inr (Or.inl h.symm))
      have hdone : j.alias_ ∉ done := fun h => hn.2.2.2 _ h _ List.mem_cons_self rfl
      have hnew : ∀ e ∈ (db q.model.table).map ext, j.alias_ ∉ e.joined.map (·.1) := by
        intro e he
        obtain ⟨r, -, rfl⟩ := List.mem_map.mp he
        rw [(hext r).2]
        exact hdone
      obtain ⟨partner, hpartner⟩ :=
        joinRows_toOne db (htoOne j List.mem_cons_self) ht hnew
      rw [List.foldl_cons, hpartner, List.map_map]
      refine ih _ (done ++ [j.alias_]) (fun r => ⟨(hext r).1, ?_⟩)
        (fun j' hj' => htoOne j' (List.mem_cons_of_mem j hj')) ?_
      · simp [(hext r).2]
      · rw [List.append_assoc, List.singleton_append, List.nodup_cons, List.mem_append,
          List.mem_cons, List.nodup_append]
        exact hn
  have h := hstep q.joins Env.base [] (fun r => ⟨rfl, rfl⟩) hj (by
    simpa [SelectQuery.aliases, hsub] using hnodup)
  rw [SelectQuery.sources, hsub]
  exact h

end ToOne

end Rustango.Query
