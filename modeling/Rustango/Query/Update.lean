import Rustango.Lib.Assignments
import Rustango.Query.Distinct

/-!
# `UPDATE … SET`

A `SET` list says what each column becomes, from the old row. `write_update` writes the assignments in
the order of the query: Postgres and SQLite read the old row in each, MySQL reads what the ones before
it wrote.
-/

namespace Rustango.Query

open Rustango.Assignments

variable {L : Lang}

inductive UpdateError where
  | emptyUpdateSet
  /-- What the writer of a value or of the `WHERE` clause says. -/
  | refused (message : String)
deriving DecidableEq, Repr

/-- `UPDATE <table> SET <column> = <value>, … WHERE <clause>`. -/
structure UpdateStatement (L : Lang) where
  model : ModelSchema L
  set : List (Assignment L)
  whereClause : WhereExpr L (SelectQuery L)

/-- The writer of a right-hand side and that of the clause may refuse; neither changes what it says. -/
def writeUpdate (writeExpr : Dialect → Expr L → Except UpdateError Unit)
    (writeWhere : Dialect → WhereExpr L (SelectQuery L) → Except UpdateError Unit) (d : Dialect)
    (q : UpdateQuery L) : Except UpdateError (UpdateStatement L) :=
  if q.set.isEmpty then .error .emptyUpdateSet
  else do
    q.set.forM fun a => writeExpr d a.value
    writeWhere d q.whereClause
    .ok ⟨q.model, q.set, q.whereClause⟩

section Meaning
variable (m : Meaning L)

def Assignment.run (table : String) (a : Assignment L) : Assigned String L.Value :=
  (a.column, fun row => a.value.value m table (Env.base row))

/-- What the database makes of a row that the statement matches. MySQL evaluates `SET` from left to
right. -/
def UpdateStatement.assign (d : Dialect) (s : UpdateStatement L) (row : Row L) : Row L :=
  match d with
  | .mysql => inTurn (s.set.map (Assignment.run m s.model.table)) row
  | .postgres => atOnce (s.set.map (Assignment.run m s.model.table)) row
  | .sqlite => atOnce (s.set.map (Assignment.run m s.model.table)) row

/-- The statement may turn the rows it matches into `after`. -/
def UpdateStatement.Updates (db : Database L) (d : Dialect) (s : UpdateStatement L)
    (matched after : List (Row L)) : Prop :=
  Matches m db s.model s.whereClause matched ∧ after = matched.map (s.assign m d)

/-- Each assigned column holds its right-hand side over the old row. -/
def newRow (table : String) (set : List (Assignment L)) (row : Row L) : Row L := fun c =>
  match set.find? fun a => a.column = c with
  | some a => a.value.value m table (Env.base row)
  | none => row c

/-- No right-hand side changes its value when the columns set before it take their new ones. -/
def Undisturbed (table : String) (set : List (Assignment L)) (row : Row L) : Prop :=
  ∀ before a after, set = before ++ a :: after →
    a.value.value m table (Env.base (newRow m table before row)) =
      a.value.value m table (Env.base row)

end Meaning

section Update
variable {m : Meaning L} {table : String} {set : List (Assignment L)} {row : Row L}

private theorem map_run_fst : (set.map (Assignment.run m table)).map Prod.fst = set.map (·.column) := by
  rw [List.map_map]
  rfl

private theorem newRow_eq_atOnce (h : (set.map (·.column)).Nodup) :
    newRow m table set row = atOnce (set.map (Assignment.run m table)) row := by
  induction set using List.reverseRecOn with
  | nil => rfl
  | append_singleton as a ih =>
    rw [List.map_append, List.nodup_append] at h
    have hfresh : ∀ b ∈ as, b.column ≠ a.column := fun b hb heq =>
      h.2.2 _ (List.mem_map_of_mem hb) _ (by simp) heq
    have hbefore := ih h.1
    rw [List.map_append, List.map_singleton, atOnce_snoc, ← hbefore]
    funext c
    by_cases hc : c = a.column
    · have hnone : as.find? (fun b => b.column = c) = none := by
        rw [List.find?_eq_none]
        intro b hb
        simpa [hc] using hfresh b hb
      rw [hc] at hnone
      simp [newRow, List.find?_append, hnone, hc, Assignment.run]
    · have hne : a.column ≠ c := Ne.symm hc
      have hkept : c ≠ (Assignment.run m table a).1 := hc
      rw [Function.update_of_ne hkept]
      simp [newRow, List.find?_append, hne]

private theorem undisturbed_iff (h : (set.map (·.column)).Nodup) :
    Undisturbed m table set row ↔ Unnoticed (set.map (Assignment.run m table)) row := by
  constructor
  · intro hset before run after hsplit
    obtain ⟨before', rest, hset', hbefore, hrest⟩ := List.map_eq_append_iff.mp hsplit
    obtain ⟨a, after', hrest', hrun, -⟩ := List.map_eq_cons_iff.mp hrest
    have hnodup : (before'.map (·.column)).Nodup := by
      rw [hset', List.map_append, List.nodup_append] at h
      exact h.1
    have hvalue := hset before' a after' (by rw [hset', hrest'])
    rw [newRow_eq_atOnce hnodup, hbefore] at hvalue
    rw [← hrun]
    exact hvalue
  · intro hrun before a after hsplit
    have hnodup : (before.map (·.column)).Nodup := by
      rw [hsplit, List.map_append, List.nodup_append] at h
      exact h.1
    have hvalue := hrun (before.map (Assignment.run m table)) (Assignment.run m table a)
      (after.map (Assignment.run m table)) (by rw [hsplit, List.map_append, List.map_cons])
    rw [newRow_eq_atOnce hnodup]
    exact hvalue

private theorem writeUpdate_eq_ok {writeExpr : Dialect → Expr L → Except UpdateError Unit}
    {writeWhere : Dialect → WhereExpr L (SelectQuery L) → Except UpdateError Unit} {d : Dialect}
    {q : UpdateQuery L} {s : UpdateStatement L} (h : writeUpdate writeExpr writeWhere d q = .ok s) :
    s = ⟨q.model, q.set, q.whereClause⟩ := by
  unfold writeUpdate at h
  split at h
  · cases h
  · simp only [Outcome.bind_eq_ok] at h
    obtain ⟨_, -, _, -, heq⟩ := h
    cases heq
    rfl

private theorem nodup_lastWrites (as : List (Assignment L)) : ((lastWrites as).map (·.column)).Nodup := by
  have hsub : ∀ as : List (Assignment L), ∀ a ∈ lastWrites as, a ∈ as := by
    intro as
    induction as with
    | nil => simp [lastWrites]
    | cons a as ih =>
      intro b hb
      rw [lastWrites] at hb
      split at hb
      · exact List.mem_cons_of_mem a (ih b hb)
      · rcases List.mem_cons.mp hb with rfl | hb
        · exact List.mem_cons_self
        · exact List.mem_cons_of_mem a (ih b hb)
  induction as with
  | nil => simp [lastWrites]
  | cons a as ih =>
    rw [lastWrites]
    split
    · exact ih
    · rename_i hlast
      rw [List.map_cons, List.nodup_cons]
      refine ⟨fun hmem => hlast ?_, ih⟩
      obtain ⟨b, hb, heq⟩ := List.mem_map.mp hmem
      exact List.any_eq_true.mpr ⟨b, hsub as b hb, by simpa using heq⟩

private theorem compile_nodup {core : Core L} {ofBool : Bool → L.Value} {u : UpdateBuilder L}
    {q : UpdateQuery L}
    (h : u.compile core ofBool = .ok q) : (q.set.map (·.column)).Nodup := by
  simp only [UpdateBuilder.compile, Outcome.bind_eq_ok] at h
  obtain ⟨_, -, assignments, -, _, -, heq⟩ := h
  cases heq
  exact nodup_lastWrites assignments

/-- The written statement leaves each matched row as its right-hand sides over the old row say, if and
only if MySQL is not to read a column that an earlier assignment changed. -/
theorem update_at_once_iff {db : Database L} {writeExpr : Dialect → Expr L → Except UpdateError Unit}
    {writeWhere : Dialect → WhereExpr L (SelectQuery L) → Except UpdateError Unit} {d : Dialect}
    {q : UpdateQuery L} {s : UpdateStatement L} {matched after : List (Row L)}
    (hset : (q.set.map (·.column)).Nodup) (hwrite : writeUpdate writeExpr writeWhere d q = .ok s)
    (hrun : s.Updates m db d matched after) :
    after = matched.map (newRow m q.model.table q.set) ↔
      (d = .mysql → ∀ row ∈ matched, Undisturbed m q.model.table q.set row) := by
  rw [hrun.2, writeUpdate_eq_ok hwrite, List.map_inj_left]
  cases d with
  | mysql =>
    have hrow : ∀ row, UpdateStatement.assign m .mysql ⟨q.model, q.set, q.whereClause⟩ row =
        newRow m q.model.table q.set row ↔ Undisturbed m q.model.table q.set row := by
      intro row
      rw [newRow_eq_atOnce hset, undisturbed_iff hset]
      exact inTurn_eq_atOnce_iff (by rw [map_run_fst]; exact hset)
    simp only [hrow, true_implies]
  | postgres =>
    simp only [newRow_eq_atOnce hset, reduceCtorEq, false_implies, iff_true]
    exact fun _ _ => rfl
  | sqlite =>
    simp only [newRow_eq_atOnce hset, reduceCtorEq, false_implies, iff_true]
    exact fun _ _ => rfl

end Update

/-- A table of pairs with the one row (1, 2). -/
private def pairs : ModelSchema IntLang := ⟨"Pair", "pairs", [], []⟩

private def onePair : Row IntLang := fun c => if c = "a" then some 1 else if c = "b" then some 2 else none

private def pairRows : Database IntLang := fun table => if table = "pairs" then [onePair] else []

/-- `SET a = b, b = a`. -/
private def swapPair : UpdateQuery IntLang := ⟨pairs, [⟨"a", .column "b"⟩, ⟨"b", .column "a"⟩], .and []⟩

/-- `SET b = a, a = 5`. -/
private def shiftPair : UpdateQuery IntLang := ⟨pairs, [⟨"b", .column "a"⟩, ⟨"a", .literal (some 5)⟩], .and []⟩

private theorem pairs_matched : Matches intMeaning pairRows pairs (.and []) [onePair] :=
  ⟨rfl, fun _ => [], by simp [WhereExpr.subqueries, WhereExpr.subqueriesAll], rfl⟩

/-- A column is read before it is set. -/
theorem update_at_once_shift :
    [onePair].map (UpdateStatement.assign intMeaning .mysql ⟨pairs, shiftPair.set, .and []⟩) =
      [onePair].map (newRow intMeaning "pairs" shiftPair.set) := by
  have hwrite : writeUpdate (fun _ _ => .ok ()) (fun _ _ => .ok ()) .mysql shiftPair =
      .ok ⟨pairs, shiftPair.set, .and []⟩ := rfl
  apply (update_at_once_iff (by decide) hwrite ⟨pairs_matched, rfl⟩).mpr
  intro _ row _ before a after hsplit
  cases before with
  | nil => rfl
  | cons b before =>
    have hlast := (List.cons.inj hsplit).2
    cases before with
    | nil =>
      rw [← (List.cons.inj hlast).1]
      rfl
    | cons c before => simp at hlast

/-- MySQL gives both columns of a swap the value of `b`. -/
theorem update_at_once_swap : ∃ s after,
    writeUpdate (fun _ _ => .ok ()) (fun _ _ => .ok ()) .mysql swapPair = .ok s ∧
      s.Updates intMeaning pairRows .mysql [onePair] after ∧
      after.map (fun row => (row "a", row "b")) = [(some 2, some 2)] ∧
      after ≠ [onePair].map (newRow intMeaning "pairs" swapPair.set) := by
  refine ⟨⟨pairs, swapPair.set, .and []⟩, _, rfl, ⟨pairs_matched, rfl⟩, rfl, fun heq => ?_⟩
  have hrow := congrFun (List.cons.inj heq).1 "b"
  have hvalue : (some 2 : Option Int) = some 1 := hrow
  cases hvalue

end Rustango.Query
