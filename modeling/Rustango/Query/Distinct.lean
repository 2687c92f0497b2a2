import Rustango.Lib.Leaders
import Rustango.Query.Order

/-!
# `DISTINCT ON` as it is written

Postgres has the clause. MySQL and SQLite number the rows of each group in a derived table and keep
the first. What either text selects is compared with what the clause is for: the first row of each
group in the order of the query, then the order and the slice of those rows.
-/

namespace Rustango.Query

open Rustango.Firsts

variable {L : Lang}

inductive Dialect where
  | postgres | mysql | sqlite
deriving DecidableEq, Repr

/-- Where a `SELECT` stands. -/
inductive Position where
  | top | subquery | branch | source
deriving DecidableEq, Repr

/-- Where a `SELECT` may add the helper columns of `DISTINCT`: alone at top level, and in
`write_from_source`, where the outer query reads named columns. -/
def Position.orderHelpers : Position → Bool
  | .top => true
  | .subquery => false
  | .branch => false
  | .source => true

/-- A projected `alias.col`, split at its first dot. -/
def joinedColumn (col : String) : Option (String × String) :=
  match col.splitOn "." with
  | alias_ :: c :: rest => some (alias_, ".".intercalate (c :: rest))
  | _ => none

/-- A projected name stands for a joined column or for one of the model's. -/
def projectedExpr (col : String) : Expr L :=
  match joinedColumn col with
  | some joined => .aliasedColumn joined.1 joined.2
  | none => .column col

/-- An `ORDER BY` expression that is not a plain column. -/
def helperExpr : OrderItem L → Option (Expr L)
  | .expr (.column _) _ _ => none
  | .expr (.aliasedColumn _ _) _ _ => none
  | .column _ _ _ => none
  | .random => none
  | .expr x _ _ => some x

namespace SelectQuery
variable (q : SelectQuery L)

def selectList : List (Expr L) :=
  (match q.projection with
    | some cols => cols.map projectedExpr
    | none => q.model.fields.map fun f => .column f.column) ++
    q.joins.flatMap fun j => j.project.map fun c => .aliasedColumn j.alias_ c

/-- The column is among the projected ones; without a projection every column of the model is. -/
def projects (column : String) : Bool :=
  match q.projection with
  | some cols => cols.contains column
  | none => true

/-- The `ORDER BY` term, when the select list lacks it. -/
def distinctOrderHelper : OrderItem L → Option (Expr L)
  | .expr (.aliasedColumn alias_ column) _ _ =>
    if q.joins.any fun j => j.alias_ = alias_ && j.project.contains column then none
    else some (.aliasedColumn alias_ column)
  | .column column _ _ => if q.projects column then none else some (.column column)
  | .expr (.column column) _ _ => if q.projects column then none else some (.column column)
  | item => helperExpr item

/-- The `ORDER BY` terms the select list lacks. -/
def distinctOrderHelpers : List (Expr L) := q.orderBy.filterMap q.distinctOrderHelper

def needsHelpers : Bool := q.distinct.isSome && !q.distinctOrderHelpers.isEmpty

/-- A nested `DISTINCT` cannot carry the helpers; with no slice its order is dropped. -/
def dropsOrder (orderHelpers : Bool) : Bool :=
  q.needsHelpers && !orderHelpers && q.limit.isNone && q.offset.isNone

def writtenOrder (orderHelpers : Bool) : List (OrderItem L) :=
  if q.dropsOrder orderHelpers then [] else q.orderBy

/-- The query as it is written. -/
def written (orderHelpers : Bool) : SelectQuery L := { q with orderBy := q.writtenOrder orderHelpers }

end SelectQuery

section Texts
variable (m : Meaning L) (db : Database L) (derivedColumns : L.Derived → List String)

namespace SelectQuery
variable (q : SelectQuery L) (cols : List String)

/-- The values of the select list. The helper columns come after them, and a reader of the rows drops
those. -/
def selected (e : Env L) : List L.Value := q.selectList.map fun x => x.value m q.model.table e

/-- The database finds every name of the text. -/
structure Readable : Prop where
  cols : cols ≠ []
  inScope : q.InScope m
  selectList : ∀ x ∈ q.selectList, x.reads m q.model.table ⊆ q.aliases

/-- A bare name is the output column of that name, else the column of the one table that has it. -/
def BareName (column : String) : Prop :=
  q.projects column = true ∨
    (∀ j ∈ q.joins, column ∉ j.target.fields.map (·.column)) ∧
      ∀ j ∈ q.subqueryJoins, column ∉ derivedColumns j.subquery

/-- `write_select_body_qualified`: `SELECT DISTINCT ON (cols) … ORDER BY …`, its columns bare. -/
def NativeRows (pos : Position) (rows : List (List L.Value)) : Prop :=
  (q.written pos.orderHelpers).Readable m cols ∧ (∀ c ∈ cols, q.BareName derivedColumns c) ∧
    ∃ draw l, (q.matching m db).Perm l ∧
      l.Pairwise (ordered m q.model.table draw (q.writtenOrder pos.orderHelpers)) ∧
        rows = (slice q.limit q.offset (firsts (agree m cols) l)).map (q.selected m)

/-- `write_distinct_on_via_window`: the rows numbered one in their partition, by the sort keys that
the derived table exposes. A random key is drawn anew outside. -/
def WindowRows (rows : List (List L.Value)) : Prop :=
  q.Readable m cols ∧ ∃ draw l, (q.matching m db).Perm l ∧
    (l.Pairwise fun a b => agree m cols a b = true → ordered m q.model.table draw q.orderBy a b) ∧
      ∃ draw' l', (((rowNumbers (agree m cols) [] l).filter fun p => p.2 = 1).map (·.1)).Perm l' ∧
        l'.Pairwise (ordered m q.model.table draw' q.orderBy) ∧
          rows = (slice q.limit q.offset l').map (q.selected m)

/-- The database can read the text. -/
def Reads (d : Dialect) (pos : Position) : Prop :=
  match d with
  | .postgres => (q.written pos.orderHelpers).Readable m cols ∧ ∀ c ∈ cols, q.BareName derivedColumns c
  | .mysql => q.Readable m cols
  | .sqlite => q.Readable m cols

/-- What `DISTINCT ON` is written as, in each dialect and position. -/
def WrittenRows (d : Dialect) (pos : Position) : List (List L.Value) → Prop :=
  match d with
  | .postgres => q.NativeRows m db derivedColumns cols pos
  | .mysql => q.WindowRows m db cols
  | .sqlite => q.WindowRows m db cols

/-- For each combination of the columns the first row in the order; then the order and the slice. -/
def FirstRows (rows : List (List L.Value)) : Prop :=
  ∃ draw kept, Leaders (agree m cols) (ordered m q.model.table draw q.orderBy) (q.matching m db) kept ∧
    kept.Pairwise (ordered m q.model.table draw q.orderBy) ∧
      rows = (slice q.limit q.offset kept).map (q.selected m)

/-- The order leaves no tie between two rows, and no random key decides it. -/
def TotallyOrdered : Prop :=
  ∀ draw draw' : Env L → Nat, ∀ a ∈ q.matching m db, ∀ b ∈ q.matching m db,
    ordered m q.model.table draw q.orderBy a b → ordered m q.model.table draw' q.orderBy b a → a = b

/-- The order starts with the columns. -/
def StartsWith (cols : List String) : Prop :=
  ∃ lead rest, q.orderBy = lead ++ rest ∧ List.Forall₂ (fun c i => isColumn i c = true) cols lead

/-- A `distinct_on(cols)` whose order starts with the columns and leaves no tie. -/
structure DistinctOn (cols : List String) : Prop where
  distinct : q.distinct = some (.on_ cols)
  starts : q.StartsWith cols
  total : q.TotallyOrdered m db

end SelectQuery

/-- The same answers, in no particular order. -/
def SameRows {α : Type} (answers answers' : List α → Prop) : Prop :=
  (∀ rows, answers rows → ∃ rows', answers' rows' ∧ rows.Perm rows') ∧
    ∀ rows', answers' rows' → ∃ rows, answers rows ∧ rows.Perm rows'

/-- The same answers; what reads a nested `SELECT` takes its rows in no particular order. -/
def Position.Agrees {α : Type} (pos : Position) (answers answers' : List α → Prop) : Prop :=
  match pos with
  | .top => ∀ rows, answers rows ↔ answers' rows
  | .subquery => SameRows answers answers'
  | .branch => SameRows answers answers'
  | .source => SameRows answers answers'

end Texts

end Rustango.Query
