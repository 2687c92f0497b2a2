import Mathlib.Data.List.Basic

/-!
# The query IR

What a queryset compiles to before any dialect writes SQL. A `Lang` supplies what the query layer
only carries along: values, predicates over their own expressions or subqueries, other scalar
expressions, and derived tables.
-/

namespace Rustango.Query

structure Lang where
  Value : Type
  /-- A `WHERE` leaf that is no column predicate: `ColumnCompare`, `EXISTS`, `IN (SELECT …)`, … -/
  Leaf : Type
  Scalar : Type
  Derived : Type

inductive Op where
  | eq | ne | lt | lte | gt | gte | in_ | notIn | like | notLike | iLike | notILike
  | likeEscaped | iLikeEscaped | between | notBetween | isNull | isDistinctFrom
  | isNotDistinctFrom | jsonContains | jsonContainedBy | jsonHasKey | jsonHasAnyKey
  | jsonHasAllKeys | regex | notRegex | iRegex | notIRegex | trigramSimilar
  | trigramWordSimilar | search | arrayContains | arrayContainedBy | arrayOverlap
  | rangeContains | rangeContainedBy | rangeOverlap | rangeStrictlyLeft | rangeStrictlyRight
  | rangeAdjacent
deriving DecidableEq, Repr

inductive NullsOrder where
  | default | first | last
deriving DecidableEq, Repr

inductive JoinKind where
  | inner | left | right | full
deriving DecidableEq, Repr

inductive SetOp where
  | union | unionAll | intersection | difference
deriving DecidableEq, Repr

inductive DistinctMode where
  | all
  | on_ (cols : List String)
deriving DecidableEq, Repr

structure LockMode where
  noKey : Bool
  skipLocked : Bool
  nowait : Bool
  of_ : List String
  silentOnSqlite : Bool
deriving DecidableEq, Repr

section Where
variable (L : Lang)

inductive Expr where
  | literal (value : L.Value)
  | column (column : String)
  | aliasedColumn (alias_ column : String)
  | scalar (x : L.Scalar)

structure Filter where
  column : String
  op : Op
  value : L.Value

/-- A predicate. `Q` is the type of the subqueries it may hold; the ones inside a user's filter are
leaves. -/
inductive WhereExpr (Q : Type) where
  | predicate (filter : Filter L)
  | exprCompare (lhs : Expr L) (op : Op) (rhs : Expr L)
  | leaf (p : L.Leaf)
  | and (items : List (WhereExpr Q))
  | or (items : List (WhereExpr Q))
  | not (child : WhereExpr Q)
  | xor (items : List (WhereExpr Q))
  | inSubquery (column : String) (negated : Bool) (subquery : Q)

end Where

section Select
variable (L : Lang)

/-- A foreign key or a one-to-one link, to `to_.on_`. -/
inductive Relation where
  | fk (to_ on_ : String)
  | o2o (to_ on_ : String)
deriving DecidableEq, Repr

/-- The table and column a relation points at. -/
def Relation.target : Relation → String × String
  | .fk to_ on_ => (to_, on_)
  | .o2o to_ on_ => (to_, on_)

structure FieldSchema where
  name : String
  column : String
  primaryKey : Bool
  relation : Option Relation
deriving DecidableEq, Repr

structure GlobalScope where
  name : String
  apply : WhereExpr L Empty

structure ModelSchema where
  name : String
  table : String
  fields : List FieldSchema
  globalScopes : List (GlobalScope L)

structure Join where
  target : ModelSchema L
  alias_ : String
  kind : JoinKind
  on_ : WhereExpr L Empty
  project : List String

structure SubqueryJoin where
  subquery : L.Derived
  alias_ : String
  kind : JoinKind
  on_ : WhereExpr L Empty

inductive OrderItem where
  | column (column : String) (desc : Bool) (nulls : NullsOrder)
  | expr (expr : Expr L) (desc : Bool) (nulls : NullsOrder)
  | random

mutual

/-- One branch of a set operation. -/
structure CompoundBranch where
  op : SetOp
  query : SelectQuery

structure SelectQuery where
  model : ModelSchema L
  whereClause : WhereExpr L Empty
  joins : List (Join L)
  subqueryJoins : List (SubqueryJoin L)
  orderBy : List (OrderItem L)
  limit : Option Int
  offset : Option Int
  lockMode : Option LockMode
  compound : List CompoundBranch
  projection : Option (List String)
  distinct : Option DistinctMode
  compoundOrderBy : List (OrderItem L)
  compoundLimit : Option Int
  compoundOffset : Option Int

end

structure DeleteQuery where
  model : ModelSchema L
  whereClause : WhereExpr L (SelectQuery L)

structure Assignment where
  column : String
  value : Expr L

structure UpdateQuery where
  model : ModelSchema L
  set : List (Assignment L)
  whereClause : WhereExpr L (SelectQuery L)

end Select

inductive BoundedDmlReason where
  | noSinglePrimaryKey | relationOrderBy | negative
deriving DecidableEq, Repr

inductive QueryError where
  | unknownField (model field : String)
  | unknownLookup (field suffix : String)
  | relationSpanUnsupportedHere (key : String)
  | selectRelatedInvalid (model field reason : String)
  | relationPathTooDeep (path : String) (max : Nat)
  | duplicateJoinAlias (alias_ : String)
  | distinctOnEmpty
  | distinctOnOrderByMismatch (distinctOn orderBy : List String)
  | boundedDmlUnsupported (model : String) (reason : BoundedDmlReason)
  | setOperationDml (model : String)
  | joinDml (model : String)
  /-- What a value or column check says. -/
  | rejected (message : String)
deriving DecidableEq, Repr

variable {L : Lang}

namespace ModelSchema

def field (m : ModelSchema L) (name : String) : Option FieldSchema :=
  m.fields.find? fun f => f.name = name

def fieldByColumn (m : ModelSchema L) (column : String) : Option FieldSchema :=
  m.fields.find? fun f => f.column = column

/-- The first primary-key field. -/
def primaryKey (m : ModelSchema L) : Option FieldSchema := m.fields.find? (·.primaryKey)

/-- Every global scope's filter, minus the scopes named in `skip`. -/
def globalScopeExprs (m : ModelSchema L) (skip : List String) : List (WhereExpr L Empty) :=
  (m.globalScopes.filter fun s => s.name ∉ skip).map (·.apply)

end ModelSchema

mutual

/-- A filter read where subqueries are allowed. -/
def WhereExpr.lift {Q : Type} : WhereExpr L Empty → WhereExpr L Q
  | .predicate f => .predicate f
  | .exprCompare lhs op rhs => .exprCompare lhs op rhs
  | .leaf p => .leaf p
  | .and items => .and (WhereExpr.liftAll items)
  | .or items => .or (WhereExpr.liftAll items)
  | .not child => .not child.lift
  | .xor items => .xor (WhereExpr.liftAll items)
  | .inSubquery _ _ q => nomatch q

def WhereExpr.liftAll {Q : Type} : List (WhereExpr L Empty) → List (WhereExpr L Q)
  | [] => []
  | w :: ws => w.lift :: WhereExpr.liftAll ws

end

/-- No `WHERE` is written. -/
def WhereExpr.isEmpty {Q : Type} : WhereExpr L Q → Bool
  | .and [] => true
  | _ => false

/-- `SelectQuery::new`: every row of the model. -/
def SelectQuery.new (model : ModelSchema L) : SelectQuery L where
  model := model
  whereClause := .and []
  joins := []
  subqueryJoins := []
  orderBy := []
  limit := none
  offset := none
  lockMode := none
  compound := []
  projection := none
  distinct := none
  compoundOrderBy := []
  compoundLimit := none
  compoundOffset := none

end Rustango.Query
