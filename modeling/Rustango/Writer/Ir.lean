import Rustango.Query.Distinct
import Rustango.Query.Where

/-!
# The expression trees of a query

A `SelectQuery` with the queries nested in it: the branches of a set operation, the subqueries of
its expressions, the derived tables it joins, the sources of its aggregates.
-/

namespace Rustango.Writer

open Rustango.Query (DistinctMode JoinKind LockMode NullsOrder SearchClause SetOp)

/-- What a writer reads of a model. -/
structure ModelSchema where
  table : String
  fields : List String
  /-- The columns of `scalar_fields`. -/
  scalarFields : List String
deriving DecidableEq, Repr

structure Lang where
  /-- A variant of `Expr`, `WhereExpr` or `AggregateExpr` with what it holds that is no expression and
  no query. -/
  Head : Type
  Value : Type
  /-- A `&'static ModelSchema`: the address of a schema. -/
  Model : Type
  schema : Model → ModelSchema

variable (L : Lang)

mutual

/-- An `Expr`, a `WhereExpr` or an `AggregateExpr`. -/
inductive Tree : Type where
  | column (column : String)
  | aliasedColumn (alias_ column : String)
  | subquery (query : SelectQuery)
  | aggregateSubquery (query : AggregateQuery)
  /-- `Exists` and `NotExists` -/
  | exists_ (negated : Bool) (query : SelectQuery)
  | inSubquery (column : String) (negated : Bool) (subquery : SelectQuery)
  | and (items : List Tree)
  | or (items : List Tree)
  | not (child : Tree)
  | xor (items : List Tree)
  /-- Any other variant, with its expressions in order. -/
  | node (head : L.Head) (operands : List Tree)

inductive OrderItem : Type where
  | column (column : String) (desc : Bool) (nulls : NullsOrder)
  | expr (expr : Tree) (desc : Bool) (nulls : NullsOrder)
  | random

structure Join : Type where
  target : L.Model
  alias_ : String
  kind : JoinKind
  on_ : Tree
  project : List String

inductive DerivedSource : Type where
  | select (query : SelectQuery)
  | aggregate (query : AggregateQuery)

structure SubqueryJoin : Type where
  subquery : DerivedSource
  alias_ : String
  kind : JoinKind
  on_ : Tree
  lateral : Bool

structure CompoundBranch : Type where
  op : SetOp
  query : SelectQuery

structure SelectQuery : Type where
  model : L.Model
  whereClause : Tree
  search : Option SearchClause
  joins : List Join
  subqueryJoins : List SubqueryJoin
  orderBy : List OrderItem
  limit : Option Int
  offset : Option Int
  lockMode : Option LockMode
  compound : List CompoundBranch
  projection : Option (List String)
  distinct : Option DistinctMode
  compoundOrderBy : List OrderItem
  compoundLimit : Option Int
  compoundOffset : Option Int
  selectRelated : List String

structure AggregateQuery : Type where
  model : L.Model
  joins : List Join
  whereClause : Tree
  groupBy : List String
  groupByExprs : List Tree
  aggregates : List (String × Tree)
  aliases : List (String × Tree)
  having : Option Tree
  orderBy : List OrderItem
  limit : Option Int
  offset : Option Int
  source : Option SelectQuery

end

variable {L}

/-- `SelectQuery::new` -/
def SelectQuery.new (model : L.Model) : SelectQuery L where
  model := model
  whereClause := .and []
  search := none
  joins := []
  subqueryJoins := []
  orderBy := []
  limit := none
  offset := none
  lockMode := none
  compound := []
  projection := none
  distinct := none
  compoundOrderBy := []
  compoundLimit := none
  compoundOffset := none
  selectRelated := []

end Rustango.Writer
