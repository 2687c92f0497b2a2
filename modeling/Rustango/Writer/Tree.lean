import Rustango.Writer.Select

/-!
# The writers of expressions and of the queries nested in them

How an expression variant lays out its operands is a parameter; the queries an expression holds are
written by the SELECT and aggregate writers.
-/

namespace Rustango.Writer

open Rustango.Query (Dialect SearchClause joinedColumn)
open Act

variable {L : Lang}

/-- What an expression writes: words of its own, or one of its operands. -/
inductive Piece (L : Lang) where
  | own (words : Env L → Except SqlError (List (Word L)))
  | operand (i : Nat)

/-- The writers of the expression variants. -/
structure Layout (L : Lang) where
  pieces : Dialect → L.Head → List (Tree L) → Except SqlError (List (Piece L))
  search : Option L.Model → SearchClause → Env L → List (Word L)

def Piece.act (operands : List (Act L)) : Piece L → Act L
  | .own words => fun e b => do
    let ws ← words e
    .ok (b.append (e.words ws))
  | .operand i => operands.getD i (seq [])

def writePieces (pieces : Except SqlError (List (Piece L))) (operands : List (Act L)) : Act L :=
  match pieces with
  | .error error => fail error
  | .ok pieces => seq (pieces.map (Piece.act operands))

def Tree.isComposite : Tree L → Bool
  | .and _ => true
  | .or _ => true
  | .not _ => true
  | .xor _ => true
  | _ => false

/-- `write_child`: a condition under another one stands in parentheses. -/
def children (items : List (Tree L)) (acts : List (Act L)) : List (Act L) :=
  (items.zip acts).map fun c => if c.1.isComposite then seq [text "(", c.2, text ")"] else c.2

def writeJoined (sep : String) (acts : List (Act L)) : Act L := seq (acts.intersperse (text sep))

def oneIf (a : Act L) : Act L := seq [text "(CASE WHEN ", a, text " THEN 1 ELSE 0 END)"]

def writeXor (items : List (Tree L)) (acts : List (Act L)) : Act L :=
  match acts with
  | [] => fail .emptyXorBranch
  | [a] => a
  | _ => seq [text "(", writeJoined " + " ((children items acts).map oneIf), text ") % 2 = 1"]

/-- A subquery is not an aggregating query. -/
def nested (a : Act L) : Act L := under (fun e => e.withAggregates false) a

/-- MySQL takes no LIMIT in an `IN` subquery: it becomes a derived table. -/
def writeInSubquery (column : String) (negated : Bool) (q : SelectQuery L) (a : Act L) : Act L :=
  let limited := q.limit.isSome || q.offset.isSome || q.compoundLimit.isSome
    || q.compoundOffset.isSome
  reading fun e => seq [writeScopeCol column, text (if negated then " NOT IN (" else " IN ("),
    if limited && e.dialect = .mysql then seq [text "SELECT * FROM (", a,
      emit fun _ => [.text ") AS ", .ident "_rustango_in"]]
    else a,
    text ")"]

/-- `write_from_source`. A derived table's columns are read by name, so it may add the helper columns
of DISTINCT. -/
def writeFromSource (scope : Scope L) (source : Option (Act L)) : Act L :=
  match source with
  | some source => seq [text " FROM ", text "(", source, emit fun _ => [.text ") AS ", .ident scope.name]]
  | none => seq [text " FROM ", emit fun _ => scope.fromItem]

/-- `write_agg_group_col` -/
def aggGroupCol (e : Env L) (scope : Scope L) (hasJoins derived project : Bool) (col : String) :
    List (Word L) :=
  match joinedColumn col with
  | some joined =>
    let flat := joined.1 ++ "__" ++ joined.2
    (if derived && joined.1 ≠ table scope.model then [.ident scope.name, .text ".", .label flat]
      else [e.aliasRef (scope.rename joined.1), .text ".", .ident joined.2])
    ++ if project then [.text " AS ", .label flat] else []
  | none =>
    if hasJoins then [.ident scope.name, .text ".", .ident col]
      ++ if project then [.text " AS ", .ident col] else []
    else [.ident col]

section Aggregate
variable (layout : Layout L) (d : AggregateDraft L) (scope : Scope L)

def AggregateDraft.qualified (a : Act L) : Act L :=
  under (fun e => (e.withQualifier (if d.joins.isEmpty then none else some (.base scope.name))).withColumnsOf
    (some d.query.model)) a

/-- The `HAVING`, `ORDER BY` and `LIMIT` of a grouped aggregate, which see the derived table and not
its joins. -/
def AggregateDraft.writeTail : Act L :=
  under (fun e => { e.withAggregates true with
      derivedJoins := d.query.source.map fun src =>
        ⟨e.depth, scope.name, src.joins.map Join.alias_⟩ })
    (d.qualified scope (seq [
      match d.having with
      | some having => seq [text " HAVING ", having]
      | none => seq [],
      writeOrderLimitOffset d.orderBy d.query.limit d.query.offset]))

/-- `write_aggregate_inner` -/
def AggregateDraft.writeInner : Act L :=
  let hasJoins := !d.joins.isEmpty
  let derived := d.source.isSome
  let groupCols := fun project => emit fun e =>
    spread (d.query.groupBy.map (aggGroupCol e scope hasJoins derived project))
  let grouped := !d.query.groupBy.isEmpty
  seq [text "SELECT ",
    groupCols true,
    d.qualified scope (seq [cond (grouped && !d.aggregates.isEmpty) (text ", "),
      commas (d.aggregates.map fun a => seq [a.2, emit fun _ => [.text " AS ", .ident a.1]])]),
    writeFromSource scope d.source,
    writeModelJoins d.joins,
    d.qualified scope (writeWhereWithSearch layout.search d.whereClause d.query.whereClause.isEmpty
      none (some d.query.model)),
    cond (grouped || !d.groupByExprs.isEmpty) (seq [text " GROUP BY ", groupCols false,
      d.qualified scope (seq [cond (grouped && !d.groupByExprs.isEmpty) (text ", "),
        commas d.groupByExprs])]),
    d.writeTail scope]

/-- `write_aggregate_as` -/
def AggregateDraft.writeAs (scope : Env L → Scope L) : Act L := reading fun e =>
  let scope := scope e
  let joins := d.query.joins ++ (d.query.source.map SelectQuery.joins).getD []
  under (fun e => (e.push scope).withJoinTypes (joins.map fun j => (j.alias_, j.target)))
    (d.writeInner layout scope)

def AggregateDraft.write : Act L := d.writeAs layout fun e => e.correlatedScope d.query.model

end Aggregate

variable (layout : Layout L)

mutual

/-- `write_expr`, `write_where_expr` and `write_aggregate_expr` -/
def Tree.act : Tree L → Act L
  | .column column => writeScopeCol column
  | .aliasedColumn alias_ column => writeAliasedColumn alias_ column
  | .subquery q => seq [text "(", nested ((q.draft).write layout.search), text ")"]
  | .aggregateSubquery q => seq [text "(", nested ((q.draft).write layout), text ")"]
  | .exists_ negated q =>
    seq [text (if negated then "NOT EXISTS (" else "EXISTS ("), (q.draft).write layout.search,
      text ")"]
  | .inSubquery column negated q =>
    writeInSubquery column negated q ((q.draft).write layout.search)
  | .and items => if items.isEmpty then text "1 = 1"
    else writeJoined " AND " (children items (Tree.acts items))
  | .or items => if items.isEmpty then fail .emptyOrBranch
    else writeJoined " OR " (children items (Tree.acts items))
  | .not child => seq [text "NOT (", child.act, text ")"]
  | .xor items => writeXor items (Tree.acts items)
  | .node head operands => reading fun e =>
    writePieces (layout.pieces e.dialect head operands) (Tree.acts operands)
termination_by structural t => t

def Tree.acts : List (Tree L) → List (Act L)
  | [] => []
  | t :: ts => t.act :: Tree.acts ts
termination_by structural ts => ts

def OrderItem.draft : OrderItem L → OrderDraft L
  | .column column desc nulls => ⟨.column column desc nulls, writeScopeCol column⟩
  | .expr expr desc nulls => ⟨.expr expr desc nulls, expr.act⟩
  | .random => ⟨.random, reading fun e => seq [text (randomFn e.dialect), text "()"]⟩
termination_by structural item => item

def OrderItem.drafts : List (OrderItem L) → List (OrderDraft L)
  | [] => []
  | item :: items => item.draft :: OrderItem.drafts items
termination_by structural items => items

def Join.draft : Join L → JoinDraft L
  | ⟨target, alias_, kind, on_, project⟩ => ⟨⟨target, alias_, kind, on_, project⟩, on_.act⟩
termination_by structural j => j

def Join.drafts : List (Join L) → List (JoinDraft L)
  | [] => []
  | j :: js => j.draft :: Join.drafts js
termination_by structural js => js

/-- Only a LATERAL subquery can see the query it joins. -/
def DerivedSource.act (lateral : Bool) : DerivedSource L → Act L
  | .select q => if lateral then (q.draft).write layout.search
    else (q.draft).writeDerived layout.search
  | .aggregate q => if lateral then (q.draft).write layout
    else (q.draft).writeAs layout fun _ => .plain q.model
termination_by structural s => s

def SubqueryJoin.draft : SubqueryJoin L → SubqueryJoinDraft L
  | ⟨subquery, alias_, kind, on_, lateral⟩ =>
    ⟨⟨subquery, alias_, kind, on_, lateral⟩, subquery.act lateral, on_.act⟩
termination_by structural j => j

def SubqueryJoin.drafts : List (SubqueryJoin L) → List (SubqueryJoinDraft L)
  | [] => []
  | j :: js => j.draft :: SubqueryJoin.drafts js
termination_by structural js => js

def CompoundBranch.draft : CompoundBranch L → BranchDraft L
  | ⟨op, query⟩ => ⟨⟨op, query⟩, (query.draft).writeBranch layout.search⟩
termination_by structural b => b

def CompoundBranch.drafts : List (CompoundBranch L) → List (BranchDraft L)
  | [] => []
  | b :: bs => b.draft :: CompoundBranch.drafts bs
termination_by structural bs => bs

def SelectQuery.draft : SelectQuery L → SelectDraft L
  | ⟨model, whereClause, search, joins, subqueryJoins, orderBy, limit, offset, lockMode, compound,
      projection, distinct, compoundOrderBy, compoundLimit, compoundOffset, selectRelated⟩ =>
    { query := ⟨model, whereClause, search, joins, subqueryJoins, orderBy, limit, offset, lockMode,
        compound, projection, distinct, compoundOrderBy, compoundLimit, compoundOffset,
        selectRelated⟩
      whereClause := whereClause.act
      joins := Join.drafts joins
      subqueryJoins := SubqueryJoin.drafts subqueryJoins
      orderBy := OrderItem.drafts orderBy
      compound := CompoundBranch.drafts compound
      compoundOrderBy := OrderItem.drafts compoundOrderBy }
termination_by structural q => q

def SelectQuery.sourceAct : Option (SelectQuery L) → Option (Act L)
  | none => none
  | some q => some ((q.draft).writeAs layout.search (fun _ => .plain q.model) true)
termination_by structural q => q

def Tree.havingAct : Option (Tree L) → Option (Act L)
  | none => none
  | some t => some t.act
termination_by structural t => t

def Tree.namedActs : List (String × Tree L) → List (String × Act L)
  | [] => []
  | (name, t) :: ts => (name, t.act) :: Tree.namedActs ts
termination_by structural ts => ts

def AggregateQuery.draft : AggregateQuery L → AggregateDraft L
  | ⟨model, joins, whereClause, groupBy, groupByExprs, aggregates, aliases, having, orderBy, limit,
      offset, source⟩ =>
    { query := ⟨model, joins, whereClause, groupBy, groupByExprs, aggregates, aliases, having,
        orderBy, limit, offset, source⟩
      joins := Join.drafts joins
      whereClause := whereClause.act
      groupByExprs := Tree.acts groupByExprs
      aggregates := Tree.namedActs aggregates
      having := Tree.havingAct having
      orderBy := OrderItem.drafts orderBy
      source := SelectQuery.sourceAct source }
termination_by structural q => q

end

def Act.run (a : Act L) (dialect : Dialect) : Except SqlError (Text L) := do
  let b ← a (.new dialect) .new
  .ok b.sql

/-- `Dialect::compile_select` -/
def compileSelect (dialect : Dialect) (q : SelectQuery L) : Except SqlError (Text L) :=
  (((q.draft layout).write layout.search).run) dialect

end Rustango.Writer
