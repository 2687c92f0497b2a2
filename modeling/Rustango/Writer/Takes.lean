import Rustango.Writer.Slots

/-!
# Which expressions and queries take a slot

An expression takes the slots that a SELECT nested in it takes. A SELECT body takes both, but for the
window rewrite of `DISTINCT ON`, which takes the child count and leaves the total to what it holds.
-/

namespace Rustango.Writer

open Rustango.Query (Dialect DistinctMode)
open Act

variable {L : Lang}

def Piece.takes (operands : List Bool) : Piece L → Bool
  | .own _ => false
  | .operand i => operands.getD i false

def piecesTake (pieces : Except SqlError (List (Piece L))) (operands : List Bool) : Bool :=
  match pieces with
  | .error _ => false
  | .ok pieces => pieces.any (Piece.takes operands)

/-- Whether `DISTINCT ON` is written as a ranking. -/
def windowed (distinct : Option DistinctMode) (d : Dialect) : Bool :=
  match distinct, d with
  | some (.on_ _), .mysql => true
  | some (.on_ _), .sqlite => true
  | _, _ => false

variable (layout : Layout L) (d : Dialect) (k : Slot)

mutual

def Tree.takes : Tree L → Bool
  | .column _ => false
  | .aliasedColumn _ _ => false
  | .subquery q => q.takes
  | .aggregateSubquery q => q.takes
  | .exists_ _ q => q.takes
  | .inSubquery _ _ q => q.takes
  | .and items => (Tree.takesEach items).any id
  | .or items => (Tree.takesEach items).any id
  | .not child => child.takes
  | .xor items => (Tree.takesEach items).any id
  | .node head operands => piecesTake (layout.pieces d head operands) (Tree.takesEach operands)
termination_by structural t => t

def Tree.takesEach : List (Tree L) → List Bool
  | [] => []
  | t :: ts => t.takes :: Tree.takesEach ts
termination_by structural ts => ts

def OrderItem.takes : OrderItem L → Bool
  | .column _ _ _ => false
  | .expr expr _ _ => expr.takes
  | .random => false
termination_by structural item => item

def OrderItem.takesAny : List (OrderItem L) → Bool
  | [] => false
  | item :: items => item.takes || OrderItem.takesAny items
termination_by structural items => items

def Join.takes : Join L → Bool
  | ⟨_, _, _, on_, _⟩ => on_.takes
termination_by structural j => j

def Join.takesAny : List (Join L) → Bool
  | [] => false
  | j :: js => j.takes || Join.takesAny js
termination_by structural js => js

def DerivedSource.takes : DerivedSource L → Bool
  | .select q => q.takes
  | .aggregate q => q.takes
termination_by structural s => s

def SubqueryJoin.takes : SubqueryJoin L → Bool
  | ⟨subquery, _, _, on_, _⟩ => subquery.takes || on_.takes
termination_by structural j => j

def SubqueryJoin.takesAny : List (SubqueryJoin L) → Bool
  | [] => false
  | j :: js => j.takes || SubqueryJoin.takesAny js
termination_by structural js => js

def CompoundBranch.takes : CompoundBranch L → Bool
  | ⟨_, query⟩ => query.takes
termination_by structural b => b

def CompoundBranch.takesAny : List (CompoundBranch L) → Bool
  | [] => false
  | b :: bs => b.takes || CompoundBranch.takesAny bs
termination_by structural bs => bs

def SelectQuery.takes : SelectQuery L → Bool
  | ⟨_, whereClause, _, joins, subqueryJoins, orderBy, _, _, _, compound, _, distinct,
      compoundOrderBy, _, _, _⟩ =>
    (!windowed distinct d || k = .childCount || OrderItem.takesAny orderBy || Join.takesAny joins
      || SubqueryJoin.takesAny subqueryJoins || whereClause.takes)
    || CompoundBranch.takesAny compound
    || (!compound.isEmpty && OrderItem.takesAny compoundOrderBy)
termination_by structural q => q

def SelectQuery.takesOption : Option (SelectQuery L) → Bool
  | none => false
  | some q => q.takes
termination_by structural q => q

def Tree.takesOption : Option (Tree L) → Bool
  | none => false
  | some t => t.takes
termination_by structural t => t

def Tree.takesNamed : List (String × Tree L) → Bool
  | [] => false
  | (_, t) :: ts => t.takes || Tree.takesNamed ts
termination_by structural ts => ts

/-- The annotations that are not projected are not written. -/
def AggregateQuery.takes : AggregateQuery L → Bool
  | ⟨_, joins, whereClause, _, groupByExprs, aggregates, _, having, orderBy, _, _, source⟩ =>
    Tree.takesNamed aggregates || SelectQuery.takesOption source || Join.takesAny joins
      || whereClause.takes || (Tree.takesEach groupByExprs).any id || Tree.takesOption having
      || OrderItem.takesAny orderBy
termination_by structural q => q

end

end Rustango.Writer
