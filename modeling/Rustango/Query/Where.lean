import Rustango.Lib.Outcome
import Rustango.Query.Condition

/-!
# Writing a `WHERE` clause

The text of a predicate tree, with parentheses only where a child needs them, joined with a search
clause and with the model's global scopes, and the operators of `Q`.
-/

namespace Rustango.Query

open Rustango.Precedence Rustango.Outcome

inductive SqlError where
  | emptyOrBranch
  | emptyXorBranch
  /-- What the writer of one predicate says. -/
  | predicate (message : String)
deriving DecidableEq, Repr

/-- How the text of one predicate stands in a condition. -/
inductive Shape where
  | plain
  /-- `NOT …` -/
  | negated
  /-- `NOT (…)` -/
  | negatedGroup
  /-- `… BETWEEN … AND …` -/
  | between
deriving DecidableEq, Repr

def Shape.tokens {A : Type} (a : A) : Shape → List (Token A)
  | .plain => [.predicate a]
  | .negated => [.not, .negand a]
  | .negatedGroup => [.not, .opening, .negand a, .closing]
  | .between => [.between a, .and, .upper]

/-- A search over columns: `(col1 ILIKE … OR col2 ILIKE …)`. -/
structure SearchClause where
  columns : List String
  query : String

/-- What a condition's text says of a row: a leaf of the tree, or that a column matches the search. -/
inductive Atom (L : Lang) (S : Type) where
  | leaf (w : WhereExpr L S)
  | matched (column : String)

variable {L : Lang} {S : Type}

section Write
-- The writer of one predicate.
variable (leaf : WhereExpr L S → Except SqlError Shape)

def group {A : Type} (ts : List (Token A)) : List (Token A) := [.opening] ++ ts ++ [.closing]

def WhereExpr.isComposite : WhereExpr L S → Bool
  | .and _ => true
  | .or _ => true
  | .not _ => true
  | .xor _ => true
  | _ => false

/-- `write_child`: a tree under another one stands in parentheses. -/
def childText (w : WhereExpr L S) (ts : List (Token (Atom L S))) : List (Token (Atom L S)) :=
  if w.isComposite then group ts else ts

/-- `(CASE WHEN … THEN 1 ELSE 0 END)` -/
def oneIf {A : Type} (ts : List (Token A)) : List (Token A) :=
  group ([.caseWhen] ++ ts ++ [.then_, .number 1, .else_, .number 0, .end_])

def writeLeaf (w : WhereExpr L S) : Except SqlError (List (Token (Atom L S))) :=
  (leaf w).map (Shape.tokens (.leaf w))

mutual

def writeWhereExpr : WhereExpr L S → Except SqlError (List (Token (Atom L S)))
  -- A nested empty `AND` is true; at the top no `WHERE` is written.
  | .and [] => .ok [.number 1, .equals, .number 1]
  | .and (w :: ws) => do
    let ts ← writeChildren (w :: ws)
    .ok (joined .and ts)
  | .or [] => .error .emptyOrBranch
  | .or (w :: ws) => do
    let ts ← writeChildren (w :: ws)
    .ok (joined .or ts)
  | .xor [] => .error .emptyXorBranch
  | .xor [w] => writeWhereExpr w
  | .xor (w :: w' :: ws) => do
    let ts ← writeChildren (w :: w' :: ws)
    .ok (group (joined .plus (ts.map oneIf)) ++ [.percent, .number 2, .equals, .number 1])
  | .not child => do
    let ts ← writeWhereExpr child
    .ok (.not :: group ts)
  | .predicate f => writeLeaf leaf (.predicate f)
  | .exprCompare lhs op rhs => writeLeaf leaf (.exprCompare lhs op rhs)
  | .leaf p => writeLeaf leaf (.leaf p)
  | .inSubquery column negated q => writeLeaf leaf (.inSubquery column negated q)

def writeChildren : List (WhereExpr L S) → Except SqlError (List (List (Token (Atom L S))))
  | [] => .ok []
  | w :: ws => do
    let t ← writeWhereExpr w
    let ts ← writeChildren ws
    .ok (childText w t :: ts)

end

/-- A search for nothing is no search; one over no column matches nothing. -/
def searchText (s : SearchClause) : List (Token (Atom L S)) :=
  if s.columns.isEmpty then [.number 1, .equals, .number 0]
  else group (joined .or (s.columns.map fun c => [.predicate (.matched c)]))

/-- The condition after `WHERE`; none is written when nothing restricts the rows. -/
def writeWhereWithSearch (w : WhereExpr L S) (search : Option SearchClause) :
    Except SqlError (Option (List (Token (Atom L S)))) :=
  match w.isEmpty, search.filter fun s => s.query ≠ "" with
  | true, none => .ok none
  | false, none => (writeWhereExpr leaf w).map some
  | true, some s => .ok (some (searchText s))
  | false, some s => do
    let ts ← writeWhereExpr leaf w
    .ok (some (group ts ++ .and :: searchText s))

-- Their equations are derived here, once for all the proofs that unfold them.
attribute [local simp] writeWhereExpr writeChildren

end Write

/-- `where_clause` under every global scope, for queries built straight from the schema. -/
def ModelSchema.withGlobalScopes (m : ModelSchema L) (w : WhereExpr L S) : WhereExpr L S :=
  let all := (m.globalScopeExprs []).map WhereExpr.lift
  if all.isEmpty then w
  else .and (all ++ if w.isEmpty then [] else [w])

/-- A composable predicate. -/
structure Q (L : Lang) (S : Type) where
  expr : WhereExpr L S

namespace Q

def bitand (a b : Q L S) : Q L S :=
  ⟨match a.expr, b.expr with
    | .and a, .and b => .and (a ++ b)
    | .and a, b => .and (a ++ [b])
    | a, .and b => .and (a :: b)
    | a, b => .and [a, b]⟩

def bitor (a b : Q L S) : Q L S :=
  ⟨match a.expr, b.expr with
    | .or a, .or b => .or (a ++ b)
    | .or a, b => .or (a ++ [b])
    | a, .or b => .or (a :: b)
    | a, b => .or [a, b]⟩

def bitxor (a b : Q L S) : Q L S := ⟨.xor [a.expr, b.expr]⟩

def not (a : Q L S) : Q L S :=
  ⟨match a.expr with
    | .not inner => inner
    | a => .not a⟩

end Q

/-- What is built from `Q` values with `&`, `|`, `^` and `!`. -/
inductive QExpr (L : Lang) (S : Type) where
  | raw (q : Q L S)
  | and (a b : QExpr L S)
  | or (a b : QExpr L S)
  | xor (a b : QExpr L S)
  | not (a : QExpr L S)

def QExpr.eval : QExpr L S → Q L S
  | .raw q => q
  | .and a b => a.eval.bitand b.eval
  | .or a b => a.eval.bitor b.eval
  | .xor a b => a.eval.bitxor b.eval
  | .not a => a.eval.not

section Truth
variable (v : Atom L S → Option Bool)

mutual

/-- The truth of a tree, given that of its leaves. -/
def WhereExpr.truth : WhereExpr L S → Option Bool
  | .and items => and3 (WhereExpr.truths items)
  | .or items => or3 (WhereExpr.truths items)
  | .not child => not3 child.truth
  | .xor items => xor3 (WhereExpr.truths items)
  | .predicate f => v (.leaf (.predicate f))
  | .exprCompare lhs op rhs => v (.leaf (.exprCompare lhs op rhs))
  | .leaf p => v (.leaf (.leaf p))
  | .inSubquery column negated q => v (.leaf (.inSubquery column negated q))

def WhereExpr.truths : List (WhereExpr L S) → List (Option Bool)
  | [] => []
  | w :: ws => w.truth :: WhereExpr.truths ws

end

def QExpr.truth : QExpr L S → Option Bool
  | .raw q => q.expr.truth v
  | .and a b => and3 [a.truth, b.truth]
  | .or a b => or3 [a.truth, b.truth]
  | .xor a b => xor3 [a.truth, b.truth]
  | .not a => not3 a.truth

/-- A search for nothing matches every row. -/
def SearchClause.truth (s : SearchClause) : Option Bool :=
  if s.query = "" then some true else or3 (s.columns.map fun c => v (.matched c))

/-- The scopes, the tree and the search together. -/
def whereTruth (m : ModelSchema L) (e : QExpr L S) (search : Option SearchClause) : Option Bool :=
  and3 (m.globalScopes.map (fun scope => (scope.apply.lift : WhereExpr L S).truth v) ++
    [e.truth v, search.elim (some true) (·.truth v)])

end Truth

section Refusals
variable (leaf : WhereExpr L S → Except SqlError Shape)

mutual

/-- Every predicate of the tree can be written, and no `OR` or `XOR` is without children. -/
def WhereExpr.Writable : WhereExpr L S → Prop
  | .and items => WhereExpr.AllWritable items
  | .or items => items ≠ [] ∧ WhereExpr.AllWritable items
  | .xor items => items ≠ [] ∧ WhereExpr.AllWritable items
  | .not child => child.Writable
  | .predicate f => ∃ s, leaf (.predicate f) = .ok s
  | .exprCompare lhs op rhs => ∃ s, leaf (.exprCompare lhs op rhs) = .ok s
  | .leaf p => ∃ s, leaf (.leaf p) = .ok s
  | .inSubquery column negated q => ∃ s, leaf (.inSubquery column negated q) = .ok s

def WhereExpr.AllWritable : List (WhereExpr L S) → Prop
  | [] => True
  | w :: ws => w.Writable ∧ WhereExpr.AllWritable ws

end

end Refusals

end Rustango.Query
