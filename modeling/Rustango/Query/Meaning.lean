import Rustango.Lib.Firsts
import Rustango.Query.QuerySet

/-!
# What a query selects

The rows a compiled query may return over a table state. A database is free in how it orders ties,
draws random keys and lays out a set operation, so an answer is a relation, not a function.
-/

namespace Rustango.Query

open Rustango.Firsts

abbrev Row (L : Lang) := String → L.Value

/-- A row of the `FROM` clause: the base row, which an outer join may leave out, and the joined ones. -/
structure Env (L : Lang) where
  main : Option (Row L)
  joined : List (String × Row L)

/-- How the database reads values, and the leaves that the query layer only carries. -/
structure Meaning (L : Lang) where
  null : L.Value
  ofBool : Bool → L.Value
  /-- `v op w`, unknown when it is neither true nor false. -/
  compare : Op → L.Value → L.Value → Option Bool
  /-- One value to `DISTINCT`, to a set operation and to a key. -/
  tied : L.Value → L.Value → Bool
  /-- `v` may come before `w`. -/
  le : Bool → NullsOrder → L.Value → L.Value → Prop
  scalar : L.Scalar → Env L → L.Value
  /-- The joined tables an expression names. -/
  scalarReads : L.Scalar → List String
  leaf : L.Leaf → Env L → Option Bool
  leafReads : L.Leaf → List String
  derived : L.Derived → Env L → List (Row L)
  le_total : ∀ d n v w, le d n v w ∨ le d n w v
  le_trans : ∀ d n u v w, le d n u v → le d n v w → le d n u w
  tied_iff : ∀ d n v w, tied v w = true ↔ le d n v w ∧ le d n w v
  isNull_true : ∀ v, compare .isNull v (ofBool true) = some true ↔ v = null
  eq_true : ∀ v w, compare .eq v w = some true ↔ v ≠ null ∧ w ≠ null ∧ tied v w = true
  scalar_base : ∀ x e, scalarReads x = [] → scalar x e = scalar x ⟨e.main, []⟩
  leaf_base : ∀ p e, leafReads p = [] → leaf p e = leaf p ⟨e.main, []⟩

/-- The rows of each table. -/
abbrev Database (L : Lang) := String → List (Row L)

variable {L : Lang}

/-- The base row alone. -/
def Env.base (row : Row L) : Env L := ⟨some row, []⟩

def and3 (bs : List (Option Bool)) : Option Bool :=
  if some false ∈ bs then some false else if none ∈ bs then none else some true

def or3 (bs : List (Option Bool)) : Option Bool :=
  if some true ∈ bs then some true else if none ∈ bs then none else some false

/-- True when an odd number of children are; a single child means itself. -/
def xor3 : List (Option Bool) → Option Bool
  | [b] => b
  | bs => some (bs.count (some true) % 2 = 1)

theorem and3_eq_true {bs : List (Option Bool)} :
    and3 bs = some true ↔ ∀ b ∈ bs, b = some true := by
  constructor
  · intro h b hb
    have hf : some false ∉ bs := by
      intro hf
      simp [and3, hf] at h
    have hn : none ∉ bs := by
      intro hn
      simp [and3, hf, hn] at h
    cases b with
    | none => exact absurd hb hn
    | some b =>
      cases b with
      | false => exact absurd hb hf
      | true => rfl
  · intro h
    have hf : some false ∉ bs := fun hf => by simpa using h _ hf
    have hn : none ∉ bs := fun hn => by simpa using h _ hn
    simp [and3, hf, hn]

theorem or3_eq_true {bs : List (Option Bool)} : or3 bs = some true ↔ some true ∈ bs := by
  by_cases h : some true ∈ bs
  · simp [or3, h]
  · by_cases hn : none ∈ bs <;> simp [or3, h, hn]

section Eval
variable (m : Meaning L) (table : String)

/-- The row an alias stands for. -/
def Env.row (e : Env L) (alias_ : String) : Option (Row L) :=
  if alias_ = table then e.main else (e.joined.find? fun p => p.1 = alias_).map (·.2)

/-- A column of a row; all of them are NULL where an outer join found none. -/
def columnOf (row : Option (Row L)) (column : String) : L.Value := row.elim m.null (· column)

def Expr.value (e : Env L) : Expr L → L.Value
  | .literal v => v
  | .column c => columnOf m e.main c
  | .aliasedColumn a c => columnOf m (e.row table a) c
  | .scalar x => m.scalar x e

/-- The joined tables an expression names. -/
def Expr.reads : Expr L → List String
  | .literal _ => []
  | .column _ => []
  | .aliasedColumn a _ => if a = table then [] else [a]
  | .scalar x => m.scalarReads x

/-- A bare column, which the combined rows of a set operation can be read by. -/
def Expr.Unqualified : Expr L → Prop
  | .aliasedColumn _ _ => False
  | .scalar x => m.scalarReads x = []
  | _ => True

variable {Q : Type} (sub : Q → List L.Value)

mutual

/-- The truth of a predicate; `sub` holds what its subqueries returned. -/
def WhereExpr.holds (e : Env L) : WhereExpr L Q → Option Bool
  | .predicate f => m.compare f.op (columnOf m e.main f.column) f.value
  | .exprCompare lhs op rhs => m.compare op (lhs.value m table e) (rhs.value m table e)
  | .leaf p => m.leaf p e
  | .and items => and3 (WhereExpr.holdsAll e items)
  | .or items => or3 (WhereExpr.holdsAll e items)
  | .not child => (child.holds e).map (!·)
  | .xor items => xor3 (WhereExpr.holdsAll e items)
  | .inSubquery column negated q =>
    let found := or3 ((sub q).map fun v => m.compare .eq (columnOf m e.main column) v)
    if negated then found.map (!·) else found

def WhereExpr.holdsAll (e : Env L) : List (WhereExpr L Q) → List (Option Bool)
  | [] => []
  | w :: ws => w.holds e :: WhereExpr.holdsAll e ws

end

mutual

/-- The joined tables a predicate names. -/
def WhereExpr.reads : WhereExpr L Q → List String
  | .predicate _ => []
  | .exprCompare lhs _ rhs => lhs.reads m table ++ rhs.reads m table
  | .leaf p => m.leafReads p
  | .and items => WhereExpr.readsAll items
  | .or items => WhereExpr.readsAll items
  | .not child => child.reads
  | .xor items => WhereExpr.readsAll items
  | .inSubquery _ _ _ => []

def WhereExpr.readsAll : List (WhereExpr L Q) → List String
  | [] => []
  | w :: ws => w.reads ++ WhereExpr.readsAll ws

end

mutual

/-- The subqueries of a predicate. -/
def WhereExpr.subqueries : WhereExpr L Q → List Q
  | .predicate _ => []
  | .exprCompare _ _ _ => []
  | .leaf _ => []
  | .and items => WhereExpr.subqueriesAll items
  | .or items => WhereExpr.subqueriesAll items
  | .not child => child.subqueries
  | .xor items => WhereExpr.subqueriesAll items
  | .inSubquery _ _ q => [q]

def WhereExpr.subqueriesAll : List (WhereExpr L Q) → List Q
  | [] => []
  | w :: ws => w.subqueries ++ WhereExpr.subqueriesAll ws

end

/-- A filter, which holds no subquery. -/
def WhereExpr.accepts (e : Env L) (w : WhereExpr L Empty) : Bool :=
  w.holds m table (fun q => nomatch q) e = some true

variable (draw : Env L → Nat)

/-- `a` comes before `b` or is level with it; `draw` is the random key of each row. -/
def OrderItem.le (a b : Env L) : OrderItem L → Prop
  | .column c desc nulls => m.le desc nulls (columnOf m a.main c) (columnOf m b.main c)
  | .expr x desc nulls => m.le desc nulls (x.value m table a) (x.value m table b)
  | .random => draw a ≤ draw b

/-- The items one after another, the next one where the last left a tie. -/
def ordered : List (OrderItem L) → Env L → Env L → Prop
  | [], _, _ => True
  | i :: is, a, b => i.le m table draw a b ∧ (i.le m table draw b a → ordered is a b)

def OrderItem.reads : OrderItem L → List String
  | .expr x _ _ => x.reads m table
  | _ => []

def OrderItem.Unqualified : OrderItem L → Prop
  | .expr x _ _ => x.Unqualified m
  | _ => True

end Eval

section Select
variable (m : Meaning L) (db : Database L)

/-- One join: what each row of `envs` finds in the table, and what outer joins keep. -/
def joinRows (table : String) (kind : JoinKind) (alias_ : String) (on_ : WhereExpr L Empty)
    (rows : Env L → List (Row L)) (envs : List (Env L)) : List (Env L) :=
  let extend (e : Env L) (row : Row L) : Env L := { e with joined := e.joined ++ [(alias_, row)] }
  let found (e : Env L) := (rows e).filter fun row => on_.accepts m table (extend e row)
  let inner := envs.flatMap fun e => (found e).map (extend e)
  let left := envs.flatMap fun e =>
    if (found e).isEmpty then [extend e fun _ => m.null] else (found e).map (extend e)
  let missed := ((rows ⟨none, []⟩).filter fun row =>
    !envs.any fun e => on_.accepts m table (extend e row)).map (extend ⟨none, []⟩)
  match kind with
  | .inner => inner
  | .left => left
  | .right => inner ++ missed
  | .full => left ++ missed

namespace SelectQuery
variable (q : SelectQuery L)

/-- The rows of the `FROM` clause. -/
def sources : List (Env L) :=
  let base := (db q.model.table).map Env.base
  let joined := q.joins.foldl (fun envs j =>
    joinRows m q.model.table j.kind j.alias_ j.on_ (fun _ => db j.target.table) envs) base
  q.subqueryJoins.foldl (fun envs j =>
    joinRows m q.model.table j.kind j.alias_ j.on_ (m.derived j.subquery) envs) joined

/-- The rows that satisfy the filters. -/
def matching : List (Env L) :=
  (q.sources m db).filter fun e => q.whereClause.accepts m q.model.table e

/-- The labelled values of a result row. -/
def output (e : Env L) : List (String × L.Value) :=
  (q.projection.getD (q.model.fields.map (·.column))).map (fun c => (c, columnOf m e.main c)) ++
    q.joins.flatMap fun j => j.project.map fun c =>
      (j.alias_ ++ "__" ++ c, columnOf m (e.row q.model.table j.alias_) c)

end SelectQuery

/-- The two rows are one to the database. -/
def sameOutput (a b : List (String × L.Value)) : Bool :=
  a.length = b.length ∧ (a.zip b).all fun p => m.tied p.1.2 p.2.2

/-- The two rows agree on the columns. -/
def agree (cols : List String) (a b : Env L) : Bool :=
  cols.all fun c => m.tied (columnOf m a.main c) (columnOf m b.main c)

/-- SQLite reads a negative limit as no limit. -/
def limitCount (limit : Option Int) : Option Nat :=
  limit.bind fun n => if n < 0 then none else some n.toNat

def offsetCount (offset : Option Int) : Nat := (offset.getD 0).toNat

/-- `LIMIT … OFFSET …`. -/
def slice {α : Type} (limit offset : Option Int) (l : List α) : List α :=
  window (offsetCount offset) (limitCount limit) l

namespace SelectQuery
variable (q : SelectQuery L)

/-- `DISTINCT` keeps the first row of each group. -/
def dedup (envs : List (Env L)) : List (Env L) :=
  match q.distinct with
  | none => envs
  | some .all => firsts (fun a b => sameOutput m (q.output m a) (q.output m b)) envs
  | some (.on_ cols) => firsts (agree m cols) envs

/-- The tables a statement may name beside its own. -/
def aliases : List String := q.joins.map (·.alias_) ++ q.subqueryJoins.map (·.alias_)

/-- Each table stands under a name of its own, and the query names no other; the database refuses it
otherwise. -/
def InScope : Prop :=
  (q.model.table :: q.aliases).Nodup ∧ q.whereClause.reads m q.model.table ⊆ q.aliases ∧
    ∀ i ∈ q.orderBy, i.reads m q.model.table ⊆ q.aliases

/-- The head of the query may select `envs`, in this order. -/
def Selects (envs : List (Env L)) : Prop :=
  q.InScope m ∧ ∃ draw l, (q.matching m db).Perm l ∧
    l.Pairwise (ordered m q.model.table draw q.orderBy) ∧
    envs = slice q.limit q.offset (q.dedup m l)

end SelectQuery

/-- `row` is among the rows, as the database compares them. -/
def present (rows : List (List (String × L.Value))) (row : List (String × L.Value)) : Prop :=
  ∃ r ∈ rows, sameOutput m r row = true

/-- The rows of a set operation, in no particular order; all but `UNION ALL` remove duplicates. -/
def SetOp.Combines (op : SetOp) (a b rows : List (List (String × L.Value))) : Prop :=
  match op with
  | .unionAll => (a ++ b).Perm rows
  | .union => rows ⊆ a ++ b ∧ Apart (sameOutput m) rows ∧ ∀ r ∈ a ++ b, present m rows r
  | .intersection => (∀ r ∈ rows, r ∈ a ∧ present m b r) ∧ Apart (sameOutput m) rows ∧
      ∀ r ∈ a, present m b r → present m rows r
  | .difference => (∀ r ∈ rows, r ∈ a ∧ ¬ present m b r) ∧ Apart (sameOutput m) rows ∧
      ∀ r ∈ a, ¬ present m b r → present m rows r

/-- A combined row, which an `ORDER BY` reads by its labels. -/
def mergedEnv (row : List (String × L.Value)) : Env L :=
  Env.base fun c => ((row.find? fun p => p.1 = c).map (·.2)).getD m.null

/-- The clauses after a set operation: an order over the combined rows, then a slice. -/
def Windowed (table : String) (orderBy : List (OrderItem L)) (limit offset : Option Int)
    (combined rows : List (List (String × L.Value))) : Prop :=
  (∀ i ∈ orderBy, i.Unqualified m) ∧ ∃ draw l, combined.Perm l ∧
    (l.map (mergedEnv m)).Pairwise (ordered m table draw orderBy) ∧ rows = slice limit offset l

mutual

/-- The query may return these rows. -/
def SelectQuery.Answers : SelectQuery L → List (List (String × L.Value)) → Prop
  | ⟨model, w, joins, subqueryJoins, orderBy, limit, offset, lockMode, compound, projection,
      distinct, compoundOrderBy, compoundLimit, compoundOffset⟩, rows =>
    let head : SelectQuery L := ⟨model, w, joins, subqueryJoins, orderBy, limit, offset, lockMode, [],
      projection, distinct, [], none, none⟩
    ∃ envs, head.Selects m db envs ∧
      match compound with
      | [] => rows = envs.map (head.output m)
      | branch :: branches => ∃ combined,
        SelectQuery.Folds (branch :: branches) (envs.map (head.output m)) combined ∧
          Windowed m model.table compoundOrderBy compoundLimit compoundOffset combined rows

/-- The branches, folded from the left. -/
def SelectQuery.Folds : List (CompoundBranch L) → List (List (String × L.Value)) →
    List (List (String × L.Value)) → Prop
  | [], acc, rows => rows = acc
  | ⟨op, query⟩ :: branches, acc, rows => ∃ b combined, query.Answers b ∧
      op.Combines m acc b combined ∧ SelectQuery.Folds branches combined rows

end

variable {m db} in
theorem SelectQuery.answers_iff {q : SelectQuery L} (h : q.compound = [])
    {rows : List (List (String × L.Value))} :
    q.Answers m db rows ↔ ∃ envs, q.Selects m db envs ∧ rows = envs.map (q.output m) := by
  cases q
  subst h
  rw [SelectQuery.Answers]
  exact Iff.rfl

variable {m db} in
theorem SelectQuery.answers_compound_iff {q : SelectQuery L} (h : q.compound ≠ [])
    {rows : List (List (String × L.Value))} :
    q.Answers m db rows ↔ ∃ envs, q.Selects m db envs ∧ ∃ combined,
      SelectQuery.Folds m db q.compound (envs.map (q.output m)) combined ∧
        Windowed m q.model.table q.compoundOrderBy q.compoundLimit q.compoundOffset combined rows := by
  rcases q with ⟨_, _, _, _, _, _, _, _, compound, _, _, _, _, _⟩
  cases compound with
  | nil => exact absurd rfl h
  | cons branch branches =>
    rw [SelectQuery.Answers]
    exact Iff.rfl

end Select

section Write
variable (m : Meaning L) (db : Database L)

/-- A write may match these rows of the table: each subquery answers once, and the rows are those
whose `WHERE` is true. The statement joins no table, so it may name none. -/
def Matches (model : ModelSchema L) (w : WhereExpr L (SelectQuery L)) (rows : List (Row L)) : Prop :=
  w.reads m model.table = [] ∧ ∃ sub : SelectQuery L → List L.Value,
    (∀ q ∈ w.subqueries, ∃ answer, q.Answers m db answer ∧
      sub q = answer.map fun row => (row.head?.map (·.2)).getD m.null) ∧
    rows = (db model.table).filter fun row => w.holds m model.table sub (Env.base row) = some true

end Write

/-- A language of nullable integers. -/
abbrev IntLang : Lang where
  Value := Option Int
  Leaf := Empty
  Scalar := Empty
  Derived := Empty

def intCompare (op : Op) (v w : Option Int) : Option Bool :=
  match op, v, w with
  | .isNull, v, w => some (decide (v = none) == decide (w = some 1))
  | .eq, some a, some b => some (a = b)
  | .ne, some a, some b => some (a ≠ b)
  | .lt, some a, some b => some (a < b)
  | .lte, some a, some b => some (a ≤ b)
  | .gt, some a, some b => some (b < a)
  | .gte, some a, some b => some (b ≤ a)
  | _, _, _ => none

/-- Unless told otherwise, NULL is the largest value. -/
def nullsFirst (desc : Bool) : NullsOrder → Bool
  | .first => true
  | .last => false
  | .default => desc

def intLe (desc : Bool) (nulls : NullsOrder) (v w : Option Int) : Prop :=
  match v, w with
  | none, none => True
  | none, some _ => nullsFirst desc nulls = true
  | some _, none => nullsFirst desc nulls = false
  | some a, some b => if desc then b ≤ a else a ≤ b

def intMeaning : Meaning IntLang where
  null := none
  ofBool b := some (if b then 1 else 0)
  compare := intCompare
  tied v w := v = w
  le := intLe
  scalar x := nomatch x
  scalarReads x := nomatch x
  leaf p := nomatch p
  leafReads p := nomatch p
  derived d := nomatch d
  le_total desc nulls v w := by
    cases v <;> cases w <;> cases hn : nullsFirst desc nulls <;> cases desc <;>
      simp [intLe, hn, le_total]
  le_trans desc nulls u v w := by
    cases u <;> cases v <;> cases w <;> cases hn : nullsFirst desc nulls <;> cases desc <;>
      simp only [intLe, hn] <;> simp <;> omega
  tied_iff desc nulls v w := by
    cases v <;> cases w <;> cases hn : nullsFirst desc nulls <;> cases desc <;>
      simp [intLe, hn] <;> omega
  isNull_true v := by cases v <;> simp [intCompare]
  eq_true v w := by cases v <;> cases w <;> simp [intCompare]
  scalar_base x := nomatch x
  leaf_base p := nomatch p

end Rustango.Query
