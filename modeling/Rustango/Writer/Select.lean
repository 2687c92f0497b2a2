import Rustango.Writer.Buffer

/-!
# The SELECT writer

The text of a query, from the writers of its expressions and of the queries nested in it.
-/

namespace Rustango.Writer

open Rustango.Query (Dialect DistinctMode JoinKind LockMode NullsOrder SearchClause SetOp
  joinedColumn)

variable {L : Lang}

structure OrderDraft (L : Lang) where
  item : OrderItem L
  /-- `write_order_target` -/
  target : Act L

structure JoinDraft (L : Lang) where
  join : Join L
  on_ : Act L

structure SubqueryJoinDraft (L : Lang) where
  join : SubqueryJoin L
  subquery : Act L
  on_ : Act L

structure BranchDraft (L : Lang) where
  branch : CompoundBranch L
  /-- Writes the branch, its projection widened by the given columns. -/
  write : List String → Act L

structure SelectDraft (L : Lang) where
  query : SelectQuery L
  whereClause : Act L
  joins : List (JoinDraft L)
  subqueryJoins : List (SubqueryJoinDraft L)
  orderBy : List (OrderDraft L)
  compound : List (BranchDraft L)
  compoundOrderBy : List (OrderDraft L)

structure AggregateDraft (L : Lang) where
  query : AggregateQuery L
  joins : List (JoinDraft L)
  whereClause : Act L
  groupByExprs : List (Act L)
  aggregates : List (String × Act L)
  having : Option (Act L)
  orderBy : List (OrderDraft L)
  /-- Writes the source, where there is one. -/
  source : Option (Act L)

def Tree.isEmpty : Tree L → Bool
  | .and [] => true
  | _ => false

open Act

def writeIdent (name : String) : Act L := emit fun _ => [.ident name]

def writeScopeCol (column : String) : Act L := emit fun e => qualified (e.qualifyAlias column) column

def writeAliasedColumn (alias_ column : String) : Act L := emit fun e =>
  match e.derivedJoins.filter fun dj => dj.depth = e.depth && dj.aliases.contains alias_ with
  | some dj => [.ident dj.table, .text ".", .label (alias_ ++ "__" ++ column)]
  | none =>
    [e.aliasRef ((e.scopes.head?.map fun s => s.rename alias_).getD alias_), .text ".", .ident column]

def Scope.fromItem (s : Scope L) : List (Word L) :=
  if s.name = table s.model then [.ident s.name]
  else [.ident (table s.model), .text " AS ", .ident s.name]

def modelCol (table col : String) (qualify label : Bool) : List (Word L) :=
  (if qualify then [.ident table, .text "."] else []) ++ [.ident col]
    ++ if label then [.text " AS ", .ident col] else []

def joinedCol (alias_ col : String) : List (Word L) :=
  [.label alias_, .text ".", .ident col, .text " AS ", .label (alias_ ++ "__" ++ col)]

/-- `write_joined_projection`, or else a model column -/
def projectedCol (table : String) (qualify label : Bool) (col : String) : List (Word L) :=
  match joinedColumn col with
  | some joined => joinedCol joined.1 joined.2
  | none => modelCol table col qualify label

/-- What the outer SELECT of a window rewrite reads of a projected column. -/
def survivorCol (col : String) : List (Word L) :=
  match joinedColumn col with
  | some joined => [.label (joined.1 ++ "__" ++ joined.2)]
  | none => [.ident col]

def spread (items : List (List (Word L))) : List (Word L) :=
  (items.intersperse [.text ", "]).flatten

def joinCols (joins : List (JoinDraft L)) : List (Word L) :=
  joins.flatMap fun j => j.join.project.flatMap fun c => .text ", " :: joinedCol j.join.alias_ c

/-- The select list: the projection or every scalar field, then the columns the joins project. -/
def selectList (d : SelectDraft L) (projection : Option (List String)) (table : String)
    (qualify label : Bool) : List (Word L) :=
  spread (match projection with
    | some cols => cols.map (projectedCol table qualify label)
    | none => (L.schema d.query.model).scalarFields.map fun f => modelCol table f qualify label)
  ++ joinCols d.joins

def supportsNullsOrder : Dialect → Bool
  | .mysql => false
  | _ => true

def randomFn : Dialect → String
  | .mysql => "RAND"
  | _ => "RANDOM"

def offsetWithoutLimitClause : Dialect → Option String
  | .postgres => none
  | .mysql => some " LIMIT 18446744073709551615"
  | .sqlite => some " LIMIT -1"

def OrderItem.direction : OrderItem L → Bool × NullsOrder
  | .column _ desc nulls => (desc, nulls)
  | .expr _ desc nulls => (desc, nulls)
  | .random => (false, .default)

def nullsClause : NullsOrder → List (Word L)
  | .first => [.text " NULLS FIRST"]
  | .last => [.text " NULLS LAST"]
  | .default => []

/-- The sort terms of one item, whose key `target` writes: where there is no `NULLS` clause,
`<target> IS NULL` comes first. -/
def orderTerm (item : OrderItem L) (target : Act L) : Act L := reading fun e =>
  let direction := item.direction
  let main := seq [target, cond direction.1 (text " DESC")]
  if supportsNullsOrder e.dialect then seq [main, emit fun _ => nullsClause direction.2]
  else match direction.2 with
    | .default => main
    | .first => seq [target, text " IS NULL", text " DESC", text ", ", main]
    | .last => seq [target, text " IS NULL", text " ASC", text ", ", main]

def writeLimitOffset (limit offset : Option Int) : Act L := emit fun e =>
  (match limit with
    | some n => [.text " LIMIT ", .text (toString n)]
    | none =>
      if offset.isSome then (offsetWithoutLimitClause e.dialect).toList.map .text else [])
  ++ match offset with
    | some n => [.text " OFFSET ", .text (toString n)]
    | none => []

/-- `write_order_limit_offset_with`: the items with the writers of their sort keys -/
def writeOrderLimitOffsetWith (items : List (OrderItem L × Act L)) (limit offset : Option Int) :
    Act L :=
  seq [cond (!items.isEmpty)
      (seq [text " ORDER BY ", commas (items.map fun item => orderTerm item.1 item.2)]),
    writeLimitOffset limit offset]

def writeOrderLimitOffset (orderBy : List (OrderDraft L)) (limit offset : Option Int) : Act L :=
  writeOrderLimitOffsetWith (orderBy.map fun o => (o.item, o.target)) limit offset

def writeLockClause (lock : LockMode) : Act L := emit fun e =>
  if e.dialect = .sqlite then []
  else [.text " FOR ",
      .text (if lock.noKey && e.dialect = .postgres then "NO KEY UPDATE" else "UPDATE")]
    ++ (if lock.of_.isEmpty then [] else .text " OF " :: spread (lock.of_.map fun t => [.ident t]))
    ++ if lock.skipLocked then [.text " SKIP LOCKED"]
      else if lock.nowait then [.text " NOWAIT"] else []

def joinKeyword (d : Dialect) : JoinKind → Except SqlError String
  | .inner => .ok "INNER JOIN"
  | .left => .ok "LEFT JOIN"
  | .right => if d = .sqlite then .error (.joinKindNotSupported "RIGHT" d) else .ok "RIGHT JOIN"
  | .full => if d = .postgres then .ok "FULL OUTER JOIN" else .error (.joinKindNotSupported "FULL" d)

def writeModelJoin (j : JoinDraft L) : Act L := reading fun e =>
  match joinKeyword e.dialect j.join.kind with
  | .error error => fail error
  | .ok keyword =>
    if j.join.on_.isEmpty then fail .emptyJoinOnCondition
    else seq [emit fun _ => [.text " ", .text keyword, .text " ", .ident (table j.join.target),
        .text " AS ", .label j.join.alias_, .text " ON "],
      under (fun e =>
        (e.withQualifier (some (.join j.join.alias_))).withColumnsOf (some j.join.target)) j.on_]

def writeModelJoins (joins : List (JoinDraft L)) : Act L := seq (joins.map writeModelJoin)

def derivedKeyword (d : Dialect) : JoinKind → Except SqlError String
  | .inner => .ok "INNER JOIN"
  | .left => .ok "LEFT JOIN"
  | .right => .error (.joinKindNotSupported "RIGHT (subquery)" d)
  | .full => .error (.joinKindNotSupported "FULL (subquery)" d)

/-- MariaDB has no `LATERAL`: the word it reads names the reason. -/
def writeLateral : Act L := reading fun e =>
  match e.dialect with
  | .sqlite => fail (.lateralJoinNotSupported .sqlite)
  | .mysql => emit fun _ => [.text " ",
    .text "/*!80000 LATERAL */ /*M! ~ LATERAL_JOIN_IS_NOT_SUPPORTED_ON_MARIADB */"]
  | .postgres => text " LATERAL"

def writeSubqueryJoin (j : SubqueryJoinDraft L) : Act L := reading fun e =>
  match derivedKeyword e.dialect j.join.kind with
  | .error error => fail error
  | .ok keyword => seq [emit fun _ => [.text " ", .text keyword], cond j.join.lateral writeLateral,
      text " (", j.subquery, emit fun _ => [.text ") AS ", .ident j.join.alias_],
      if j.join.on_.isEmpty then text " ON true"
      else seq [text " ON ",
        under (fun e => (e.withQualifier (some (.join j.join.alias_))).withColumnsOf none) j.on_]]

def writeSubqueryJoins (joins : List (SubqueryJoinDraft L)) : Act L :=
  seq (joins.map writeSubqueryJoin)

-- The writer of a search over columns, and what it binds.
variable (search : Option L.Model → SearchClause → Env L → List (Word L))

def writeWhereWithSearch (whereClause : Act L) (isEmpty : Bool) (clause : Option SearchClause)
    (model : Option L.Model) : Act L :=
  let whereClause := under (fun e => e.withColumnsOf model) whereClause
  match isEmpty, clause.filter fun s => s.query ≠ "" with
  | true, none => seq []
  | false, none => seq [text " WHERE ", whereClause]
  | true, some s => seq [text " WHERE ", emit (search model s)]
  | false, some s =>
    seq [text " WHERE ", text "(", whereClause, text ")", text " AND ", emit (search model s)]

def orderLabel (i : Nat) : String := "__rustango_order" ++ toString i

/-- `helper_expr`: an `ORDER BY` expression that is not a plain column -/
def OrderItem.isHelper : OrderItem L → Bool
  | .expr (.column _) _ _ => false
  | .expr (.aliasedColumn _ _) _ _ => false
  | .column _ _ _ => false
  | .random => false
  | .expr _ _ _ => true

/-- `distinct_order_helpers`: under DISTINCT, an `ORDER BY` term the select list lacks -/
def OrderItem.needsHelper (joins : List (Join L)) (projection : Option (List String)) :
    OrderItem L → Bool
  | .expr (.aliasedColumn alias_ col) _ _ =>
    !joins.any fun j => j.alias_ = alias_ && j.project.contains col
  | .column col _ _ => !projection.all fun cols => cols.contains col
  | .expr (.column col) _ _ => !projection.all fun cols => cols.contains col
  | .random => false
  | .expr _ _ _ => true

def OrderItem.isRandom : OrderItem L → Bool
  | .random => true
  | _ => false

def writeHelper (i : Nat) (o : OrderDraft L) : Act L :=
  seq [o.target, emit fun _ => [.text " AS ", .ident (orderLabel i)]]

/-- The items of `orderBy` that `keep` keeps, each at its position. -/
def positioned (keep : OrderItem L → Bool) (orderBy : List (OrderDraft L)) :
    List (OrderDraft L × Nat) :=
  orderBy.zipIdx.filter fun o => keep o.1.item

namespace SelectDraft
variable (d : SelectDraft L) (projection : Option (List String))

def qualifies : Bool := !d.joins.isEmpty || !d.subqueryJoins.isEmpty

def writeFrom : Act L := emit fun e => (e.scopeOr d.query.model).fromItem

/-- Everything a SELECT body writes from `FROM` to `WHERE`. -/
def writeSources : Act L :=
  seq [d.writeFrom, writeModelJoins d.joins, writeSubqueryJoins d.subqueryJoins,
    writeWhereWithSearch search d.whereClause d.query.whereClause.isEmpty d.query.search
      (some d.query.model)]

/-- The inner SELECT of the window rewrite, which ranks the rows, and the outer order and slice. -/
def writeRanked (cols : List String) : Act L := reading fun e =>
  let name := (e.scopeOr d.query.model).name
  let rankTarget := fun o : OrderDraft L => match o.item with
    | .column column _ _ => emit fun _ => modelCol name column d.qualifies false
    | _ => o.target
  let survivorTarget := fun o : OrderDraft L × Nat =>
    if o.1.item.isRandom then o.1.target else writeIdent (orderLabel o.2)
  seq [
    emit fun _ => .text "(" :: .text "SELECT " :: selectList d projection name d.qualifies false,
    further ((positioned (fun item => !item.isRandom) d.orderBy).map fun o => writeHelper o.2 o.1),
    emit fun _ => .text ", ROW_NUMBER() OVER (PARTITION BY " ::
      spread (cols.map fun c => modelCol name c d.qualifies false),
    writeOrderLimitOffsetWith (d.orderBy.map fun o => (o.item, rankTarget o)) none none,
    text ") AS __rn FROM ",
    d.writeSources search,
    text ") sub WHERE sub.__rn = 1",
    under (fun e => e.withQualifier none)
      (writeOrderLimitOffsetWith (d.orderBy.zipIdx.map fun o => (o.1.item, survivorTarget o))
        d.query.limit d.query.offset)]

/-- `write_distinct_on_via_window`: `DISTINCT ON` as a ranking, off Postgres -/
def writeDistinctOnViaWindow (cols : List String) : Act L :=
  seq [
    emit fun _ => .text "SELECT " :: (spread (match projection with
        | some cols => cols.map survivorCol
        | none => (L.schema d.query.model).scalarFields.map fun f => [.ident f])
      ++ d.joins.flatMap fun j => j.join.project.flatMap fun c =>
        [.text ", ", .label (j.join.alias_ ++ "__" ++ c)]),
    takeChildCount "sub",
    text " FROM ",
    d.writeRanked search projection cols]

def distinctKeyword : Option DistinctMode → List (Word L)
  | none => []
  | some .all => [.text "DISTINCT "]
  | some (.on_ cols) =>
    .text "DISTINCT ON (" :: spread (cols.map fun c => [.ident c]) ++ [.text ") "]

/-- The order terms DISTINCT adds to the select list. -/
def helpers : List (OrderDraft L × Nat) :=
  positioned (OrderItem.needsHelper d.query.joins projection) d.orderBy

def needsHelpers : Bool := d.query.distinct.isSome && !(d.helpers projection).isEmpty

/-- What a SELECT body writes after `FROM`. `adds`: its DISTINCT added helper columns, by whose names it
sorts. `drops`: it leaves its order out. -/
def writeRest (lock : Option LockMode) (adds drops : Bool) : Act L :=
  seq [
    d.writeSources search,
    if adds then
      writeOrderLimitOffsetWith (d.orderBy.zipIdx.map fun o =>
        (o.1.item, if o.1.item.isHelper then writeIdent (orderLabel o.2) else o.1.target))
        d.query.limit d.query.offset
    else writeOrderLimitOffset (if drops then [] else d.orderBy) d.query.limit d.query.offset,
    match lock with
    | some lock => writeLockClause lock
    | none => seq []]

/-- The SELECT body where the dialect has its DISTINCT. `orderHelpers`: it may add the helper
columns of DISTINCT. -/
def writePlainBody (lock : Option LockMode) (orderHelpers label : Bool) : Act L := reading fun e =>
  let name := (e.scopeOr d.query.model).name
  let adds := orderHelpers && d.needsHelpers projection
  let drops := d.needsHelpers projection && !orderHelpers && d.query.limit.isNone
    && d.query.offset.isNone
  seq [
    emit fun _ => .text "SELECT " :: distinctKeyword d.query.distinct
      ++ selectList d projection name d.qualifies label,
    cond adds (further ((d.helpers projection).map fun o => writeHelper o.2 o.1)),
    takeTotal,
    takeChildCount name,
    text " FROM ",
    d.writeRest search lock adds drops]

/-- `write_select_body_qualified` -/
def writeBodyQualified (lock : Option LockMode) (orderHelpers : Bool) : Act L :=
  takeLabel fun label => reading fun e =>
    match d.query.distinct, e.dialect with
    | some (.on_ cols), .mysql => d.writeDistinctOnViaWindow search projection cols
    | some (.on_ cols), .sqlite => d.writeDistinctOnViaWindow search projection cols
    | _, _ => d.writePlainBody search projection lock orderHelpers (label && d.qualifies)

/-- `write_select_inner` and `write_select_body` -/
def writeInner (lock : Option LockMode) (orderHelpers : Bool) : Act L :=
  under (fun e =>
    (e.withJoinTypes (d.joins.map fun j => (j.join.alias_, j.join.target))).withQualifier
      (if d.qualifies then some (.base (e.scopeOr d.query.model).name) else none))
    (d.writeBodyQualified search projection lock orderHelpers)

end SelectDraft

def widenColumns (cols extra : List String) : List String :=
  extra.foldl (fun cols c => if cols.contains c then cols else cols ++ [c]) cols

mutual

/-- Whether a wider row would change what counts as a duplicate. -/
def SelectQuery.dedupes : SelectQuery L → Bool
  | ⟨_, _, _, _, _, _, _, _, _, compound, _, distinct, _, _, _, _⟩ =>
    distinct == some .all || SelectQuery.dedupesAny compound
termination_by structural q => q

def SelectQuery.dedupesAny : List (CompoundBranch L) → Bool
  | [] => false
  | ⟨op, query⟩ :: branches =>
    op != .unionAll || query.dedupes || SelectQuery.dedupesAny branches
termination_by structural branches => branches

end

def setOpKeyword : SetOp → String
  | .union => "UNION"
  | .unionAll => "UNION ALL"
  | .intersection => "INTERSECT"
  | .difference => "EXCEPT"

/-- Which branches close the chain before them: an INTERSECT after a UNION or EXCEPT. -/
def wraps : Bool → List SetOp → List Bool
  | _, [] => []
  | mixed, op :: ops =>
    let wrap := op == .intersection && mixed
    wrap :: wraps ((mixed && !wrap) || op != .intersection) ops

/-- A branch's frame replaces the head's. -/
def Env.branch (e : Env L) (model : L.Model) : Env L :=
  let outer := { e with scopes := e.scopes.tail }
  outer.push (outer.correlatedScope model)

def SelectQuery.isScoped (q : SelectQuery L) : Bool :=
  !q.orderBy.isEmpty || q.limit.isSome || q.offset.isSome

def wrapped (label : String) (a : Act L) : Act L :=
  seq [text "SELECT * FROM (", a, emit fun _ => [.text ")", .text " AS ", .ident label]]

def BranchDraft.act (b : BranchDraft L) (extra : List String) (i : Nat) (wrap : Bool) : Act L :=
  let query := b.branch.query
  let label := "__rustango_b" ++ toString (i + 1)
  seq [cond wrap (emit fun _ => [.text ") AS ", .ident ("__rustango_l" ++ toString i)]),
    emit fun _ => [.text " ", .text (setOpKeyword b.branch.op), .text " "],
    under (fun e => e.branch query.model)
      (if query.isScoped || !query.compound.isEmpty then wrapped label (b.write extra)
      else b.write extra)]

namespace SelectDraft
variable (d : SelectDraft L)

/-- The projection, widened by the columns an enclosing set operation is ordered by. -/
def projection (extra : List String) : Option (List String) :=
  d.query.projection.map fun cols => widenColumns cols extra

/-- The set operation with `order`, `limit`, `offset` and `lock` for its merged rows. -/
def writeMerged (extra : List String) (order : List (OrderDraft L)) (limit offset : Option Int)
    (lock : Option LockMode) : Act L :=
  let wraps := wraps false (d.compound.map fun b => b.branch.op)
  let head := d.writeInner search (d.projection extra) none false
  seq [seq ((wraps.filter id).map fun _ => text "SELECT * FROM ("),
    setLabel,
    if d.query.isScoped then wrapped "__rustango_b0" head else head,
    seq ((d.compound.zip wraps).zipIdx.map fun b => b.1.1.act extra b.2 b.1.2),
    writeOrderLimitOffset order limit offset,
    match lock with
    | some lock => writeLockClause lock
    | none => seq []]

/-- `order_cols_outside_projection` -/
def orderColsOutside (projection : Option (List String)) : List String :=
  match projection with
  | none => []
  | some cols => (d.query.compoundOrderBy.filterMap fun item => match item with
      | .column column _ _ =>
        if cols.contains column || !(L.schema d.query.model).fields.contains column then none
        else some column
      | _ => none).eraseDups

/-- `write_compound_ordered_outside` -/
def writeOrderedOutside (extra outside : List String) : Act L :=
  if d.query.dedupes then fail (.setOpOrderOutsideProjection (outside.headD ""))
  else seq [
    emit fun _ => .text "SELECT " :: spread (
      ((d.projection extra).getD []).map survivorCol
      ++ d.joins.flatMap fun j => j.join.project.map fun c => [.label (j.join.alias_ ++ "__" ++ c)]),
    text " FROM ", text "(",
    d.writeMerged search (extra ++ outside) [] none none none,
    emit fun _ => [.text ") AS ", .ident "__rustango_set"],
    writeOrderLimitOffset d.compoundOrderBy d.query.compoundLimit d.query.compoundOffset,
    match d.query.lockMode with
    | some lock => writeLockClause lock
    | none => seq []]

def writeCompound (extra : List String) : Act L :=
  let outside := d.orderColsOutside (d.projection extra)
  if outside.isEmpty then
    d.writeMerged search extra d.compoundOrderBy d.query.compoundLimit d.query.compoundOffset
      d.query.lockMode
  else d.writeOrderedOutside search extra outside

/-- The SELECT or set operation in the scope that is open, as a branch is written. -/
def writeBranch (extra : List String) : Act L :=
  if d.query.compound.isEmpty then
    d.writeInner search (d.projection extra) d.query.lockMode false
  else d.writeCompound search extra

def writeAs (scope : Env L → Scope L) (orderHelpers : Bool) : Act L :=
  under (fun e => e.push (scope e))
    (if d.query.compound.isEmpty then
      d.writeInner search d.query.projection d.query.lockMode orderHelpers
    else d.writeCompound search [])

/-- A SELECT that may correlate to the enclosing query. -/
def write : Act L := reading fun e =>
  d.writeAs search (fun e => e.correlatedScope d.query.model) e.scopes.isEmpty

/-- A derived-table SELECT, which cannot see the query it feeds. -/
def writeDerived : Act L := d.writeAs search (fun _ => .plain d.query.model) false

end SelectDraft

end Rustango.Writer
