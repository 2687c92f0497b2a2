import Rustango.Lib.Outcome
import Rustango.Query.Ir

/-!
# Querysets

The lazy builder over one model, and what it compiles to: a `SELECT`, a `DELETE` or an `UPDATE`.
`Core` holds what the builder asks of the rest of the crate.
-/

namespace Rustango.Query

open Rustango.Outcome

variable {L : Lang}

/-- A lookup key once its suffix is read. -/
inductive ParsedLookup (L : Lang) where
  | raw (field : String) (op : Op) (value : L.Value)
  | dateTransform (field : String) (transform : Expr L → Expr L) (op : Op) (value : L.Value)
  | relationSpan (rawKey : String) (value : L.Value)

/-- The registry of models, the lookup grammar, and the checks of values and columns. -/
structure Core (L : Lang) where
  forTable : String → Option (ModelSchema L)
  forTable_table : ∀ t s, forTable t = some s → s.table = t
  parseLookup : String → L.Value → Except QueryError (ParsedLookup L)
  checkValueType : ModelSchema L → FieldSchema → Op → L.Value → Except QueryError Unit
  validate : ModelSchema L → WhereExpr L Empty → Except QueryError Unit
  validateExpr : ModelSchema L → Expr L → Except QueryError Unit
  sameExpr : Expr L → Expr L → Bool

inductive PendingFilter (L : Lang) where
  | raw (field : String) (op : Op) (value : L.Value)
  | dateTransform (field : String) (transform : Expr L → Expr L) (op : Op) (value : L.Value)
  | resolved (filter : Filter L)
  | expr (expr : WhereExpr L Empty)
  | negated (inner : PendingFilter L)
  | relationSpan (rawKey : String) (value : L.Value)
  | error (e : QueryError)

inductive PendingOrderItem (L : Lang) where
  | field (name : String) (desc : Bool) (nulls : NullsOrder)
  | expr (expr : Expr L) (desc : Bool) (nulls : NullsOrder)
  | random

/-- A queryset over `model`. -/
structure QuerySet (L : Lang) where
  model : ModelSchema L
  pending : List (PendingFilter L)
  limit : Option Int
  offset : Option Int
  distinct : Option DistinctMode
  selectRelated : List String
  adHocJoins : List (Join L)
  subqueryJoins : List (SubqueryJoin L)
  orderBy : List (PendingOrderItem L)
  reversed : Bool
  lockMode : Option LockMode
  compound : List (CompoundBranch L)
  headOrderBy : List (PendingOrderItem L)
  headLimit : Option Int
  headOffset : Option Int
  isNone : Bool
  disabledGlobalScopes : List String
  disableAllGlobalScopes : Bool

def parseToPending (core : Core L) (key : String) (value : L.Value) : PendingFilter L :=
  match core.parseLookup key value with
  | .ok (.raw field op value) => .raw field op value
  | .ok (.dateTransform field transform op value) => .dateTransform field transform op value
  | .ok (.relationSpan rawKey value) => .relationSpan rawKey value
  | .error e => .error e

namespace QuerySet

def new (model : ModelSchema L) : QuerySet L where
  model := model
  pending := []
  limit := none
  offset := none
  distinct := none
  selectRelated := []
  adHocJoins := []
  subqueryJoins := []
  orderBy := []
  reversed := false
  lockMode := none
  compound := []
  headOrderBy := []
  headLimit := none
  headOffset := none
  isNone := false
  disabledGlobalScopes := []
  disableAllGlobalScopes := false

def filter (core : Core L) (q : QuerySet L) (key : String) (value : L.Value) : QuerySet L :=
  { q with pending := q.pending ++ [parseToPending core key value] }

def exclude (core : Core L) (q : QuerySet L) (key : String) (value : L.Value) : QuerySet L :=
  { q with pending := q.pending ++ [.negated (parseToPending core key value)] }

def whereRaw (q : QuerySet L) (expr : WhereExpr L Empty) : QuerySet L :=
  { q with pending := q.pending ++ [.expr expr] }

/-- The queryset that matches no row, whatever is chained after it. -/
def none_ (q : QuerySet L) : QuerySet L := { q with isNone := true }

def distinctRows (q : QuerySet L) : QuerySet L := { q with distinct := some .all }

def distinctOn (q : QuerySet L) (fields : List String) : QuerySet L :=
  { q with distinct := some (.on_ fields) }

def limit_ (q : QuerySet L) (n : Int) : QuerySet L := { q with limit := some n }

def offset_ (q : QuerySet L) (n : Int) : QuerySet L := { q with offset := some n }

def orderBy_ (q : QuerySet L) (items : List (String × Bool)) : QuerySet L :=
  { q with orderBy := q.orderBy ++ items.map fun i => .field i.1 i.2 .default }

def orderByExpr (q : QuerySet L) (expr : Expr L) (desc : Bool) : QuerySet L :=
  { q with orderBy := q.orderBy ++ [.expr expr desc .default] }

def orderRandom (q : QuerySet L) : QuerySet L := { q with orderBy := q.orderBy ++ [.random] }

def reverse (q : QuerySet L) : QuerySet L := { q with reversed := !q.reversed }

def join (q : QuerySet L) (j : Join L) : QuerySet L := { q with adHocJoins := q.adHocJoins ++ [j] }

def flipNulls : NullsOrder → NullsOrder
  | .first => .last
  | .last => .first
  | .default => .default

end QuerySet

/-- The other direction, NULLs at the same logical end. -/
def PendingOrderItem.flip : PendingOrderItem L → PendingOrderItem L
  | .field name desc nulls => .field name (!desc) (QuerySet.flipNulls nulls)
  | .expr x desc nulls => .expr x (!desc) (QuerySet.flipNulls nulls)
  | .random => .random

namespace QuerySet

/-- Under `distinct_on(cols)` only the leading `cols` keys flip, so each group keeps its row. -/
def flipOrderBy (q : QuerySet L) : QuerySet L :=
  let keys := match q.distinct with
    | some (.on_ cols) => cols.length
    | _ => q.orderBy.length
  { q with orderBy := (q.orderBy.take keys).map PendingOrderItem.flip ++ q.orderBy.drop keys }

/-- A pending `reverse`, once. -/
def applyReverse (q : QuerySet L) : QuerySet L :=
  if q.reversed then ({ q with reversed := false } : QuerySet L).flipOrderBy else q

/-- The schema's scopes go before the filters, minus the opt-outs. -/
def applyGlobalScopes (q : QuerySet L) : QuerySet L :=
  if q.disableAllGlobalScopes then q
  else { q with
    pending := (q.model.globalScopeExprs q.disabledGlobalScopes).map PendingFilter.expr ++ q.pending }

/-- The first set operation freezes the order and slice of the head, so what is chained after it
acts on the combined rows. -/
def addCompoundCompiled (q : QuerySet L) (op : SetOp) (branch : SelectQuery L) : QuerySet L :=
  let q := if q.compound.isEmpty then
      let q := q.applyReverse
      { q with
        headOrderBy := q.orderBy
        headLimit := q.limit
        headOffset := q.offset
        orderBy := []
        limit := none
        offset := none }
    else q
  { q with compound := q.compound ++ [⟨op, branch⟩] }

/-- A write carries no set operation and no join; dropping one would widen it. -/
def refuseUnwritableShape (q : QuerySet L) : Except QueryError Unit :=
  if !q.compound.isEmpty then .error (.setOperationDml q.model.name)
  else if !q.adHocJoins.isEmpty || !q.subqueryJoins.isEmpty then .error (.joinDml q.model.name)
  else .ok ()

end QuerySet

section Relations
variable (core : Core L)

/-- The deepest relation path. -/
def maxRelationHops : Nat := 6

def internJoinAlias (path : String) : Except QueryError String :=
  if maxRelationHops < (path.splitOn "__").length
  then .error (.relationPathTooDeep path maxRelationHops) else .ok path

/-- The join of one FK hop from `prev` to `target`. -/
def relationJoin (target : ModelSchema L) (prev column alias_ on_ : String)
    (project : List String) : Join L where
  target := target
  alias_ := alias_
  kind := .left
  on_ := .exprCompare (.aliasedColumn prev column) .eq (.aliasedColumn alias_ on_)
  project := project

def pushJoin (joins : List (Join L)) (j : Join L) : List (Join L) :=
  if joins.any fun e => e.alias_ = j.alias_ then joins else joins ++ [j]

/-- Where a walk along a relation path stands; `path` is the alias of the last hop. -/
structure Hops (L : Lang) where
  joins : List (Join L)
  current : ModelSchema L
  path : Option String

/-- What the next hop joins against: the main table, or the last hop. -/
def Hops.prevAlias (h : Hops L) (model : ModelSchema L) : String := h.path.getD model.table

/-- The alias of the next hop: the field's name, then the path so far. -/
def Hops.nextAlias (h : Hops L) (seg : String) : Except QueryError String :=
  match h.path with
  | none => .ok seg
  | some path => internJoinAlias (path ++ "__" ++ seg)

/-- Walks the FK hops of a lookup; the segments from the terminal column on are left over. -/
def spanHops (model : ModelSchema L) :
    Hops L → List String → Except QueryError (Hops L × List String)
  | h, [] => .ok (h, [])
  | h, [seg] => .ok (h, [seg])
  | h, seg :: rest =>
    match (h.current.field seg).bind fun f => f.relation.map fun r => (f, r.target) with
    | none => .ok (h, seg :: rest)
    | some (f, to_, on_) => do
      let target ← okOr (core.forTable to_) (.unknownField h.current.name
        (seg ++ " (target table `" ++ to_ ++ "` not registered)"))
      let alias_ ← h.nextAlias seg
      let join := relationJoin target (h.prevAlias model) f.column alias_ on_ []
      spanHops model ⟨h.joins ++ [join], target, some alias_⟩ rest

/-- The FK chain of a relation-spanning key, and its segments from the terminal column on. -/
def resolveSpanChain (model : ModelSchema L) (rawKey : String) :
    Except QueryError (Hops L × List String) := do
  let segs := rawKey.splitOn "__"
  let (h, terminal) ← spanHops core model ⟨[], model, none⟩ segs
  if h.joins.isEmpty then .error (.unknownLookup (segs.headD "") ("__".intercalate segs.tail))
  else .ok (h, terminal)

/-- A relation-spanning filter: its joins and its predicate on the terminal column. -/
def resolveSpan (model : ModelSchema L) (rawKey : String) (value : L.Value) :
    Except QueryError (List (Join L) × WhereExpr L Empty) := do
  let (h, terminal) ← resolveSpanChain core model rawKey
  let name := terminal.headD ""
  let field ← okOr (h.current.field name) (.unknownField h.current.name name)
  let column : Expr L := .aliasedColumn (h.prevAlias model) field.column
  match terminal.tail with
  | [] => .ok (h.joins, .exprCompare column .eq (.literal value))
  | suffix =>
    match ← core.parseLookup (field.name ++ "__" ++ "__".intercalate suffix) value with
    | .raw _ op value => .ok (h.joins, .exprCompare column op (.literal value))
    | .dateTransform _ transform op value =>
      .ok (h.joins, .exprCompare (transform column) op (.literal value))
    | .relationSpan _ _ => .error (.unknownLookup field.name ("__".intercalate suffix))

/-- One hop of `select_related`; a hop shared with an earlier name is already joined. -/
def selectRelatedHop (model : ModelSchema L) (name : String) (depth : Nat) (h : Hops L)
    (hop : String) : Except QueryError (Hops L) := do
  let place := "(hop " ++ toString (depth + 1) ++ " of chain `" ++ name ++ "`"
  let field ← okOr (h.current.field hop) (.selectRelatedInvalid h.current.name name
    ("no field `" ++ hop ++ "` on `" ++ h.current.name ++ "` " ++ place ++ ")"))
  let relation ← okOr field.relation (.selectRelatedInvalid h.current.name name
    ("`" ++ hop ++ "` on `" ++ h.current.name ++ "` is not a `ForeignKey<T>` field " ++ place ++ ")"))
  let (to_, on_) := relation.target
  let target ← okOr (core.forTable to_) (.selectRelatedInvalid h.current.name name
    ("target table `" ++ to_ ++ "` is not registered " ++ place ++ " — is `" ++ h.current.name ++
      "`'s `#[derive(Model)]` linked into the binary?)"))
  let alias_ ← h.nextAlias hop
  let join := relationJoin target (h.prevAlias model) field.column alias_ on_
    (target.fields.map (·.column))
  .ok ⟨pushJoin h.joins join, target, some alias_⟩

def selectRelatedHops (model : ModelSchema L) (name : String) :
    Nat → Hops L → List String → Except QueryError (Hops L)
  | _, h, [] => .ok h
  | depth, h, hop :: hops => do
    let h ← selectRelatedHop core model name depth h hop
    selectRelatedHops model name (depth + 1) h hops

/-- The joins of the `select_related` names, one after another. -/
def lowerSelectRelated (model : ModelSchema L) (names : List String) :
    Except QueryError (List (Join L)) :=
  names.foldlM (fun joins name =>
    let hops := name.splitOn "__"
    if hops.any (· = "") then
      .error (.selectRelatedInvalid model.name name ("empty hop in chain `" ++ name ++
        "` (use `field` or `field__nested`, not `field____nested`)"))
    else (selectRelatedHops core model name 0 ⟨joins, model, none⟩ hops).map (·.joins)) []

/-- Joins the table of a lookup, unless its path is joined already. An ad-hoc join under the alias is
reused only if it joins the same table on the same columns. -/
def sameJoin (a b : Join L) : Bool :=
  a.target.table = b.target.table &&
    match a.on_, b.on_ with
    | .exprCompare l .eq r, .exprCompare l' .eq r' =>
      (core.sameExpr l' l && core.sameExpr r' r) || (core.sameExpr l' r && core.sameExpr r' l)
    | _, _ => false

def mergeRelationJoin (adHoc : List String) (joins : List (Join L)) (j : Join L) :
    Except QueryError (List (Join L)) :=
  match joins.find? fun e => e.alias_ = j.alias_ with
  | some e => if j.alias_ ∈ adHoc && !sameJoin core e j then .error (.duplicateJoinAlias j.alias_)
      else .ok joins
  | none => .ok (joins ++ [j])

-- Its equations are derived here, once for all the proofs that unfold it.
attribute [local simp] spanHops

end Relations

section Resolve
variable (core : Core L) (model : ModelSchema L)

def resolveOnePending : PendingFilter L → Except QueryError (WhereExpr L Empty)
  | .raw name op value => do
    let field ← okOr (model.field name) (.unknownField model.name name)
    core.checkValueType model field op value
    .ok (.predicate ⟨field.column, op, value⟩)
  | .dateTransform name transform op value => do
    let field ← okOr (model.field name) (.unknownField model.name name)
    .ok (.exprCompare (transform (.column field.column)) op (.literal value))
  | .resolved filter => do
    core.validate model (.predicate filter)
    .ok (.predicate filter)
  | .expr expr => do
    core.validate model expr
    .ok expr
  | .negated inner => do
    let w ← resolveOnePending inner
    .ok (.not w)
  -- Only a `SELECT` lowers spans before it resolves; here none can be joined.
  | .relationSpan rawKey value => do
    let _ ← resolveSpan core model rawKey value
    .error (.relationSpanUnsupportedHere rawKey)
  | .error e => .error e

def resolvePending (pending : List (PendingFilter L)) : Except QueryError (WhereExpr L Empty) :=
  (pending.mapM (resolveOnePending core model)).map .and

/-- A relation span becomes its predicate, and its joins are added to `joins`. -/
def convertRelationSpan (joins : List (Join L)) :
    PendingFilter L → Except QueryError (PendingFilter L × List (Join L))
  | .relationSpan rawKey value => do
    let (js, predicate) ← resolveSpan core model rawKey value
    .ok (.expr predicate, js.foldl pushJoin joins)
  | .negated inner => do
    let (inner, joins) ← convertRelationSpan joins inner
    .ok (.negated inner, joins)
  | other => .ok (other, joins)

def lowerRelationSpans :
    List (Join L) → List (PendingFilter L) → Except QueryError (List (PendingFilter L) × List (Join L))
  | joins, [] => .ok ([], joins)
  | joins, p :: ps => do
    let (p, joins) ← convertRelationSpan core model joins p
    let (ps, joins) ← lowerRelationSpans joins ps
    .ok (p :: ps, joins)

/-- One `ORDER BY` item, with the joins a relation path needs. -/
def lowerOrderItem : PendingOrderItem L → Except QueryError (OrderItem L × List (Join L))
  | .field name desc nulls =>
    match model.field name with
    | some field => .ok (.column field.column desc nulls, [])
    | none =>
      if 1 < (name.splitOn "__").length then do
        let (h, terminal) ← resolveSpanChain core model name
        match terminal with
        | [seg] => do
          let field ← okOr (h.current.field seg) (.unknownField h.current.name seg)
          .ok (.expr (.aliasedColumn (h.prevAlias model) field.column) desc nulls, h.joins)
        | _ => .error (.unknownField h.current.name name)
      else .error (.unknownField model.name name)
  | .expr expr desc nulls => .ok (.expr expr desc nulls, [])
  | .random => .ok (.random, [])

def lowerOrderItems (items : List (PendingOrderItem L)) :
    Except QueryError (List (OrderItem L) × List (Join L)) := do
  let lowered ← items.mapM (lowerOrderItem core model)
  .ok (lowered.map (·.1), (lowered.flatMap (·.2)).foldl pushJoin [])

def orderByColumnNames (orderBy : List (OrderItem L)) : List String :=
  orderBy.map fun
    | .column column _ _ => column
    | .expr _ _ _ => "<expr>"
    | .random => "RANDOM"

/-- `item` is a bare column of that name. -/
def isColumn (item : OrderItem L) (col : String) : Bool :=
  match item with
  | .column column _ _ => column = col
  | _ => false

/-- `distinct_on` needs its columns at the head of the order. -/
def checkDistinct (orderBy : List (OrderItem L)) : Option DistinctMode → Except QueryError Unit
  | some (.on_ cols) =>
    if cols.isEmpty then .error .distinctOnEmpty
    else match cols.find? fun c => (model.fieldByColumn c).isNone with
      | some col => .error (.unknownField model.name col)
      | none =>
        if orderBy.length < cols.length ∨ ¬ (orderBy.zip cols).all fun p => isColumn p.1 p.2 then
          .error (.distinctOnOrderByMismatch cols (orderByColumnNames orderBy))
        else .ok ()
  | _ => .ok ()

-- Their equations are derived here, once for all the proofs that unfold them.
attribute [local simp] resolveOnePending convertRelationSpan lowerOrderItem

end Resolve

section Compile
variable (core : Core L)

/-- The joins of the `select_related` names, then the ad-hoc ones. -/
def addAdHocJoins (joins adHoc : List (Join L)) : Except QueryError (List (Join L)) :=
  adHoc.foldlM (fun joins j =>
    if joins.any fun e => e.alias_ = j.alias_ then .error (.duplicateJoinAlias j.alias_)
    else .ok (joins ++ [j])) joins

def QuerySet.compile (q : QuerySet L) : Except QueryError (SelectQuery L) := do
  let q := q.applyGlobalScopes.applyReverse
  let (pending, spanJoins) ← lowerRelationSpans core q.model [] q.pending
  let whereClause ← resolvePending core q.model pending
  let joins ← lowerSelectRelated core q.model q.selectRelated
  let joins ← addAdHocJoins joins q.adHocJoins
  let adHoc := q.adHocJoins.map (·.alias_)
  let joins ← spanJoins.foldlM (mergeRelationJoin core adHoc) joins
  -- With a set operation the head has its own slots and the live ones act on the combined rows.
  let hasCompound := !q.compound.isEmpty
  let (headOrderBy, headLimit, headOffset) :=
    if hasCompound then (q.headOrderBy, q.headLimit, q.headOffset)
    else (q.orderBy, q.limit, q.offset)
  let (combOrderBy, combLimit, combOffset) :=
    if hasCompound then (q.orderBy, q.limit, q.offset) else ([], none, none)
  let (orderBy, orderJoins) ← lowerOrderItems core q.model headOrderBy
  let (compoundOrderBy, combOrderJoins) ← lowerOrderItems core q.model combOrderBy
  let joins ← (orderJoins ++ combOrderJoins).foldlM (mergeRelationJoin core adHoc) joins
  checkDistinct q.model orderBy q.distinct
  -- `LIMIT 0` goes on the outermost slot.
  let (limit, compoundLimit) :=
    if q.isNone then
      if hasCompound then (headLimit, some 0) else (some 0, combLimit)
    else (headLimit, combLimit)
  .ok {
    model := q.model
    whereClause := whereClause
    joins := joins
    subqueryJoins := q.subqueryJoins
    orderBy := orderBy
    limit := limit
    offset := headOffset
    lockMode := q.lockMode
    compound := q.compound
    projection := none
    distinct := q.distinct
    compoundOrderBy := compoundOrderBy
    compoundLimit := compoundLimit
    compoundOffset := combOffset }

/-- Combines two querysets; a branch that does not compile is a panic, which is `none` here. -/
def QuerySet.addCompound (q : QuerySet L) (op : SetOp) (other : QuerySet L) : Option (QuerySet L) :=
  match other.compile core with
  | .ok branch => some (q.addCompoundCompiled op branch)
  | .error _ => none

end Compile

section Dml
variable (core : Core L) (ofBool : Bool → L.Value)

/-- Adds `<primary key> IS NULL`, which no row satisfies. -/
def neverMatchClause (model : ModelSchema L) (base : WhereExpr L Empty) :
    Except QueryError (WhereExpr L Empty) := do
  let pk ← okOr model.primaryKey (.unknownField model.name "<primary_key>")
  let never : WhereExpr L Empty := .predicate ⟨pk.column, .isNull, ofBool true⟩
  .ok (match base with
    | .and [] => never
    | .and nodes => .and (nodes ++ [never])
    | other => .and [other, never])

/-- The key breaks ties, so they cannot pick another row set each run. -/
def breakTies (pk : String) (orderBy : List (OrderItem L)) : List (OrderItem L) :=
  if orderBy.any (isColumn · pk) then orderBy else orderBy ++ [.column pk false .default]

/-- Bounds a write by the primary keys of the slice. -/
def boundDmlWhere (model : ModelSchema L) (whereClause : WhereExpr L Empty)
    (orderBy : List (PendingOrderItem L)) (limit offset : Option Int) :
    Except QueryError (WhereExpr L (SelectQuery L)) :=
  if limit.isNone && offset.isNone then .ok whereClause.lift
  else if limit.any (· < 0) || offset.any (· < 0) then
    .error (.boundedDmlUnsupported model.name .negative)
  else match model.fields.filter (·.primaryKey) with
    | [pk] => do
      let (orderBy, joins) ← lowerOrderItems core model orderBy
      if !joins.isEmpty then .error (.boundedDmlUnsupported model.name .relationOrderBy)
      else
        let inner : SelectQuery L :=
          { SelectQuery.new model with
            whereClause := whereClause
            orderBy := breakTies pk.column orderBy
            limit := limit
            offset := offset
            projection := some [pk.column] }
        let bound := .inSubquery pk.column false inner
        .ok (if whereClause.isEmpty then bound else .and [whereClause.lift, bound])
    | _ => .error (.boundedDmlUnsupported model.name .noSinglePrimaryKey)

/-- The `WHERE` clause of a write, which `compile_delete` and `UpdateBuilder::compile` share. -/
def QuerySet.dmlWhere (q : QuerySet L) : Except QueryError (WhereExpr L (SelectQuery L)) := do
  let whereClause ← resolvePending core q.model q.pending
  let whereClause ←
    (if q.isNone then neverMatchClause ofBool q.model whereClause else .ok whereClause)
  boundDmlWhere core q.model whereClause q.orderBy q.limit q.offset

def QuerySet.compileDelete (q : QuerySet L) : Except QueryError (DeleteQuery L) := do
  let q := q.applyGlobalScopes.applyReverse
  q.refuseUnwritableShape
  let whereClause ← q.dmlWhere core ofBool
  .ok ⟨q.model, whereClause⟩

inductive PendingAssignment (L : Lang) where
  | raw (field : String) (value : L.Value)
  | rawExpr (field : String) (value : Expr L)
  | resolved (assignment : Assignment L)

structure UpdateBuilder (L : Lang) where
  qs : QuerySet L
  set : List (PendingAssignment L)

def resolveAssignment (model : ModelSchema L) : PendingAssignment L → Except QueryError (Assignment L)
  | .raw name value => do
    let field ← okOr (model.field name) (.unknownField model.name name)
    core.checkValueType model field .eq value
    .ok ⟨field.column, .literal value⟩
  | .rawExpr name value => do
    let field ← okOr (model.field name) (.unknownField model.name name)
    core.validateExpr model value
    .ok ⟨field.column, value⟩
  | .resolved assignment => .ok assignment

/-- Of two assignments to one column the last stays. -/
def lastWrites : List (Assignment L) → List (Assignment L)
  | [] => []
  | a :: rest => if rest.any fun b => b.column = a.column then lastWrites rest else a :: lastWrites rest

def UpdateBuilder.compile (u : UpdateBuilder L) : Except QueryError (UpdateQuery L) := do
  let q := u.qs.applyGlobalScopes.applyReverse
  q.refuseUnwritableShape
  let assignments ← u.set.mapM (resolveAssignment core q.model)
  let whereClause ← q.dmlWhere core ofBool
  .ok ⟨q.model, lastWrites assignments, whereClause⟩

end Dml

end Rustango.Query
