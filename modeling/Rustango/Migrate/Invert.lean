import Rustango.Migrate.Diff
import Rustango.Migrate.ShapeAt

/-!
# Undoing a migration

`invert` and `invert_migration` of `migrate/invert.rs`: the operations undone, the last of them first, with
the names that earlier renames give; then the drops of the created tables put child first.
-/

namespace Rustango.Migrate

/-- `columns` of the table once a change has run. -/
def columnsAfter (name : String) (columns : List String) : SchemaChange → List String
  | .renameColumn table oldColumn newColumn =>
    if table = name then columns.map fun c => if c = oldColumn then newColumn else c else columns
  | _ => columns

/-- `columns` of the table once the renames in `later` have run. -/
def columnsAtEnd : String → List String → List Operation → List String
  | _, columns, [] => columns
  | name, columns, .schema change :: later =>
    columnsAtEnd (nameAfter name change) (columnsAfter name columns change) later
  | name, columns, _ :: later => columnsAtEnd name columns later

/-- The renames undone, last first. -/
def undoRenames (earlier : List Operation) : List Operation :=
  earlier.reverse.filterMap fun
    | .schema (.renameTable oldName newName) => some (.schema (.renameTable newName oldName))
    | .schema (.renameColumn table oldColumn newColumn) => some (.schema (.renameColumn table newColumn oldColumn))
    | _ => none

/-- Names between `prev` and an operation, through the renames before it. -/
structure Names where
  earlier : List Operation

namespace Names
variable (names : Names)

def before (table : String) : String := nameAtEnd table (undoRenames names.earlier)

def columnBefore (table column : String) : String :=
  (columnsAtEnd table [column] (undoRenames names.earlier)).headD column

def now (table : String) : String := nameAtEnd table names.earlier

def columnsNow (table : String) (columns : List String) : List String := columnsAtEnd table columns names.earlier

/-- An earlier operation renames the table or one of its columns. -/
def renamesFrom : String → List Operation → Bool
  | _, [] => false
  | name, .schema (.renameTable oldName _) :: later => oldName = name || renamesFrom name later
  | name, .schema (.renameColumn table _ _) :: later => table = name || renamesFrom name later
  | name, _ :: later => renamesFrom name later

def renames (table : String) : Bool := renamesFrom table names.earlier

end Names

section Invert
variable (prev : SchemaSnapshot) (names : Names)

/-- A dropped constraint whose SQL text names what was renamed comes back as `prev` has it. -/
def recreateAsPrev (op : Operation) : Option Operation := do
  let change : SchemaChange ← match op with
    | .schema (.dropCheckConstraint name _) =>
      (prev.check name).map fun c => .addCheckConstraint name c.table c.expr
    | .schema (.dropIndex name _) =>
      ((prev.index name).filter fun i => i.whereClause.isSome).map fun i =>
        .createIndex name i.table i.columns i.unique i.method i.whereClause i.include_
    | .schema (.dropExclusionConstraint name _) =>
      (prev.excludes.find? fun x => x.name = name && x.whereClause.isSome).map addExclude
    | _ => none
  if names.renames change.table then some (.schema change) else none

def truncate (s : String) (max : Nat) : String :=
  if s.toList.length ≤ max then s else String.ofList (s.toList.take max) ++ "…"

def found {α : Type} (o : Option α) (message : String) : Except String α := (o.map .ok).getD (.error message)

def invertChange : SchemaChange → Except String SchemaChange
  | .createTable t => .ok (.dropTable t)
  | .dropTable t => do
    let _ ← found (prev.table (names.before t)) s!"cannot invert DropTable(`{t}`): table not in predecessor snapshot"
    return .createTable t
  | .addColumn table column => .ok (.dropColumn table column)
  | .dropColumn table column => do
    let t ← found (prev.table (names.before table))
      s!"cannot invert DropColumn(`{table}`.`{column}`): table missing in predecessor snapshot"
    let _ ← found (t.field (names.columnBefore table column))
      s!"cannot invert DropColumn(`{table}`.`{column}`): column missing in predecessor snapshot"
    return .addColumn table column
  | .alterColumnType table column from_ to_ => .ok (.alterColumnType table column to_ from_)
  | .alterColumnNullable table column nullable => .ok (.alterColumnNullable table column !nullable)
  | .alterColumnDefault table column from_ to_ => .ok (.alterColumnDefault table column to_ from_)
  | .alterColumnMaxLength table column from_ to_ => .ok (.alterColumnMaxLength table column to_ from_)
  | .alterColumnComment table column from_ to_ => .ok (.alterColumnComment table column to_ from_)
  | .alterTableComment table from_ to_ => .ok (.alterTableComment table to_ from_)
  | .alterColumnUnique table column unique => .ok (.alterColumnUnique table column !unique)
  | .alterFkOnDelete table column from_ to_ => .ok (.alterFkOnDelete table column to_ from_)
  | .renameTable oldName newName => .ok (.renameTable newName oldName)
  | .renameColumn table oldColumn newColumn => .ok (.renameColumn table newColumn oldColumn)
  | .addCheckConstraint name table _ => .ok (.dropCheckConstraint name table)
  | .dropCheckConstraint name _ => do
    let c ← found (prev.check name)
      s!"cannot invert DropCheckConstraint(`{name}`): constraint not in predecessor snapshot"
    return .addCheckConstraint name (names.now c.table) c.expr
  | .addExclusionConstraint name table _ _ _ => .ok (.dropExclusionConstraint name table)
  | .dropExclusionConstraint name _ => do
    let x ← found (prev.exclude name)
      s!"cannot invert DropExclusionConstraint(`{name}`): constraint not in predecessor snapshot"
    let columns := names.columnsNow x.table (x.elements.map (·.1))
    return addExclude { x with
      table := names.now x.table
      elements := (x.elements.zip columns).map fun e => (e.2, e.1.2) }
  | .createIndex name table _ _ _ _ _ => .ok (.dropIndex name table)
  | .dropIndex name _ => do
    let i ← found (prev.index name) s!"cannot invert DropIndex(`{name}`): index not in predecessor snapshot"
    return .createIndex name (names.now i.table) (names.columnsNow i.table i.columns) i.unique i.method i.whereClause
      (names.columnsNow i.table i.include_)
  | .createM2MTable through _ _ _ _ => .ok (.dropM2MTable through)
  | .dropM2MTable through => do
    let mt ← found (prev.m2mTable (names.before through))
      s!"cannot invert DropM2MTable(`{through}`): junction table not in predecessor snapshot"
    let columns := names.columnsNow mt.through [mt.srcCol, mt.dstCol]
    return .createM2MTable through (names.now mt.srcTable) (columns.getD 0 mt.srcCol) (names.now mt.dstTable)
      (columns.getD 1 mt.dstCol)
  | .addCompositeFk table name _ _ _ => .ok (.dropCompositeFk table name)
  | .dropCompositeFk table name => do
    let t ← found (prev.table (names.before table))
      s!"cannot invert DropCompositeFk(`{table}`.`{name}`): table missing in predecessor snapshot"
    let cf ← found (t.compositeFk name)
      s!"cannot invert DropCompositeFk(`{table}`.`{name}`): composite FK not in predecessor snapshot"
    return .addCompositeFk table name (names.now cf.to_) (names.columnsNow t.name cf.from_)
      (names.columnsNow cf.to_ cf.on_)

def invertOne : Operation → Except String Operation
  | .schema change => (invertChange prev names change).map .schema
  | .data d =>
    let sql := truncate d.sql 80
    if !d.reversible then .error s!"data op marked `reversible: false` cannot be rolled back: {sql}"
    else match d.reverseSql with
      | none => .error s!"data op marked `reversible: true` but missing `reverse_sql`: {sql}"
      | some reverseSql => .ok (.data ⟨reverseSql, none, false⟩)
  | .callback c =>
    match c.reverseName with
    | none =>
      let name := c.name
      .error s!"callback `{name}` cannot be rolled back: no `reverse_name` set"
    | some reverseName => .ok (.callback ⟨reverseName, none⟩)

end Invert

/-- The operations undone, and behind them those that come back as `prev` has them; `earlier` has run before. -/
def invertFrom (prev : SchemaSnapshot) :
    List Operation → List Operation → Except String (List Operation × List Operation)
  | _, [] => .ok ([], [])
  | earlier, op :: later => do
    let (out, last) ← invertFrom prev (earlier ++ [op]) later
    match recreateAsPrev prev ⟨earlier⟩ op with
    | some op => return (out, last ++ [op])
    | none => return (out ++ [← invertOne prev ⟨earlier⟩ op], last)

def invert (forward : List Operation) (prev : SchemaSnapshot) : Except String (List Operation) := do
  let (out, last) ← invertFrom prev [] forward
  return out ++ last

/-- The created table that an operation drops. -/
def droppedName (created : List String) : Operation → Option String
  | .schema (.dropTable t) => if t ∈ created then some t else none
  | _ => none

/-- The drops, one after another, drop the tables of `ordered`. -/
def refill (created : List String) : List Operation → List String → List Operation
  | [], _ => []
  | op :: ops, ordered =>
    match droppedName created op, ordered with
    | some _, t :: ordered => .schema (.dropTable t) :: refill created ops ordered
    | _, _ => op :: refill created ops ordered

/-- Where no table is dropped twice, the drops are put in the order of `created`. -/
def reorderDrops (created : List String) (out : List Operation) : List Operation :=
  let names := out.filterMap (droppedName created)
  let ordered := created.filter (· ∈ names)
  if ordered.length = names.length then refill created out ordered else out

section Equations
-- Their equations are derived here, once for all the proofs that unfold them.
attribute [local simp] droppedName refill
end Equations

def invertMigration (mig : Migration) (prev : SchemaSnapshot) : Except String (List Operation) := do
  let out ← invert mig.forward prev
  return reorderDrops (droppedTablesChildFirst mig.snapshot prev) out

end Rustango.Migrate
