import Rustango.Migrate.Branches
import Rustango.Migrate.Diff

/-!
# Planning a migration

The file that `makemigrations` would write after the files a directory holds. The models come from
the registry of the running program.
-/

namespace Rustango.Migrate

open Rustango.Keyed Rustango.Outcome

/-- Where a model's table lives. -/
inductive ModelScope where
  | registry
  | tenant
deriving DecidableEq, Repr

def migrationScope : ModelScope → MigrationScope
  | .registry => .registry
  | .tenant => .tenant

/-- What the planners read of a registered model. -/
structure ModelSchema where
  scope : ModelScope
  managed : Bool
  isView : Bool

/-- The registered models, by table. -/
abbrev Registry := String → Option ModelSchema

/-- Whether a drop beside a matching add, likely a rename, is written. -/
inductive DropAndAdd where
  | refuse
  | allow
deriving DecidableEq, Repr

/-- The prefix the framework keeps for its own tables. -/
def isFramework (table : String) : Bool := "rustango_".toList.isPrefixOf table.toList

/-- Every framework table of `into_` set to its current shape. -/
def foldInFrameworkTables (into_ current : SchemaSnapshot) : SchemaSnapshot where
  tables := into_.tables.filter (!isFramework ·.name) ++ current.tables.filter (isFramework ·.name)
  m2mTables := into_.m2mTables.filter (!isFramework ·.through) ++
    current.m2mTables.filter (isFramework ·.through)
  indexes := into_.indexes.filter (!isFramework ·.table) ++
    current.indexes.filter (isFramework ·.table)
  checks := into_.checks.filter (!isFramework ·.table) ++ current.checks.filter (isFramework ·.table)
  excludes := into_.excludes

/-- The entries of `from_` that `into_` does not name, pushed one after another. -/
def pushMissing {α : Type} (key : α → String) (into_ from_ : List α) : List α :=
  from_.foldl (fun l x => if l.any (key · = key x) then l else l ++ [x]) into_

/-- What `from_` holds and `into_` does not name. -/
def foldInMissingTables (into_ from_ : SchemaSnapshot) : SchemaSnapshot where
  tables := pushMissing TableSnapshot.name into_.tables from_.tables
  m2mTables := pushMissing M2MTableSnapshot.through into_.m2mTables from_.m2mTables
  indexes := pushMissing IndexSnapshot.name into_.indexes from_.indexes
  checks := pushMissing CheckSnapshot.name into_.checks from_.checks
  excludes := into_.excludes

/-- The tables of one scope with what hangs off them. A table without a model is the tenants'. -/
def filteredToScope (registry : Registry) (s : SchemaSnapshot) (scope : ModelScope) :
    SchemaSnapshot :=
  let scopeOf (table : String) := (registry table).elim ModelScope.tenant (·.scope)
  let tables := s.tables.filter fun t => scopeOf t.name = scope
  let names := tables.map (·.name)
  { tables
    m2mTables := s.m2mTables.filter (·.srcTable ∈ names)
    indexes := s.indexes.filter (·.table ∈ names)
    checks := s.checks.filter (·.table ∈ names)
    excludes := s.excludes.filter (·.table ∈ names) }

/-- `current` with the tables of `prev` whose model is a view or is no longer managed. -/
def keepUnmanaged (registry : Registry) (current prev : SchemaSnapshot) : SchemaSnapshot :=
  let kept := (prev.tables.map (·.name)).filter fun t =>
    current.table t = none ∧ (registry t).any fun m => !m.managed || m.isView
  if kept = [] then current
  else SchemaSnapshot.sort
    { tables := current.tables ++ prev.tables.filter (·.name ∈ kept)
      m2mTables := current.m2mTables ++ prev.m2mTables.filter fun m =>
        (m.srcTable ∈ kept ∨ m.dstTable ∈ kept) ∧ current.m2mTable m.through = none
      indexes := current.indexes ++ prev.indexes.filter (·.table ∈ kept)
      checks := current.checks ++ prev.checks.filter (·.table ∈ kept)
      excludes := current.excludes ++ prev.excludes.filter (·.table ∈ kept) }

/-- Whether `columns`, in order, are the table's primary key, a unique column, or a full unique
index. -/
def isUniqueKey (s : SchemaSnapshot) (table : TableSnapshot) (columns : List String) : Bool :=
  ((table.fields.filter (·.primaryKey)).map (·.column) = columns) ||
    (match columns with
      | [one] => table.fields.any fun f => f.unique && f.column = one
      | _ => false) ||
    s.indexes.any fun i =>
      i.table = table.name && i.unique && i.whereClause = none && i.columns = columns

/-- One line for each changed composite FK whose target is no key. -/
def unkeyedCompositeFks (current prev : SchemaSnapshot) : List String :=
  current.tables.flatMap fun t => t.compositeFks.flatMap fun fk =>
    if (prev.table t.name).any fun p => fk ∈ p.compositeFks then []
    else match current.table fk.to_ with
      | none => []
      | some target =>
        if isUniqueKey current target fk.on_ then []
        else
          let on_ := ", ".intercalate fk.on_
          ["`" ++ t.name ++ "." ++ fk.name ++ "`: (" ++ on_ ++ ") on `" ++ fk.to_ ++
            "` is not its primary key or a unique key; add `unique_together = \"" ++ on_ ++
            "\"` to the target model"]

def refuseUnkeyedCompositeFks (prev current : SchemaSnapshot) : Except MigrateError Unit :=
  match unkeyedCompositeFks current prev with
  | [] => .ok ()
  | bad => .error (.validation ("composite foreign keys need a unique target:\n  - " ++
      "\n  - ".intercalate bad))

/-- `(table, dropped, added)` for each column dropped beside a new one of its type. -/
def suspectedRenames (prev current : SchemaSnapshot) (changes : List SchemaChange) :
    List (String × String × String) :=
  let ty (s : SchemaSnapshot) (table column : String) :=
    ((s.table table).bind (·.field column)).map (·.ty)
  changes.flatMap fun
    | .dropColumn table column =>
      match ty prev table column with
      | none => []
      | some dropped => changes.flatMap fun
        | .addColumn t added =>
          if t = table ∧ ty current t added = some dropped then [(table, column, added)] else []
        | _ => []
    | _ => []

/-- `(dropped, created)` for each table dropped beside a new one with its column names. -/
def suspectedTableRenames (prev current : SchemaSnapshot) (changes : List SchemaChange) :
    List (String × String) :=
  let columns (t : TableSnapshot) := (t.fields.map (·.column)).dedup.insertionSort (· ≤ ·)
  changes.flatMap fun
    | .dropTable old =>
      match (prev.table old).map columns with
      | none => []
      | some dropped => changes.flatMap fun
        | .createTable new =>
          if (current.table new).map columns = some dropped then [(old, new)] else []
        | _ => []
    | _ => []

def tableRenameText (old new : String) (pairs : List (String × String)) : String :=
  "makemigrations: refused, a renamed table would lose its data:\n  - " ++
    "\n  - ".intercalate (pairs.map fun (old, new) =>
      "`" ++ old ++ "` dropped, `" ++ new ++ "` created with its columns") ++
    "\nA drop + create deletes every row in the old table. To keep the data, write the rename by " ++
    "hand:\n  cargo run -- makemigrations --empty rename_" ++ old ++
    "\n  then put \x7b\"schema\": \x7b\"RenameTable\": \x7b\"old_name\": \"" ++ old ++
    "\", \"new_name\": \"" ++ new ++ "\"\x7d\x7d\x7d in its `forward` and run makemigrations again." ++
    "\nTo drop the old table and create the new one on purpose, run `makemigrations --drop-and-add`."

def fieldRenameText (t old new : String) (pairs : List (String × String × String)) : String :=
  "makemigrations: refused, a renamed field would lose its data:\n  - " ++
    "\n  - ".intercalate (pairs.map fun (t, old, new) =>
      "`" ++ t ++ "." ++ old ++ "` dropped, `" ++ t ++ "." ++ new ++ "` added") ++
    "\nA drop + add deletes every value in the old column. To keep the data, write the rename by " ++
    "hand:\n  cargo run -- makemigrations --empty rename_" ++ old ++
    "\n  then put \x7b\"schema\": \x7b\"RenameColumn\": \x7b\"table\": \"" ++ t ++
    "\", \"old_column\": \"" ++ old ++ "\", \"new_column\": \"" ++ new ++
    "\"\x7d\x7d\x7d in its `forward` and run makemigrations again.\nTo drop the old column and " ++
    "add the new one on purpose, run `makemigrations --drop-and-add`."

/-- Refuses a drop beside a matching add unless `drops` allows it. -/
def checkDrops (prev current : SchemaSnapshot) (changes : List SchemaChange) (drops : DropAndAdd) :
    Except MigrateError Unit :=
  match drops, suspectedTableRenames prev current changes, suspectedRenames prev current changes with
  | .refuse, (old, new) :: rest, _ =>
    .error (.validation (tableRenameText old new ((old, new) :: rest)))
  | .refuse, [], (t, old, new) :: rest =>
    .error (.validation (fieldRenameText t old new ((t, old, new) :: rest)))
  | _, _, _ => .ok ()

/-- Refuses a change of metadata that no operation expresses. -/
def refuseUnsupported (text : String) (prev current : SchemaSnapshot) : Except MigrateError Unit :=
  match detectUnsupportedFieldChanges prev current with
  | [] => .ok ()
  | unsupported => .error (.validation (text ++ ":\n  - " ++ "\n  - ".intercalate unsupported))

/-- A file of more changes is named after the tables it creates, or `auto`. -/
def autoNameMany (changes : List SchemaChange) (isFirst : Bool) : String :=
  let creates := changes.all fun | .createTable _ => true | _ => false
  let standsUp := changes.all fun
    | .createTable _ | .createIndex .. | .createM2MTable .. => true
    | _ => false
  if isFirst && creates then "initial"
  else if standsUp then
    let tables := (changes.filterMap fun | .createTable t => some t | _ => none).dedup.insertionSort
      (· ≤ ·)
    if tables = [] then "auto"
    else if tables.length ≤ 3 then "create_" ++ "_and_".intercalate tables
    else "create_" ++ "_and_".intercalate (tables.take 3) ++ "_etc"
  else "auto"

def autoName (changes : List SchemaChange) (isFirst : Bool) : String :=
  match changes with
  | [.createTable t] => if isFirst then "initial" else "create_" ++ t
  | [.dropTable t] => "drop_" ++ t
  | [.addColumn table column] => "add_" ++ column ++ "_to_" ++ table
  | [.dropColumn table column] => "drop_" ++ column ++ "_from_" ++ table
  | [.alterColumnType table column from_ to_] =>
    "alter_" ++ column ++ "_on_" ++ table ++ "_" ++ from_ ++ "_to_" ++ to_
  | [.alterColumnNullable table column nullable] =>
    "make_" ++ column ++ "_on_" ++ table ++ (if nullable then "_nullable" else "_not_null")
  | [.alterColumnDefault table column _ _] => "alter_default_of_" ++ column ++ "_on_" ++ table
  | [.alterColumnMaxLength table column _ _] => "alter_max_length_of_" ++ column ++ "_on_" ++ table
  | [.alterColumnComment table column _ _] => "alter_comment_of_" ++ column ++ "_on_" ++ table
  | [.alterTableComment table _ _] => "alter_comment_on_" ++ table
  | [.alterFkOnDelete table column _ _] => "alter_on_delete_of_" ++ column ++ "_on_" ++ table
  | [.renameTable oldName newName] => "rename_" ++ oldName ++ "_to_" ++ newName
  | [.renameColumn table oldColumn newColumn] =>
    "rename_" ++ oldColumn ++ "_to_" ++ newColumn ++ "_on_" ++ table
  | [.createIndex name _ _ _ _ _ _] => "create_index_" ++ name
  | [.dropIndex name _] => "drop_index_" ++ name
  | [.addCheckConstraint name _ _] => "add_check_" ++ name
  | [.dropCheckConstraint name _] => "drop_check_" ++ name
  | [.createM2MTable through _ _ _ _] => "create_m2m_" ++ through
  | [.dropM2MTable through] => "drop_m2m_" ++ through
  | many => autoNameMany many isFirst

/-- The number of the last file, and the next one. -/
def indexAfter (prior : List Migration) : UInt32 :=
  nextIndex (prior.getLast?.bind fun m => extractIndex m.name)

/-- What the app planners say of metadata they cannot change. -/
def unsupportedText : String :=
  "field metadata changed in a way no migration operation expresses yet; write these changes by hand"

/-- The file `make_migrations_from` would write after `prior`. -/
def planFrom (registry : Registry) (prior : List Migration) (current : SchemaSnapshot)
    (nameOverride : Option String) (drops : DropAndAdd) : Except MigrateError (Option Migration) := do
  refuseBranched prior
  let baseline := prior.getLast?.elim SchemaSnapshot.empty (effectiveSnapshot prior)
  let prev := foldInFrameworkTables baseline current
  let current := keepUnmanaged registry current prev
  refuseUnsupported unsupportedText prev current
  refuseUnkeyedCompositeFks prev current
  let changes := detectChanges prev current
  if changes = [] then .ok none
  else do
    checkDrops prev current changes drops
    let suffix := nameOverride.getD (autoName changes prior.isEmpty)
    .ok <| some
      { name := numbered (indexAfter prior) suffix
        prev := prior.getLast?.map (·.name)
        atomic := true
        replaces := []
        merges := []
        snapshot := current
        forward := changes.map .schema }

/-- The snapshot one scope diffs against: its last file's, with the side chains folded in. -/
def scopedBaseline (priorScoped : List Migration) : SchemaSnapshot :=
  let head := priorScoped.getLast?.elim SchemaSnapshot.empty (effectiveSnapshot priorScoped)
  (priorScoped.filter fun m => m.name ∉ chainMembership priorScoped).foldl
    (fun s m => foldInMissingTables s m.snapshot) head

/-- The file `make_migrations_scoped` would write after `prior`. It is numbered after the whole
directory. -/
def planScoped (registry : Registry) (prior : List Migration) (current : SchemaSnapshot)
    (modelScope : ModelScope) (scope : MigrationScope) (nameOverride : Option String)
    (drops : DropAndAdd) : Except MigrateError (Option Migration) := do
  let priorScoped := prior.filter (·.scope = scope)
  refuseBranched priorScoped
  let prev := filteredToScope registry
    (foldInFrameworkTables (scopedBaseline priorScoped) current) modelScope
  let current := keepUnmanaged registry current prev
  refuseUnsupported unsupportedText prev current
  refuseUnkeyedCompositeFks prev current
  let changes := detectChanges prev current
  if changes = [] then .ok none
  else do
    checkDrops prev current changes drops
    let suffix := nameOverride.getD (autoName changes priorScoped.isEmpty)
    .ok <| some
      { name := numbered (indexAfter prior) suffix
        prev := priorScoped.getLast?.map (·.name)
        atomic := true
        replaces := []
        merges := []
        snapshot := current
        forward := changes.map .schema
        scope }

/-- What the system planner reads of the registry: whether a registry-scoped model owns a system
table, whether two models conflict over a junction, and the scope's system tables. -/
structure SystemModels where
  registryOwnsSystemTables : Bool
  checkRegistryJunctions : Except MigrateError Unit
  fromRegistry : ModelScope → SchemaSnapshot

/-- The step `make_migrations_system` would write after `prior`. -/
def planSystemStep (models : SystemModels) (scope : ModelScope) (nameOverride : Option String)
    (prior : List Migration) : Except MigrateError (Option Migration) := do
  if scope = .registry ∧ models.registryOwnsSystemTables = false then .ok none
  else do
    models.checkRegistryJunctions
    let current := models.fromRegistry scope
    let priorScoped := prior.filter (·.scope = migrationScope scope)
    let prev := priorScoped.getLast?.elim SchemaSnapshot.empty (·.snapshot)
    refuseUnsupported ("framework schema change needs an operation the engine can't yet emit " ++
      "(author manually or wait for the AlterField op)") prev current
    let changes := detectChanges prev current
    if changes = [] then .ok none
    else
      let suffix := nameOverride.getD (autoName changes priorScoped.isEmpty)
      .ok <| some
        { name := numbered (indexAfter prior) suffix
          prev := priorScoped.getLast?.map (·.name)
          atomic := true
          replaces := []
          merges := []
          snapshot := current
          forward := changes.map .schema
          scope := migrationScope scope }

end Rustango.Migrate
