import Rustango.Migrate.Snapshot

/-!
# Migration operations

The diff IR a migration file stores, and the file itself.
-/

namespace Rustango.Migrate

/-- One thing that must change to move from one snapshot to the next. -/
inductive SchemaChange where
  | createTable (name : String)
  | dropTable (name : String)
  | addColumn (table column : String)
  | dropColumn (table column : String)
  | alterColumnType (table column from_ to_ : String)
  | alterColumnNullable (table column : String) (nullable : Bool)
  | alterColumnDefault (table column : String) (from_ to_ : Option String)
  | alterColumnMaxLength (table column : String) (from_ to_ : Option Nat)
  | alterColumnComment (table column : String) (from_ to_ : Option String)
  | alterTableComment (table : String) (from_ to_ : Option String)
  | renameTable (oldName newName : String)
  | renameColumn (table oldColumn newColumn : String)
  | alterColumnUnique (table column : String) (unique : Bool)
  | alterFkOnDelete (table column : String) (from_ to_ : Option String)
  | createIndex (name table : String) (columns : List String) (unique : Bool) (method : String)
      (whereClause : Option String) (include_ : List String)
  | dropIndex (name table : String)
  | addCheckConstraint (name table expr : String)
  | dropCheckConstraint (name table : String)
  | addExclusionConstraint (name table using_ : String) (elements : List (String × String))
      (whereClause : Option String)
  | dropExclusionConstraint (name table : String)
  | createM2MTable (through srcTable srcCol dstTable dstCol : String)
  | dropM2MTable (through : String)
  | addCompositeFk (table name to_ : String) (from_ on_ : List String)
  | dropCompositeFk (table name : String)
deriving DecidableEq, Repr

def SchemaChange.isRename : SchemaChange → Bool
  | .renameTable .. | .renameColumn .. => true
  | _ => false

/-- The table a change is about. -/
def SchemaChange.table : SchemaChange → String
  | .createTable t | .dropTable t | .dropM2MTable t | .createM2MTable t _ _ _ _
  | .renameTable t _ | .addColumn t _ | .dropColumn t _ | .alterColumnType t _ _ _
  | .alterColumnNullable t _ _ | .alterColumnDefault t _ _ _ | .alterColumnMaxLength t _ _ _
  | .alterColumnComment t _ _ _ | .alterTableComment t _ _ | .renameColumn t _ _
  | .alterColumnUnique t _ _ | .alterFkOnDelete t _ _ _ | .createIndex _ t _ _ _ _ _
  | .dropIndex _ t | .addCheckConstraint _ t _ | .dropCheckConstraint _ t
  | .addExclusionConstraint _ t _ _ _ | .dropExclusionConstraint _ t
  | .addCompositeFk t _ _ _ _ | .dropCompositeFk t _ => t

/-- User-written SQL plus its inverse. -/
structure DataOp where
  sql : String
  reverseSql : Option String
  reversible : Bool
deriving DecidableEq, Repr

structure CallbackOp where
  name : String
  reverseName : Option String
deriving DecidableEq, Repr

/-- One step of a migration's `forward`. -/
inductive Operation where
  | schema (change : SchemaChange)
  | data (op : DataOp)
  | callback (op : CallbackOp)
deriving DecidableEq, Repr

/-- Where a migration runs: once on the registry database, or on every tenant's. -/
inductive MigrationScope where
  | registry
  | tenant
deriving DecidableEq, Repr

/-- One migration on disk. -/
structure Migration where
  name : String
  prev : Option String
  atomic : Bool
  replaces : List String
  merges : List String
  snapshot : SchemaSnapshot
  forward : List Operation
  scope : MigrationScope := .tenant
deriving DecidableEq, Repr

/-- The schema changes of a file, without its data and callback steps. -/
def Migration.changes (m : Migration) : List SchemaChange :=
  m.forward.filterMap fun
    | .schema c => some c
    | _ => none

end Rustango.Migrate
