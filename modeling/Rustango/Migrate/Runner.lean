import Rustango.Lib.Outcome
import Rustango.Migrate.Baseline
import Rustango.Migrate.Schema

/-!
# The runner

Applying the pending files of a chain, squashes reconciled with what the database already holds.
-/

namespace Rustango.Migrate

open Rustango.Outcome

inductive MigrateError where
  | validation (message : String)
  /-- What the database says. -/
  | driver (message : String)
deriving DecidableEq, Repr

/-- A database as the runner meets it: its catalog, and applying a file to it. -/
structure Backend (D : Type) where
  tableExists : D → String → Bool
  hasColumn : D → String → String → Bool
  hasIndex : D → String → String → Bool
  /-- The snapshot of a file, widened by the other branches already applied. -/
  applySnapshot : List Migration → List String → Migration → SchemaSnapshot
  /-- Renders the file's operations from this schema and runs them. -/
  apply : SchemaSnapshot → Migration → D → Except MigrateError D

/-- The database and the ledger of applied names. -/
structure Live (D : Type) where
  db : D
  ledger : List String

/-- What to do with a pending file once it is reconciled. -/
inductive ReconcileAction where
  | run
  | fake
  | runPartial (existing : List String)
  | runOutside (existing : List String)
deriving DecidableEq, Repr

/-- Which of the paths a file took. -/
inductive Outcome where
  | ran
  | ranPartial (skipped : List String)
  | faked
deriving DecidableEq, Repr

/-- Every table a file creates, in order. -/
def createTableTargets (m : Migration) : List String :=
  m.forward.filterMap fun
    | .schema (.createTable t) => some t
    | .schema (.createM2MTable t _ _ _ _) => some t
    | _ => none

/-- The tables of a file that does nothing but stand them up. -/
def createOnlyTables (m : Migration) : Option (List String) :=
  let standsUp := m.forward.all fun
    | .schema (.createTable _) | .schema (.createIndex ..) | .schema (.createM2MTable ..) => true
    | _ => false
  let tables := createTableTargets m
  let indexed := m.forward.filterMap fun
    | .schema (.createIndex _ t _ _ _ _ _) => some t
    | _ => none
  if !standsUp || tables.isEmpty || indexed.any (· ∉ tables) then none else some tables

/-- The file without its operations on tables that are already there. -/
def withoutTables (m : Migration) (existing : List String) : Migration :=
  { m with forward := m.forward.filter fun
    | .schema (.createTable t) => t ∉ existing
    | .schema (.createIndex _ t _ _ _ _ _) => t ∉ existing
    | .schema (.createM2MTable t _ _ _ _) => t ∉ existing
    | _ => true }

/-- The file with only its schema changes to other tables. -/
def outsideTables (m : Migration) (existing : List String) : Migration :=
  { m with forward := m.forward.filter fun
    | .schema c => c.table ∉ existing
    | _ => false }

/-- The schema a file starts from. -/
def snapshotBefore (all : List Migration) (m : Migration) : Except MigrateError SchemaSnapshot :=
  match m.prev with
  | none => .ok ⟨[], [], [], [], []⟩
  | some prev =>
    match all.find? fun p => p.name = prev with
    | some p => .ok (effectiveSnapshot all p)
    | none => .error (.validation ("migration `" ++ m.name ++ "` declares prev=`" ++ prev ++
        "` but that migration is missing"))

inductive MigrationState where
  | applied
  /-- An applied squash replaces it. -/
  | replaced
  | pending
deriving DecidableEq, Repr

/-- The applied squash that replaces `name`. -/
def replacedBy (all : List Migration) (applied : List String) (name : String) : Option String :=
  (all.find? fun m => m.name ∈ applied ∧ name ∈ m.replaces).map (·.name)

def migrationState (all : List Migration) (applied : List String) (m : Migration) : MigrationState :=
  if m.name ∈ applied then .applied
  else if (replacedBy all applied m.name).isSome then .replaced
  else .pending

def pendingMigrations (all : List Migration) (applied : List String) : List Migration :=
  all.filter fun m => migrationState all applied m = .pending

section Reconcile
variable {D : Type} (b : Backend D)

/-- Whether the live schema shows a change applied, where it can tell. -/
def changeApplied (d : D) : SchemaChange → Option Bool
  | .createTable t | .createM2MTable t _ _ _ _ => some (b.tableExists d t)
  | .dropTable t | .dropM2MTable t => some (!b.tableExists d t)
  | .addColumn t c => some (b.hasColumn d t c)
  | .dropColumn t c => some (!b.hasColumn d t c)
  | .createIndex n t _ _ _ _ _ => some (b.hasIndex d t n)
  | .dropIndex n t => some (!b.hasIndex d t n)
  | _ => none

/-- How many changes the live schema shows applied, and how many not. -/
def appliedCounts (d : D) (changes : List SchemaChange) : Nat × Nat :=
  ((changes.filter fun c => changeApplied b d c = some true).length,
    (changes.filter fun c => changeApplied b d c = some false).length)

def countExistingTables (d : D) (tables : List String) : Nat :=
  (tables.filter fun t => b.tableExists d t).length

/-- The verdict on a squash. -/
def reconcileSquash (m : Migration) (applied : List String) (d : D) :
    Except MigrateError ReconcileAction :=
  let present := m.replaces.filter (· ∈ applied)
  let targets := createTableTargets m
  let existing := countExistingTables b d targets
  let (shown, absent) := appliedCounts b d (m.changes.filter fun c => c.table ∉ targets)
  if present.length = m.replaces.length then .ok .fake
  else if 0 < present.length then
    .error (.validation ("cannot reconcile squash `" ++ m.name ++ "`: it replaces " ++
      toString m.replaces.length ++ " migration(s) but only " ++ toString present.length ++
      " are recorded as applied (missing: " ++
      ", ".intercalate (m.replaces.filter (· ∉ applied)) ++ "). The database is in a partial state — " ++
      "resolve it by hand (see `migrate --fake <name>`) rather than guessing."))
  else if targets.isEmpty then .ok .run
  else if existing = targets.length then
    if 0 < shown ∧ 0 < absent then
      .error (.validation ("cannot reconcile squash `" ++ m.name ++ "`: its tables exist and " ++
        toString shown ++ " of its other changes are applied, " ++ toString absent ++
        " are not. The database is in a partial state — resolve it by hand (see " ++
        "`migrate --fake <name>`)."))
    else if 0 < absent then
      if m.forward.any fun | .schema _ => false | _ => true then
        .error (.validation ("cannot reconcile squash `" ++ m.name ++ "`: its tables exist but its " ++
          "other changes do not, and whether its data operations ran is unknown. Resolve it " ++
          "by hand (see `migrate --fake <name>`)."))
      else .ok (.runOutside targets)
    else .ok .fake
  else if 0 < existing then
    .error (.validation ("cannot reconcile squash `" ++ m.name ++ "`: " ++ toString existing ++
      " of its " ++ toString targets.length ++ " tables already exist but the rest do not. The " ++
      "database is in a partial state — resolve it by hand (see `migrate --fake <name>`) rather " ++
      "than guessing."))
  else .ok .run

/-- Whether a pending file runs. A plain file is reconciled only under `fakeInitial`. -/
def reconcile (m : Migration) (applied : List String) (fakeInitial : Bool) (d : D) :
    Except MigrateError ReconcileAction :=
  if !m.replaces.isEmpty then reconcileSquash b m applied d
  else if fakeInitial then
    match createOnlyTables m with
    | some tables =>
      let existing := tables.filter fun t => b.tableExists d t
      if existing.length = tables.length then .ok .fake
      else if !existing.isEmpty then .ok (.runPartial existing)
      else .ok .run
    | none => .ok .run
  else .ok .run

/-- Records a file without running it, and removes the rows of the files it replaces. -/
def fakeApply (m : Migration) (s : Live D) : Live D :=
  let ledger := if m.name ∈ s.ledger then s.ledger else s.ledger ++ [m.name]
  { s with ledger := ledger.filter (· ∉ m.replaces) }

/-- Runs a file and records it. -/
def applyOne (all : List Migration) (done : List String) (m : Migration) (s : Live D) :
    Except MigrateError (Live D) := do
  let before ← snapshotBefore all m
  let db ← b.apply before { m with snapshot := b.applySnapshot all done m } s.db
  .ok ⟨db, s.ledger ++ [m.name]⟩

def reconcileAndApply (all : List Migration) (applied : List String) (fakeInitial : Bool)
    (done : List String) (m : Migration) (s : Live D) : Except MigrateError (Outcome × Live D) := do
  match ← reconcile b m applied fakeInitial s.db with
  | .fake => .ok (.faked, fakeApply m s)
  | .run => (applyOne b all done m s).map fun s => (.ran, s)
  | .runPartial existing =>
    (applyOne b all done (withoutTables m existing) s).map fun s => (.ranPartial existing, s)
  | .runOutside existing =>
    (applyOne b all done (outsideTables m existing) s).map fun s => (.ranPartial existing, s)

/-- One file after another; `done` holds the names applied so far. -/
def applyEach (step : List String → Migration → Live D → Except MigrateError (Outcome × Live D)) :
    List Migration → List String → Live D → Except MigrateError (List (Migration × Outcome) × Live D)
  | [], _, s => .ok ([], s)
  | m :: ms, done, s => do
    let (outcome, s) ← step done m s
    let (log, s) ← applyEach step ms (done ++ [m.name]) s
    .ok ((m, outcome) :: log, s)

/-- Applies the pending files of a chain on disk, and says which path each took. -/
def applyChain (all : List Migration) (fakeInitial : Bool) (s : Live D) :
    Except MigrateError (List (Migration × Outcome) × Live D) :=
  applyEach (reconcileAndApply b all s.ledger fakeInitial) (pendingMigrations all s.ledger) s.ledger s

-- Its equations are derived here, once for all the proofs that unfold it.
attribute [local simp] applyEach

end Reconcile

end Rustango.Migrate
