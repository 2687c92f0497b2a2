import Rustango.Migrate.Change

/-!
# Schema diff

`detect_changes` turns two snapshots into the ordered list of operations between them, and
`detect_unsupported_field_changes` reports what no operation expresses.
-/

namespace Rustango.Migrate

open Rustango.Keyed

def createIndex (idx : IndexSnapshot) : SchemaChange :=
  .createIndex idx.name idx.table idx.columns idx.unique idx.method idx.whereClause idx.include_

def addCheck (c : CheckSnapshot) : SchemaChange := .addCheckConstraint c.name c.table c.expr

def addExclude (x : ExclusionSnapshot) : SchemaChange :=
  .addExclusionConstraint x.name x.table x.using_ x.elements x.whereClause

def createM2M (mt : M2MTableSnapshot) : SchemaChange :=
  .createM2MTable mt.through mt.srcTable mt.srcCol mt.dstTable mt.dstCol

def addCompositeFk (table : String) (cf : CompositeFkSnapshot) : SchemaChange :=
  .addCompositeFk table cf.name cf.to_ cf.from_ cf.on_

def isSelfRef (m : M2MTableSnapshot) : Bool := m.srcTable = m.dstTable

/-- The longest prefix of at most `bytes` UTF-8 bytes. -/
def utf8Prefix : Nat → List Char → List Char
  | _, [] => []
  | bytes, c :: cs => if c.utf8Size ≤ bytes then c :: utf8Prefix (bytes - c.utf8Size) cs else []

def swapName (a : String) (i : Nat) : String :=
  String.ofList (utf8Prefix 56 a.toList) ++ "_swp" ++ toString i

/-- A junction column name that is neither `a` nor `b`: two names block at most two of the three
tried. -/
def swapSpare (a b : String) : String :=
  ([swapName a 0, swapName a 1, swapName a 2].find? fun s => s ≠ a && s ≠ b).getD ""

/-- The renames of a junction's columns, each from its old name to its new one. -/
def renamePairs (through : String) (pairs : List (String × String)) : List SchemaChange :=
  match pairs.filter fun p => p.1 ≠ p.2 with
  | [(a, b)] => [.renameColumn through a b]
  | [(a, b), (c, d)] =>
    if b = c ∧ d = a then
      -- A swap goes through a spare name.
      let spare := swapSpare a b
      [.renameColumn through a spare, .renameColumn through c d, .renameColumn through spare b]
    -- `b` is still `c`'s name until `c` moves.
    else if b = c then [.renameColumn through c d, .renameColumn through a b]
    else [.renameColumn through a b, .renameColumn through c d]
  | _ => []

/-- The column renames that turn junction `old` into `new` over the same tables. `none` if an end's
table changed, or a self-referencing junction renamed both columns. -/
def m2mRenames (old new : M2MTableSnapshot) : Option (List SchemaChange) :=
  if isSelfRef old && isSelfRef new && old.srcTable = new.srcTable then
    let olds := [old.srcCol, old.dstCol]
    let news := [new.srcCol, new.dstCol]
    match olds.find? (· ∉ news), news.find? (· ∉ olds) with
    | some gone, some came =>
      if (olds.filter (· ∈ news)).length = 1 then some [.renameColumn old.through gone came]
      else none
    | _, _ => none
  else
    let direct := if old.srcTable = new.srcTable ∧ old.dstTable = new.dstTable then
      some [(old.srcCol, new.srcCol), (old.dstCol, new.dstCol)] else none
    let mirrored := if old.srcTable = new.dstTable ∧ old.dstTable = new.srcTable then
      some [(old.srcCol, new.dstCol), (old.dstCol, new.srcCol)] else none
    (direct.or mirrored).map (renamePairs old.through)

/-- What an FK points at, without its `ON DELETE` action. -/
def fkIdentity (r : RelationSnapshot) : String × String × String := (r.kind, r.to_, r.on_)

/-- An action as the database reads it: SQL keywords ignore ASCII case. -/
def foldAction (action : String) : String := String.ofList (action.toList.map Char.toLower)

/-- Same action as the database applies it. -/
def sameOnDelete (p c : RelationSnapshot) : Bool :=
  foldAction (effectiveAction p.onDelete) = foldAction (effectiveAction c.onDelete)

def pushAlterChanges (table : String) (pf cf : FieldSnapshot) : List SchemaChange :=
  let maxLength := if pf.maxLength ≠ cf.maxLength
    then [.alterColumnMaxLength table cf.column pf.maxLength cf.maxLength] else []
  let leavingString := pf.ty ≠ cf.ty ∧ cf.ty ≠ "string"
  let ciFlip := cf.ty = "string" ∧ pf.caseInsensitive ≠ cf.caseInsensitive
  (if leavingString then maxLength else []) ++
  (if pf.ty ≠ cf.ty ∨ ciFlip then [.alterColumnType table cf.column pf.ty cf.ty] else []) ++
  (if leavingString then [] else maxLength) ++
  -- A type change writes the new default itself.
  (if pf.default ≠ cf.default ∧ pf.ty = cf.ty
    then [.alterColumnDefault table cf.column pf.default cf.default] else []) ++
  (if pf.nullable ≠ cf.nullable
    then [.alterColumnNullable table cf.column cf.nullable] else []) ++
  (if pf.unique ≠ cf.unique then [.alterColumnUnique table cf.column cf.unique] else []) ++
  (if pf.dbComment ≠ cf.dbComment
    then [.alterColumnComment table cf.column pf.dbComment cf.dbComment] else []) ++
  match pf.fk, cf.fk with
  | some p, some c =>
    if fkIdentity p = fkIdentity c ∧ sameOnDelete p c = false
    then [.alterFkOnDelete table cf.column p.onDelete c.onDelete] else []
  | _, _ => []

/-- `t` has an FK to `target`. -/
def references (t : TableSnapshot) (target : String) : Bool :=
  t.name ≠ target && (t.fields.any (fun f => f.fk.any fun r => r.to_ = target) ||
    t.compositeFks.any fun c => c.to_ = target)

/-- One table of `left` after another, each time the first that no other references. A cycle takes
the first. -/
def childFirst : Nat → List TableSnapshot → List TableSnapshot
  | 0, _ => []
  | fuel + 1, left =>
    let i := (left.findIdx? fun t => !left.any fun o => references o t.name).getD 0
    match left[i]? with
    | some t => t :: childFirst fuel (left.eraseIdx i)
    | none => []

def droppedTablesChildFirst (prev current : SchemaSnapshot) : List String :=
  let left := prev.tables.filter fun t => (current.table t.name).isNone
  (childFirst left.length left).map (·.name)

section Diff
variable (prev current : SchemaSnapshot)

/-- What `step` gives for each table that stays, as it was and as it is. -/
def onKept (step : TableSnapshot → TableSnapshot → List SchemaChange) : List SchemaChange :=
  prev.tables.flatMap fun pt => (current.table pt.name).elim [] fun ct => step pt ct

/-- The same in the order of `current`. -/
def onKeptNow (step : TableSnapshot → TableSnapshot → List SchemaChange) : List SchemaChange :=
  current.tables.flatMap fun ct => (prev.table ct.name).elim [] fun pt => step pt ct

def dropCompositeFks : List SchemaChange :=
  onKept prev current fun pt ct => pt.compositeFks.flatMap fun pf =>
    if ct.compositeFk pf.name = some pf then [] else [.dropCompositeFk pt.name pf.name]

def recreateCompositeFks : List SchemaChange :=
  onKept prev current fun pt ct => pt.compositeFks.flatMap fun pf =>
    if ct.compositeFk pf.name = some pf then []
    else ((ct.compositeFk pf.name).map (addCompositeFk ct.name)).toList

def indexChanged (c idx : IndexSnapshot) : Bool :=
  c.columns ≠ idx.columns || c.unique ≠ idx.unique || c.table ≠ idx.table ||
    c.method ≠ idx.method || c.whereClause ≠ idx.whereClause || c.include_ ≠ idx.include_

def dropIndexes : List SchemaChange :=
  prev.indexes.flatMap fun idx =>
    match (current.index idx.name).map (indexChanged · idx) with
    | some false => []
    | _ => [.dropIndex idx.name idx.table]

def recreateIndexes : List SchemaChange :=
  prev.indexes.flatMap fun idx =>
    match current.index idx.name with
    | some c => if indexChanged c idx then [createIndex c] else []
    | none => []

def dropChecks : List SchemaChange :=
  prev.checks.flatMap fun c =>
    if current.check c.name = some c then [] else [.dropCheckConstraint c.name c.table]

def recreateChecks : List SchemaChange :=
  prev.checks.flatMap fun c =>
    if current.check c.name = some c then [] else ((current.check c.name).map addCheck).toList

def dropExcludes : List SchemaChange :=
  prev.excludes.flatMap fun x =>
    if current.exclude x.name = some x then [] else [.dropExclusionConstraint x.name x.table]

def recreateExcludes : List SchemaChange :=
  prev.excludes.flatMap fun x =>
    if current.exclude x.name = some x then [] else ((current.exclude x.name).map addExclude).toList

/-- The operations of a junction of `prev`: its drop half, or its renames, and its create half. -/
def m2mChange (mt : M2MTableSnapshot) : List SchemaChange × List SchemaChange :=
  match current.m2mTable mt.through with
  | some c =>
    if c == mt then ([], [])
    else match m2mRenames mt c with
      | some renames => (renames, [])
      | none => ([.dropM2MTable mt.through], [createM2M c])
  | none => ([.dropM2MTable mt.through], [])

def dropM2MTables : List SchemaChange := prev.m2mTables.flatMap fun mt => (m2mChange current mt).1

def recreateM2MTables : List SchemaChange :=
  prev.m2mTables.flatMap fun mt => (m2mChange current mt).2

def newTables : List SchemaChange :=
  current.tables.flatMap fun t => if (prev.table t.name).isNone then [.createTable t.name] else []

def newColumns : List SchemaChange :=
  onKeptNow prev current fun pt t => t.fields.flatMap fun f =>
    if (pt.field f.column).isNone then [.addColumn t.name f.column] else []

def alteredColumns : List SchemaChange :=
  onKeptNow prev current fun pt ct => ct.fields.flatMap fun cf =>
    (pt.field cf.column).elim [] fun pf => pushAlterChanges ct.name pf cf

def alteredComments : List SchemaChange :=
  onKeptNow prev current fun pt ct =>
    if pt.dbTableComment ≠ ct.dbTableComment
    then [.alterTableComment ct.name pt.dbTableComment ct.dbTableComment] else []

def droppedColumns : List SchemaChange :=
  onKept prev current fun pt t => pt.fields.flatMap fun f =>
    if (t.field f.column).isNone then [.dropColumn pt.name f.column] else []

def droppedTables : List SchemaChange := (droppedTablesChildFirst prev current).map .dropTable

def newIndexes : List SchemaChange :=
  current.indexes.flatMap fun idx => if (prev.index idx.name).isNone then [createIndex idx] else []

def newChecks : List SchemaChange :=
  current.checks.flatMap fun c => if (prev.check c.name).isNone then [addCheck c] else []

def newExcludes : List SchemaChange :=
  current.excludes.flatMap fun x => if (prev.exclude x.name).isNone then [addExclude x] else []

def newM2MTables : List SchemaChange :=
  current.m2mTables.flatMap fun mt =>
    if (prev.m2mTable mt.through).isNone then [createM2M mt] else []

/-- A new table's composite FKs come with its `CreateTable`. -/
def newCompositeFks : List SchemaChange :=
  onKeptNow prev current fun pt ct => ct.compositeFks.flatMap fun cf =>
    if (pt.compositeFk cf.name).isNone then [addCompositeFk ct.name cf] else []

/-- What goes before any table or column does. -/
def droppedObjects : List SchemaChange :=
  dropCompositeFks prev current ++ dropIndexes prev current ++ dropChecks prev current ++
    dropExcludes prev current ++ dropM2MTables prev current

/-- The tables and their columns. -/
def changedTables : List SchemaChange :=
  newTables prev current ++ newColumns prev current ++ alteredColumns prev current ++
    alteredComments prev current ++ droppedColumns prev current ++ droppedTables prev current

/-- New objects and the create halves of changed ones, the composite FKs last. -/
def createdObjects : List SchemaChange :=
  newIndexes prev current ++
    (recreateIndexes prev current ++ recreateChecks prev current ++ recreateExcludes prev current ++
      recreateM2MTables prev current) ++
    newChecks prev current ++ newExcludes prev current ++ newM2MTables prev current ++
    newCompositeFks prev current ++ recreateCompositeFks prev current

/-- The ordered list of changes from `prev` to `current`. -/
def detectChanges : List SchemaChange :=
  droppedObjects prev current ++ changedTables prev current ++ createdObjects prev current

end Diff

section Unsupported

def debugOption {α : Type} (debug : α → String) : Option α → String
  | some a => "Some(" ++ debug a ++ ")"
  | none => "None"

def debugRelation (r : RelationSnapshot) : String :=
  "RelationSnapshot \x7b kind: " ++ r.kind.quote ++ ", to: " ++ r.to_.quote ++ ", on: " ++
    r.on_.quote ++ ", on_delete: " ++ debugOption String.quote r.onDelete ++ " \x7d"

/-- One line on column `table.col`. -/
def fieldDiff (table col attr was now : String) : String :=
  "`" ++ table ++ "." ++ col ++ "` " ++ attr ++ " changed: " ++ was ++ " → " ++ now

def pushFieldDiffs (table : String) (pf cf : FieldSnapshot) : List String :=
  let diff := fieldDiff table cf.column
  (if pf.primaryKey ≠ cf.primaryKey
    then [diff "primary_key" (toString pf.primaryKey) (toString cf.primaryKey)] else []) ++
  (if pf.min ≠ cf.min
    then [diff "min" (debugOption toString pf.min) (debugOption toString cf.min)] else []) ++
  (if pf.max ≠ cf.max
    then [diff "max" (debugOption toString pf.max) (debugOption toString cf.max)] else []) ++
  (if pf.fk.map fkIdentity ≠ cf.fk.map fkIdentity
    then [diff "fk" (debugOption debugRelation pf.fk) (debugOption debugRelation cf.fk)]
    else []) ++
  (if pf.auto ≠ cf.auto then [diff "auto" (toString pf.auto) (toString cf.auto)] else []) ++
  if pf.generatedAs ≠ cf.generatedAs
    then [diff "generated_as" (debugOption String.quote pf.generatedAs)
      (debugOption String.quote cf.generatedAs)] else []

def selfRefText (pm cm : M2MTableSnapshot) : String :=
  "self-referencing M2M `" ++ pm.through ++ "` renamed both columns (`" ++ pm.srcCol ++ "`, `" ++
    pm.dstCol ++ "` → `" ++ cm.srcCol ++ "`, `" ++ cm.dstCol ++
    "`); rename one per migration, or write the RenameColumn ops by hand"

variable (prev current : SchemaSnapshot)

/-- One line for each change of a kept column or junction that `detectChanges` cannot write. -/
def detectUnsupportedFieldChanges : List String :=
  (current.tables.flatMap fun ct => (prev.table ct.name).elim [] fun pt =>
    ct.fields.flatMap fun cf => (pt.field cf.column).elim [] fun pf =>
      pushFieldDiffs ct.name pf cf) ++
  (prev.m2mTables.filter isSelfRef).flatMap fun pm =>
    (current.m2mTable pm.through).elim [] fun cm =>
      if !(cm == pm) && isSelfRef cm && cm.srcTable = pm.srcTable && (m2mRenames pm cm).isNone
      then [selfRefText pm cm] else []

end Unsupported

end Rustango.Migrate
