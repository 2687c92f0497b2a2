import Rustango.Lib.Outcome
import Rustango.Migrate.Change

/-!
# The shape of a table in the middle of a migration

A migration file holds one snapshot, that of its end. A step in its middle takes the shape of a
table at that step, which is worked out backwards: the later operations are undone, the last of them
first, under the name that the table has when each of them runs.
-/

namespace Rustango.Migrate

open Rustango.Outcome

/-- `l` with `f` on the first element that satisfies `p`, if one does. -/
def modifyFirst {α : Type} (p : α → Bool) (f : α → α) : List α → Option (List α)
  | [] => none
  | a :: l => if p a then some (f a :: l) else (modifyFirst p f l).map (a :: ·)

/-- `table`'s name once `change` has run. -/
def nameAfter (name : String) : SchemaChange → String
  | .renameTable oldName newName => if oldName = name then newName else name
  | _ => name

/-- `table`'s name once the renames in `later` have run. -/
def nameAtEnd : String → List Operation → String
  | name, [] => name
  | name, .schema change :: later => nameAtEnd (nameAfter name change) later
  | name, _ :: later => nameAtEnd name later

/-- The later changes, each with the table's name when it runs. -/
def namedLater : String → List Operation → List (SchemaChange × String)
  | _, [] => []
  | name, .schema change :: later => (change, name) :: namedLater (nameAfter name change) later
  | name, _ :: later => namedLater name later

/-- `{:?}` of the changes that cannot be undone. -/
def SchemaChange.debug : SchemaChange → String
  | .createTable t => "CreateTable(\"" ++ t ++ "\")"
  | .dropTable t => "DropTable(\"" ++ t ++ "\")"
  | .createM2MTable through srcTable srcCol dstTable dstCol =>
    "CreateM2MTable \x7b through: \"" ++ through ++ "\", src_table: \"" ++ srcTable ++
      "\", src_col: \"" ++ srcCol ++ "\", dst_table: \"" ++ dstTable ++ "\", dst_col: \"" ++ dstCol ++
      "\" \x7d"
  | .dropM2MTable through => "DropM2MTable \x7b through: \"" ++ through ++ "\" \x7d"
  | _ => ""

/-- `field` in the source: the column has to be there. -/
def TableSnapshot.alterField (t : TableSnapshot) (column : String)
    (f : FieldSnapshot → FieldSnapshot) : Except String TableSnapshot :=
  match modifyFirst (·.column = column) f t.fields with
  | some fields => .ok { t with fields }
  | none => .error ("`" ++ t.name ++ "." ++ column ++ "` is altered later but not in the snapshot")

/-- Undoes one later change on `t`. -/
def undoLater (table : String) (t : TableSnapshot) : SchemaChange → Except String TableSnapshot
  | .addColumn _ column => .ok { t with fields := t.fields.filter (·.column ≠ column) }
  | .renameColumn _ oldColumn newColumn =>
    let fields := modifyFirst (·.column = newColumn) ({ · with column := oldColumn }) t.fields
    let renamed := fun c : CompositeFkSnapshot =>
      { c with from_ := c.from_.map fun x => if x = newColumn then oldColumn else x }
    .ok { t with fields := fields.getD t.fields, compositeFks := t.compositeFks.map renamed }
  | .alterColumnType _ column from_ _ => t.alterField column ({ · with ty := from_ })
  | .alterColumnNullable _ column nullable => t.alterField column ({ · with nullable := !nullable })
  | .alterColumnDefault _ column from_ _ =>
    -- The default is kept where a rebuild may have to fill NULLs with it.
    t.alterField column fun f =>
      if f.nullable || from_.isSome then { f with default := from_ } else f
  | .alterColumnMaxLength _ column from_ _ => t.alterField column ({ · with maxLength := from_ })
  | .alterColumnComment _ column from_ _ => t.alterField column ({ · with dbComment := from_ })
  | .alterTableComment _ from_ _ => .ok { t with dbTableComment := from_ }
  | .alterColumnUnique _ column unique => t.alterField column ({ · with unique := !unique })
  | .alterFkOnDelete _ column from_ _ =>
    let onDelete := fun f : FieldSnapshot => { f with fk := f.fk.map ({ · with onDelete := from_ }) }
    .ok { t with fields := (modifyFirst (·.column = column) onDelete t.fields).getD t.fields }
  | .addCompositeFk _ name _ _ _ =>
    .ok { t with compositeFks := t.compositeFks.filter (·.name ≠ name) }
  -- Gone by then: the rebuild may drop it early.
  | .dropColumn .. | .dropCompositeFk .. | .addCheckConstraint .. | .dropCheckConstraint ..
  | .renameTable .. | .createIndex .. | .dropIndex .. | .addExclusionConstraint ..
  | .dropExclusionConstraint .. => .ok t
  | other => .error ("`" ++ table ++ "` is rebuilt before a later `" ++ other.debug ++
      "` on it in the same migration; move that change to a migration of its own")

/-- A later change is undone if it is one on the table, under its name then. -/
def undoNamed (table : String) (step : SchemaChange × String) (t : TableSnapshot) :
    Except String TableSnapshot :=
  if step.1.table ≠ step.2 then .ok t else undoLater table t step.1

/-- `table`'s shape after the op that `later` follows, and the table's name at the end. -/
def shapeAt (table : String) (later : List Operation) (after : SchemaSnapshot) :
    Except String (TableSnapshot × String) :=
  let name := nameAtEnd table later
  match after.table name with
  | none => .error ("no snapshot entry for `" ++ name ++ "` to rebuild `" ++ table ++ "` from")
  | some t => do
    let shape ← (namedLater table later).foldrM (undoNamed table) { t with name := table }
    return (shape, name)

/-- Undoes `change` on an FK's target and its columns, and whether it renamed either. -/
def undoTargetRename (change : SchemaChange) (to_ : String) (on_ : List String) :
    String × List String × Bool :=
  match change with
  | .renameTable oldName newName => if to_ = newName then (oldName, on_, true) else (to_, on_, false)
  | .renameColumn table oldColumn newColumn =>
    if table = to_ then
      (to_, on_.map fun c => if c = newColumn then oldColumn else c, decide (newColumn ∈ on_))
    else (to_, on_, false)
  | _ => (to_, on_, false)

/-- Undoes a later rename of the FK targets of a table, and whether it hit any. -/
def undoTargets (change : SchemaChange) (t : TableSnapshot) : TableSnapshot × Bool :=
  let undoField := fun f : FieldSnapshot =>
    { f with fk := f.fk.map fun r =>
        let undone := undoTargetRename change r.to_ [r.on_]
        { r with to_ := undone.1, on_ := undone.2.1.headD r.on_ } }
  let undoFk := fun c : CompositeFkSnapshot =>
    let undone := undoTargetRename change c.to_ c.on_
    { c with to_ := undone.1, on_ := undone.2.1 }
  let hit := (t.fields.any fun f =>
      f.fk.any fun r => (undoTargetRename change r.to_ [r.on_]).2.2) ||
    t.compositeFks.any fun c => (undoTargetRename change c.to_ c.on_).2.2
  ({ t with fields := t.fields.map undoField, compositeFks := t.compositeFks.map undoFk }, hit)

def laterChanges (later : List Operation) : List SchemaChange :=
  later.filterMap fun op => match op with | .schema change => some change | _ => none

/-- `after` with `table` as it is after the op that `later` follows, its CHECKs and indexes under that
name without the ones that a later op adds, and its FK targets under their names then. Also whether a
later rename touches it. -/
def snapshotAt (table : String) (later : List Operation) (after : SchemaSnapshot) :
    Except String (SchemaSnapshot × Bool) := do
  let (shape, last) ← shapeAt table later after
  let (shape, renamed) := (laterChanges later).foldr (fun change (t, renamed) =>
    let (t, hit) := undoTargets change t
    (t, renamed || hit)) (shape, decide (last ≠ table))
  let addsCheck := fun (name : String) (c : SchemaChange) => match c with
    | .addCheckConstraint n _ _ => n = name
    | _ => false
  let createsIndex := fun (name : String) (c : SchemaChange) => match c with
    | .createIndex n .. => n = name
    | _ => false
  let checks := (after.checks.filter fun c => !(laterChanges later).any (addsCheck c.name)).map
    fun c => if c.table = last then { c with table } else c
  let indexes := (after.indexes.filter fun i => !(laterChanges later).any (createsIndex i.name)).map
    fun i => if i.table = last then { i with table } else i
  return ({ after with
    tables := after.tables.filter (·.name ≠ table) ++ [shape], checks, indexes }, renamed)

private theorem alterField_model {t t' : TableSnapshot} {column : String} {f : FieldSnapshot → FieldSnapshot}
    (h : t.alterField column f = .ok t') : t'.model = t.model := by
  unfold TableSnapshot.alterField at h
  split at h
  · obtain rfl := Except.ok.inj h
    rfl
  · cases h

private theorem undoLater_model {table : String} {t t' : TableSnapshot} {change : SchemaChange}
    (h : undoLater table t change = .ok t') : t'.model = t.model := by
  cases change with
  | createTable _ | dropTable _ | createM2MTable _ _ _ _ _ | dropM2MTable _ => cases h
  | alterColumnType _ _ _ _ | alterColumnNullable _ _ _ | alterColumnDefault _ _ _ _
  | alterColumnMaxLength _ _ _ _ | alterColumnComment _ _ _ _ | alterColumnUnique _ _ _ =>
    exact alterField_model h
  | _ =>
    obtain rfl := Except.ok.inj h
    rfl

private theorem undoNamed_model {table : String} {step : SchemaChange × String} {t t' : TableSnapshot}
    (h : undoNamed table step t = .ok t') : t'.model = t.model := by
  unfold undoNamed at h
  split at h
  · obtain rfl := Except.ok.inj h
    rfl
  · exact undoLater_model h

private theorem undoAll_model {table : String} {steps : List (SchemaChange × String)}
    {t t' : TableSnapshot} (h : steps.foldrM (undoNamed table) t = .ok t') : t'.model = t.model := by
  induction steps generalizing t' with
  | nil =>
    obtain rfl := Except.ok.inj h
    rfl
  | cons step steps ih =>
    rw [List.foldrM_cons] at h
    obtain ⟨between, hrest, h⟩ := bind_eq_ok.mp h
    rw [undoNamed_model h, ih hrest]

private theorem shapeAt_model {table : String} {later : List Operation} {after : SchemaSnapshot}
    {shape : TableSnapshot} {last : String} (h : shapeAt table later after = .ok (shape, last)) :
    ∃ entry, after.table (nameAtEnd table later) = some entry ∧ shape.model = entry.model := by
  unfold shapeAt at h
  dsimp only at h
  split at h
  · cases h
  · rename_i entry hentry
    obtain ⟨t, ht, h⟩ := bind_eq_ok.mp h
    obtain ⟨rfl, -⟩ := Prod.mk.inj (Except.ok.inj h)
    exact ⟨entry, hentry, (undoAll_model ht).trans rfl⟩

private theorem foldr_targets_model (changes : List SchemaChange) (t : TableSnapshot) (renamed : Bool) :
    (changes.foldr (fun change (t, renamed) =>
      let (t, hit) := undoTargets change t
      (t, renamed || hit)) (t, renamed)).1.model = t.model := by
  induction changes with
  | nil => rfl
  | cons change changes ih => exact ih

theorem snapshotAt_model {table : String} {later : List Operation} {after at_ : SchemaSnapshot}
    {renamed : Bool} {entry : TableSnapshot} (h : snapshotAt table later after = .ok (at_, renamed))
    (hentry : at_.table table = some entry) :
    ∃ final, after.table (nameAtEnd table later) = some final ∧ entry.model = final.model := by
  obtain ⟨⟨shape, last⟩, hshape, h⟩ := bind_eq_ok.mp h
  obtain ⟨final, hfinal, hmodel⟩ := shapeAt_model hshape
  obtain ⟨rfl, -⟩ := Prod.mk.inj (Except.ok.inj h)
  refine ⟨final, hfinal, ?_⟩
  have hmem := SchemaSnapshot.mem_of_table hentry
  have hname := SchemaSnapshot.table_name hentry
  rcases List.mem_append.mp hmem with hother | hshape
  · exact absurd hname (of_decide_eq_true (List.mem_filter.mp hother).2)
  · rw [List.mem_singleton.mp hshape, foldr_targets_model, hmodel]

end Rustango.Migrate
