import Mathlib.Data.Sym.Sym2
import Rustango.Lib.Slots
import Rustango.Migrate.Change
import Rustango.Migrate.Closed

/-!
# The schema a database holds

Named slots without order or labels: what a snapshot describes, and what each migration operation
does to it. An operation that needs more than it carries reads `current`, the file's snapshot.
-/

namespace Rustango.Migrate

open Function hiding swap
open Rustango.Keyed Rustango.Slots

structure ForeignKey where
  kind : String
  to_ : String
  on_ : String
  onDelete : String
deriving DecidableEq, Repr

/-- A column without its label. An integer has no case to ignore. -/
structure Column where
  ty : String
  nullable : Bool
  primaryKey : Bool
  maxLength : Option Nat
  min : Option Int
  max : Option Int
  default : Option String
  auto : Bool
  unique : Bool
  caseInsensitive : Bool
  generatedAs : Option String
  dbComment : Option String
  fk : Option ForeignKey
deriving DecidableEq, Repr

@[ext] structure Table where
  comment : Option String
  columns : String → Option Column
  compositeFks : String → Option CompositeFkSnapshot

/-- A junction by its two ends: which one is the source is nothing the database knows. -/
abbrev Junction := Sym2 (String × String)

@[ext] structure Schema where
  tables : String → Option Table
  junctions : String → Option Junction
  indexes : String → Option IndexSnapshot
  checks : String → Option CheckSnapshot
  excludes : String → Option ExclusionSnapshot

def RelationSnapshot.db (r : RelationSnapshot) : ForeignKey :=
  ⟨r.kind, r.to_, r.on_, effectiveAction r.onDelete⟩

/-- Only a string column ignores case. -/
def ciOf (ty : String) (caseInsensitive : Bool) : Bool := ty = "string" && caseInsensitive

def FieldSnapshot.db (f : FieldSnapshot) : Column where
  ty := f.ty
  nullable := f.nullable
  primaryKey := f.primaryKey
  maxLength := f.maxLength
  min := f.min
  max := f.max
  default := f.default
  auto := f.auto
  unique := f.unique
  caseInsensitive := ciOf f.ty f.caseInsensitive
  generatedAs := f.generatedAs
  dbComment := f.dbComment
  fk := f.fk.map RelationSnapshot.db

def TableSnapshot.db (t : TableSnapshot) : Table where
  comment := t.dbTableComment
  columns c := (t.field c).map FieldSnapshot.db
  compositeFks := t.compositeFk

def M2MTableSnapshot.ends (m : M2MTableSnapshot) : Junction :=
  s((m.srcTable, m.srcCol), (m.dstTable, m.dstCol))

def SchemaSnapshot.db (s : SchemaSnapshot) : Schema where
  tables t := (s.table t).map TableSnapshot.db
  junctions n := (s.m2mTable n).map M2MTableSnapshot.ends
  indexes := s.index
  checks := s.check
  excludes := s.exclude

@[simp] theorem SchemaSnapshot.db_tables (s : SchemaSnapshot) (t : String) :
    s.db.tables t = (s.table t).map TableSnapshot.db := rfl

@[simp] theorem SchemaSnapshot.db_junctions (s : SchemaSnapshot) (n : String) :
    s.db.junctions n = (s.m2mTable n).map M2MTableSnapshot.ends := rfl

@[simp] theorem TableSnapshot.db_columns (t : TableSnapshot) (c : String) :
    t.db.columns c = (t.field c).map FieldSnapshot.db := rfl

def Schema.empty : Schema := ⟨fun _ => none, fun _ => none, fun _ => none, fun _ => none, fun _ => none⟩

theorem M2MTableSnapshot.ends_eq_of_beq {a b : M2MTableSnapshot} (h : (a == b) = true) :
    a.ends = b.ends := by
  rcases beq_iff.mp h with rfl | rfl
  · rfl
  · exact Sym2.eq_swap

def ForeignKey.retarget (old new : String) (k : ForeignKey) : ForeignKey :=
  { k with to_ := swap old new k.to_ }

def Column.retarget (old new : String) (col : Column) : Column :=
  { col with fk := col.fk.map (ForeignKey.retarget old new) }

def CompositeFkSnapshot.retarget (old new : String) (k : CompositeFkSnapshot) :
    CompositeFkSnapshot := { k with to_ := swap old new k.to_ }

def IndexSnapshot.retarget (old new : String) (i : IndexSnapshot) : IndexSnapshot :=
  { i with table := swap old new i.table }

def CheckSnapshot.retarget (old new : String) (c : CheckSnapshot) : CheckSnapshot :=
  { c with table := swap old new c.table }

def ExclusionSnapshot.retarget (old new : String) (x : ExclusionSnapshot) : ExclusionSnapshot :=
  { x with table := swap old new x.table }

def Table.retarget (old new : String) (tb : Table) : Table where
  comment := tb.comment
  columns c := (tb.columns c).map (Column.retarget old new)
  compositeFks n := (tb.compositeFks n).map (CompositeFkSnapshot.retarget old new)

def ForeignKey.repoint (t old new : String) (k : ForeignKey) : ForeignKey :=
  if k.to_ = t then { k with on_ := swap old new k.on_ } else k

def Column.repoint (t old new : String) (col : Column) : Column :=
  { col with fk := col.fk.map (ForeignKey.repoint t old new) }

def CompositeFkSnapshot.repoint (t old new : String) (k : CompositeFkSnapshot) :
    CompositeFkSnapshot := if k.to_ = t then { k with on_ := k.on_.map (swap old new) } else k

/-- A table after a column of `t` moved from `old` to `new`: the FKs that point at it follow. -/
def Table.repoint (t old new : String) (tb : Table) : Table where
  comment := tb.comment
  columns c := (tb.columns c).map (Column.repoint t old new)
  compositeFks n := (tb.compositeFks n).map (CompositeFkSnapshot.repoint t old new)

def CompositeFkSnapshot.moveColumn (old new : String) (k : CompositeFkSnapshot) :
    CompositeFkSnapshot := { k with from_ := k.from_.map (swap old new) }

/-- The renamed column itself, with the composite FKs it is a part of. -/
def Table.moveColumn (old new : String) (tb : Table) : Table where
  comment := tb.comment
  columns := moveSlot old new tb.columns
  compositeFks n := (tb.compositeFks n).map (CompositeFkSnapshot.moveColumn old new)

def IndexSnapshot.moveColumn (t old new : String) (i : IndexSnapshot) : IndexSnapshot :=
  if i.table = t then
    { i with columns := i.columns.map (swap old new), include_ := i.include_.map (swap old new) }
  else i

def ExclusionSnapshot.moveColumn (t old new : String) (x : ExclusionSnapshot) : ExclusionSnapshot :=
  if x.table = t then { x with elements := x.elements.map fun e => (swap old new e.1, e.2) } else x

def retargetEnds (old new : String) (j : Junction) : Junction :=
  j.map fun e => (swap old new e.1, e.2)

/-- The columns of a junction. -/
def junctionColumns (j : Junction) : Sym2 String := j.map Prod.snd

def moveEnds (old new : String) (j : Junction) : Junction :=
  j.map fun e => (e.1, swap old new e.2)

namespace Schema

def columnAt (s : Schema) (t c : String) : Option Column := (s.tables t).bind (·.columns c)

/-- The table or column that `r` names is there. Which column a junction end references is read
off `current`. -/
def Has (current : SchemaSnapshot) (s : Schema) : Ref → Prop
  | .table t => (s.tables t).isSome
  | .column t c => (s.columnAt t c).isSome
  | .key t => (s.columnAt t (current.m2mEnd t)).isSome

instance (current : SchemaSnapshot) (s : Schema) (r : Ref) : Decidable (s.Has current r) :=
  match r with
  | .table _ => instDecidableEqBool _ true
  | .column _ _ => instDecidableEqBool _ true
  | .key _ => instDecidableEqBool _ true

def alterTable (s : Schema) (t : String) (f : Table → Option Table) : Option Schema :=
  (alter s.tables t f).map fun ts => { s with tables := ts }

def alterColumns (s : Schema) (t : String)
    (f : (String → Option Column) → Option (String → Option Column)) : Option Schema :=
  s.alterTable t fun tb => (f tb.columns).map fun cs => { tb with columns := cs }

def alterColumn (s : Schema) (t c : String) (f : Column → Column) : Option Schema :=
  s.alterColumns t fun cs => alter cs c fun col => some (f col)

def alterCompositeFks (s : Schema) (t : String)
    (f : (String → Option CompositeFkSnapshot) → Option (String → Option CompositeFkSnapshot)) :
    Option Schema :=
  s.alterTable t fun tb => (f tb.compositeFks).map fun ks => { tb with compositeFks := ks }

def moveTable (old new : String) (s : Schema) : Schema where
  tables := moveSlot old new fun t => (s.tables t).map (Table.retarget old new)
  junctions n := (s.junctions n).map (retargetEnds old new)
  indexes n := (s.indexes n).map (IndexSnapshot.retarget old new)
  checks n := (s.checks n).map (CheckSnapshot.retarget old new)
  excludes n := (s.excludes n).map (ExclusionSnapshot.retarget old new)

def moveColumn (t old new : String) (s : Schema) : Schema where
  tables n := (s.tables n).map fun tb =>
    (if n = t then tb.moveColumn old new else tb).repoint t old new
  junctions := s.junctions
  indexes n := (s.indexes n).map (IndexSnapshot.moveColumn t old new)
  checks := s.checks
  excludes n := (s.excludes n).map (ExclusionSnapshot.moveColumn t old new)

def Taken (s : Schema) (name : String) : Prop := (s.tables name).isSome ∨ (s.junctions name).isSome

instance (s : Schema) (name : String) : Decidable (s.Taken name) :=
  inferInstanceAs (Decidable (_ ∨ _))

def renameTable (s : Schema) (old new : String) : Option Schema :=
  if s.Taken new then none
  else if (s.junctions old).isSome then some { s with junctions := moveSlot old new s.junctions }
  else if (s.tables old).isSome then some (s.moveTable old new)
  else none

def renameColumn (s : Schema) (t old new : String) : Option Schema :=
  match s.junctions t with
  | some j =>
    if old ∈ junctionColumns j ∧ new ∉ junctionColumns j then
      some { s with junctions := update s.junctions t (some (moveEnds old new j)) }
    else none
  | none =>
    if (s.columnAt t old).isSome ∧ s.columnAt t new = none then some (s.moveColumn t old new)
    else none

end Schema

open Schema in
/-- One operation. It fails on a missing or an already existing object, and when what it creates
names a table or column that is not there; the FKs of a new table or column are added at the end of
the batch, so they are not looked at here. -/
def exec (current : SchemaSnapshot) (s : Schema) : SchemaChange → Option Schema
  | .createTable t =>
    (current.table t).bind fun ct =>
      (create s.tables t ct.db).map fun ts => { s with tables := ts }
  | .dropTable t => (drop s.tables t).map fun ts => { s with tables := ts }
  | .addColumn t c =>
    (current.columnAt t c).bind fun f => s.alterColumns t fun cs => create cs c f.db
  | .dropColumn t c => s.alterColumns t fun cs => drop cs c
  | .alterColumnType t c _ to_ =>
    (current.columnAt t c).bind fun f => s.alterColumn t c fun col =>
      { col with ty := to_, default := f.default, caseInsensitive := ciOf to_ f.caseInsensitive }
  | .alterColumnNullable t c nullable => s.alterColumn t c fun col => { col with nullable }
  | .alterColumnDefault t c _ to_ => s.alterColumn t c fun col => { col with default := to_ }
  | .alterColumnMaxLength t c _ to_ => s.alterColumn t c fun col => { col with maxLength := to_ }
  | .alterColumnComment t c _ to_ => s.alterColumn t c fun col => { col with dbComment := to_ }
  | .alterTableComment t _ to_ => s.alterTable t fun tb => some { tb with comment := to_ }
  | .renameTable old new => s.renameTable old new
  | .renameColumn t old new => s.renameColumn t old new
  | .alterColumnUnique t c unique => s.alterColumn t c fun col => { col with unique }
  | .alterFkOnDelete t c _ to_ =>
    s.alterColumns t fun cs => alter cs c fun col =>
      col.fk.map fun k => { col with fk := some { k with onDelete := effectiveAction to_ } }
  | .createIndex name table columns unique method whereClause include_ =>
    let i : IndexSnapshot := ⟨name, table, columns, unique, method, whereClause, include_⟩
    if ∀ r ∈ i.refs, s.Has current r then
      (create s.indexes name i).map fun is => { s with indexes := is }
    else none
  | .dropIndex name table =>
    if (s.indexes name).map (·.table) = some table then
      (drop s.indexes name).map fun is => { s with indexes := is }
    else none
  | .addCheckConstraint name table expr =>
    if ∀ r ∈ CheckSnapshot.refs ⟨name, table, expr⟩, s.Has current r then
      (create s.checks name ⟨name, table, expr⟩).map fun cs => { s with checks := cs }
    else none
  | .dropCheckConstraint name table =>
    if (s.checks name).map (·.table) = some table then
      (drop s.checks name).map fun cs => { s with checks := cs }
    else none
  | .addExclusionConstraint name table using_ elements whereClause =>
    let x : ExclusionSnapshot := ⟨name, table, using_, elements, whereClause⟩
    if ∀ r ∈ x.refs, s.Has current r then
      (create s.excludes name x).map fun xs => { s with excludes := xs }
    else none
  | .dropExclusionConstraint name table =>
    if (s.excludes name).map (·.table) = some table then
      (drop s.excludes name).map fun xs => { s with excludes := xs }
    else none
  | .createM2MTable through srcTable srcCol dstTable dstCol =>
    let m : M2MTableSnapshot := ⟨through, srcTable, srcCol, dstTable, dstCol⟩
    if ∀ r ∈ m.refs, s.Has current r then
      (create s.junctions through m.ends).map fun js => { s with junctions := js }
    else none
  | .dropM2MTable through => (drop s.junctions through).map fun js => { s with junctions := js }
  | .addCompositeFk t name to_ from_ on_ =>
    let k : CompositeFkSnapshot := ⟨name, to_, from_, on_⟩
    if ∀ r ∈ k.refs t, s.Has current r then s.alterCompositeFks t fun ks => create ks name k
    else none
  | .dropCompositeFk t name => s.alterCompositeFks t fun ks => drop ks name

end Rustango.Migrate
