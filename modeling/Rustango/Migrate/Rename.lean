import Rustango.Migrate.Schema

/-!
# Renames on a snapshot

`apply_rename` replays a hand-written rename on a snapshot. On the schema the snapshot describes it
does what the operation does to the database, and it skips a rename the database would refuse.
-/

namespace Rustango.Migrate

open Function hiding swap
open Rustango.Keyed Rustango.Slots

def FieldSnapshot.retarget (old new : String) (f : FieldSnapshot) : FieldSnapshot :=
  { f with fk := f.fk.map fun rel => { rel with to_ := swap old new rel.to_ } }

def TableSnapshot.retarget (old new : String) (t : TableSnapshot) : TableSnapshot :=
  { t with
    name := swap old new t.name
    fields := t.fields.map (FieldSnapshot.retarget old new)
    compositeFks := t.compositeFks.map (CompositeFkSnapshot.retarget old new) }

def M2MTableSnapshot.retarget (old new : String) (m : M2MTableSnapshot) : M2MTableSnapshot :=
  { m with srcTable := swap old new m.srcTable, dstTable := swap old new m.dstTable }

def FieldSnapshot.moveColumn (old new : String) (f : FieldSnapshot) : FieldSnapshot :=
  { f with column := swap old new f.column }

/-- The column and its place in the table's own composite FKs. -/
def TableSnapshot.moveColumn (old new : String) (t : TableSnapshot) : TableSnapshot :=
  { t with
    fields := t.fields.map (FieldSnapshot.moveColumn old new)
    compositeFks := t.compositeFks.map (CompositeFkSnapshot.moveColumn old new) }

def FieldSnapshot.repoint (table old new : String) (f : FieldSnapshot) : FieldSnapshot :=
  { f with fk := f.fk.map fun rel =>
      if rel.to_ = table then { rel with on_ := swap old new rel.on_ } else rel }

/-- The FKs of any table that point at the column. -/
def TableSnapshot.repoint (table old new : String) (t : TableSnapshot) : TableSnapshot :=
  { t with
    fields := t.fields.map (FieldSnapshot.repoint table old new)
    compositeFks := t.compositeFks.map (CompositeFkSnapshot.repoint table old new) }

/-- A junction's column, unless the junction already has the new name. -/
def M2MTableSnapshot.moveColumn (old new : String) (m : M2MTableSnapshot) : M2MTableSnapshot :=
  if m.srcCol ≠ new ∧ m.dstCol ≠ new then
    { m with srcCol := swap old new m.srcCol, dstCol := swap old new m.dstCol }
  else m

namespace SchemaSnapshot

def moveTable (old new : String) (s : SchemaSnapshot) : SchemaSnapshot where
  tables := s.tables.map (TableSnapshot.retarget old new)
  m2mTables := s.m2mTables.map (M2MTableSnapshot.retarget old new)
  indexes := s.indexes.map (IndexSnapshot.retarget old new)
  checks := s.checks.map (CheckSnapshot.retarget old new)
  excludes := s.excludes.map (ExclusionSnapshot.retarget old new)

/-- The table that a column rename finds. -/
def renames (table old new : String) (t : TableSnapshot) : Bool :=
  t.name = table && (t.field new).isNone && (t.field old).isSome

def moveColumn (table old new : String) (s : SchemaSnapshot) : SchemaSnapshot where
  tables := (modifyFirst (renames table old new) (TableSnapshot.moveColumn old new) s.tables).map
    (TableSnapshot.repoint table old new)
  m2mTables := s.m2mTables
  indexes := s.indexes.map (IndexSnapshot.moveColumn table old new)
  checks := s.checks
  excludes := s.excludes.map (ExclusionSnapshot.moveColumn table old new)

/-- A junction's own column: M2M diffs emit these. -/
def moveJunctionColumn (table old new : String) (s : SchemaSnapshot) : SchemaSnapshot :=
  { s with m2mTables :=
      modifyFirst (·.through = table) (M2MTableSnapshot.moveColumn old new) s.m2mTables }

/-- A junction's own name: `through` is all that names it. -/
def moveJunction (old new : String) (s : SchemaSnapshot) : SchemaSnapshot :=
  { s with m2mTables := modifyFirst (·.through = old) ({ · with through := new }) s.m2mTables }

/-- `apply_rename`: one already in the snapshot is a no-op. -/
def applyRename (s : SchemaSnapshot) : SchemaChange → SchemaSnapshot
  | .renameTable old new =>
    let taken := (s.table new).isSome || (s.m2mTable new).isSome
    if (s.m2mTable old).isSome then
      if taken then s else (s.moveJunction old new).sort
    else if taken || (s.table old).isNone then s
    else (s.moveTable old new).sort
  | .renameColumn table old new =>
    let s := s.moveJunctionColumn table old new
    if s.tables.any (renames table old new) then (s.moveColumn table old new).sort else s
  | _ => s

end SchemaSnapshot

def Schema.moveJunctionColumn (t old new : String) (s : Schema) : Schema :=
  { s with junctions := fun n => (s.junctions n).map fun j =>
      if n = t ∧ new ∉ junctionColumns j then moveEnds old new j else j }

/-- A rename on a schema, skipped where it does not apply. A junction and a table of one name, which
no database holds, would both be renamed. -/
def Schema.applyRename (s : Schema) : SchemaChange → Schema
  | .renameTable old new => (s.renameTable old new).getD s
  | .renameColumn t old new =>
    let s := s.moveJunctionColumn t old new
    if (s.columnAt t old).isSome ∧ s.columnAt t new = none then s.moveColumn t old new else s
  | _ => s

/-- No name is both a table and a junction. -/
def Schema.OneName (s : Schema) : Prop := ∀ n, s.tables n = none ∨ s.junctions n = none

section Sorting
variable {s : SchemaSnapshot} (hs : s.UniqueKeys)
include hs

/-- The order of a snapshot is nothing its schema shows. -/
theorem SchemaSnapshot.UniqueKeys.db_sort : s.sort.db = s.db := by
  have htable : ∀ n, (s.sort.table n).map TableSnapshot.db = (s.table n).map TableSnapshot.db := by
    intro n
    rw [hs.sort_table]
    cases ht : s.table n with
    | none => rfl
    | some t =>
      have hf := hs.fields t (SchemaSnapshot.mem_of_table ht)
      have hdb : t.sortFields.db = t.db := by
        ext1
        · rfl
        · funext c
          exact congrArg (Option.map FieldSnapshot.db) (lookup_sort FieldSnapshot.column hf c)
        · rfl
      simp [hdb]
  ext1
  · exact funext htable
  · exact funext fun n => by simp only [SchemaSnapshot.db, hs.sort_m2mTable]
  · exact funext hs.sort_index
  · exact funext hs.sort_check
  · exact funext hs.sort_exclude

end Sorting

section Tables
variable {s : SchemaSnapshot} {old new : String}

private theorem retarget_db (t : TableSnapshot) : (t.retarget old new).db = t.db.retarget old new := by
  ext1
  · rfl
  · funext c
    have h := lookup_map_key FieldSnapshot.column (FieldSnapshot.retarget old new) (fun _ => rfl)
      t.fields c
    change (lookup FieldSnapshot.column (t.fields.map _) c).map _ = _
    rw [h]
    change _ = ((t.field c).map _).map _
    rw [Option.map_map, Option.map_map]
    apply congrArg (Option.map · _)
    funext f
    cases hf : f.fk <;> simp [FieldSnapshot.db, FieldSnapshot.retarget, Column.retarget, hf]
    rfl
  · funext n
    exact lookup_map_key CompositeFkSnapshot.name (CompositeFkSnapshot.retarget old new) (fun _ => rfl) _ _

theorem SchemaSnapshot.moveTable_db (hnew : s.table new = none) :
    (s.moveTable old new).db = s.db.moveTable old new := by
  ext1
  · funext n
    have h : (s.moveTable old new).table n =
        moveSlot old new (fun j => (s.table j).map (TableSnapshot.retarget old new)) n :=
      lookup_map_move TableSnapshot.name _ (fun _ => rfl) hnew n
    simp only [SchemaSnapshot.db, Schema.moveTable, h, moveSlot_apply]
    split
    · cases s.table old <;> simp [retarget_db]
    · split
      · rfl
      · cases s.table n <;> simp [retarget_db]
  · funext n
    have h : (s.moveTable old new).m2mTable n =
        (s.m2mTable n).map (M2MTableSnapshot.retarget old new) :=
      lookup_map_key _ (M2MTableSnapshot.retarget old new) (fun _ => rfl) _ _
    simp only [SchemaSnapshot.db, Schema.moveTable, h]
    cases s.m2mTable n <;> rfl
  · funext n
    exact lookup_map_key IndexSnapshot.name (IndexSnapshot.retarget old new) (fun _ => rfl) _ _
  · funext n
    exact lookup_map_key CheckSnapshot.name (CheckSnapshot.retarget old new) (fun _ => rfl) _ _
  · funext n
    exact lookup_map_key ExclusionSnapshot.name (ExclusionSnapshot.retarget old new) (fun _ => rfl) _ _

theorem SchemaSnapshot.UniqueKeys.moveTable (hs : s.UniqueKeys) (hnew : s.table new = none) :
    (s.moveTable old new).UniqueKeys where
  tables := by
    have hn : new ∉ s.tables.map (·.name) := fun h => by
      have := lookup_isSome TableSnapshot.name |>.mpr h
      simp [show lookup TableSnapshot.name s.tables new = none from hnew] at this
    have h := nodup_map_swap old hs.tables hn
    rw [List.map_map] at h
    rw [SchemaSnapshot.moveTable, List.map_map]
    exact h
  fields t ht := by
    obtain ⟨u, hu, rfl⟩ := List.mem_map.mp ht
    exact nodup_map_key FieldSnapshot.column (FieldSnapshot.retarget old new) (fun _ => rfl) (hs.fields u hu)
  compositeFks t ht := by
    obtain ⟨u, hu, rfl⟩ := List.mem_map.mp ht
    exact nodup_map_key CompositeFkSnapshot.name (CompositeFkSnapshot.retarget old new) (fun _ => rfl) (hs.compositeFks u hu)
  m2mTables := nodup_map_key M2MTableSnapshot.through (M2MTableSnapshot.retarget old new) (fun _ => rfl) hs.m2mTables
  indexes := nodup_map_key IndexSnapshot.name (IndexSnapshot.retarget old new) (fun _ => rfl) hs.indexes
  checks := nodup_map_key CheckSnapshot.name (CheckSnapshot.retarget old new) (fun _ => rfl) hs.checks
  excludes := nodup_map_key ExclusionSnapshot.name (ExclusionSnapshot.retarget old new) (fun _ => rfl) hs.excludes

end Tables

section Columns
variable {s : SchemaSnapshot} {table old new : String}

private theorem repoint_db (t : TableSnapshot) :
    (t.repoint table old new).db = t.db.repoint table old new := by
  ext1
  · rfl
  · funext c
    have h := lookup_map_key FieldSnapshot.column (FieldSnapshot.repoint table old new)
      (fun _ => rfl) t.fields c
    change (lookup FieldSnapshot.column (t.fields.map _) c).map _ = _
    rw [h]
    change _ = ((t.field c).map _).map _
    rw [Option.map_map, Option.map_map]
    apply congrArg (Option.map · _)
    funext f
    cases hf : f.fk with
    | none => simp [FieldSnapshot.db, FieldSnapshot.repoint, Column.repoint, hf]
    | some rel =>
      by_cases hr : rel.to_ = table <;>
        simp [FieldSnapshot.db, FieldSnapshot.repoint, Column.repoint, ForeignKey.repoint,
          RelationSnapshot.db, hf, hr]
  · funext n
    exact lookup_map_key CompositeFkSnapshot.name (CompositeFkSnapshot.repoint table old new)
      (fun k => by unfold CompositeFkSnapshot.repoint; split <;> rfl) _ _

private theorem moveColumn_db (t : TableSnapshot) (hnew : t.field new = none) :
    (t.moveColumn old new).db = t.db.moveColumn old new := by
  ext1
  · rfl
  · funext c
    have h := lookup_map_move FieldSnapshot.column (FieldSnapshot.moveColumn old new) (fun _ => rfl)
      hnew c
    change (lookup FieldSnapshot.column (t.fields.map _) c).map _ = _
    rw [h]
    simp only [Table.moveColumn, moveSlot_apply, TableSnapshot.db, TableSnapshot.field]
    split
    · rw [Option.map_map]
      rfl
    · split
      · rfl
      · rw [Option.map_map]
        rfl
  · funext n
    exact lookup_map_key CompositeFkSnapshot.name (CompositeFkSnapshot.moveColumn old new)
      (fun _ => rfl) _ _

private theorem moveColumn_tables (hs : s.UniqueKeys) {t : TableSnapshot}
    (ht : s.table table = some t) (hr : SchemaSnapshot.renames table old new t) :
    (s.moveColumn table old new).tables = s.tables.map fun u =>
      TableSnapshot.repoint table old new
        (if u.name = table then u.moveColumn old new else u) := by
  have hp : ∀ u ∈ s.tables, SchemaSnapshot.renames table old new u ↔ u.name = table := by
    intro u hu
    constructor
    · intro h
      simp only [SchemaSnapshot.renames, Bool.and_eq_true, decide_eq_true_eq] at h
      exact h.1.1
    · intro h
      have hut : s.table table = some u := h ▸ hs.table_of_mem hu
      obtain rfl := Option.some.inj (ht.symm.trans hut)
      exact hr
  rw [SchemaSnapshot.moveColumn,
    modifyFirst_eq_map TableSnapshot.name (TableSnapshot.moveColumn old new) hs.tables hp,
    List.map_map]
  rfl

theorem SchemaSnapshot.moveColumn_db (hs : s.UniqueKeys) {t : TableSnapshot}
    (ht : s.table table = some t) (hr : SchemaSnapshot.renames table old new t) :
    (s.moveColumn table old new).db = s.db.moveColumn table old new := by
  have hnew : t.field new = none := by
    simp only [SchemaSnapshot.renames, Bool.and_eq_true, Option.isNone_iff_eq_none] at hr
    exact hr.1.2
  ext1
  · funext n
    have h : (s.moveColumn table old new).table n = (s.table n).map fun u =>
        TableSnapshot.repoint table old new
          (if u.name = table then u.moveColumn old new else u) := by
      rw [SchemaSnapshot.table, moveColumn_tables hs ht hr]
      exact lookup_map_key TableSnapshot.name _ (fun u => by split <;> rfl) _ _
    simp only [SchemaSnapshot.db, Schema.moveColumn, h]
    cases hn : s.table n with
    | none => rfl
    | some u =>
      have hun : u.name = n := SchemaSnapshot.table_name hn
      simp only [Option.map_some, repoint_db, hun]
      by_cases hnt : n = table
      · subst hnt
        obtain rfl := Option.some.inj (ht.symm.trans hn)
        rw [if_pos rfl, if_pos rfl, moveColumn_db t hnew]
      · rw [if_neg hnt, if_neg hnt]
  · rfl
  · funext n
    exact lookup_map_key IndexSnapshot.name (IndexSnapshot.moveColumn table old new)
      (fun i => by unfold IndexSnapshot.moveColumn; split <;> rfl) _ _
  · rfl
  · funext n
    exact lookup_map_key ExclusionSnapshot.name (ExclusionSnapshot.moveColumn table old new)
      (fun x => by unfold ExclusionSnapshot.moveColumn; split <;> rfl) _ _

theorem SchemaSnapshot.UniqueKeys.moveColumn (hs : s.UniqueKeys) {t : TableSnapshot}
    (ht : s.table table = some t) (hr : SchemaSnapshot.renames table old new t) :
    (s.moveColumn table old new).UniqueKeys where
  tables := by
    rw [moveColumn_tables hs ht hr]
    exact nodup_map_key TableSnapshot.name _ (fun u => by split <;> rfl) hs.tables
  fields u hu := by
    rw [moveColumn_tables hs ht hr] at hu
    obtain ⟨v, hv, rfl⟩ := List.mem_map.mp hu
    refine nodup_map_key FieldSnapshot.column (FieldSnapshot.repoint table old new) (fun _ => rfl) ?_
    split
    · rename_i hvt
      have hvv : s.table table = some v := hvt ▸ hs.table_of_mem hv
      obtain rfl := Option.some.inj (ht.symm.trans hvv)
      simp only [SchemaSnapshot.renames, Bool.and_eq_true, Option.isNone_iff_eq_none] at hr
      have hn : new ∉ t.fields.map (·.column) := fun h => by
        have hsome := (lookup_isSome FieldSnapshot.column).mpr h
        rw [show lookup FieldSnapshot.column t.fields new = none from hr.1.2] at hsome
        cases hsome
      have h := nodup_map_swap old (hs.fields t hv) hn
      rw [List.map_map] at h
      rw [TableSnapshot.moveColumn, List.map_map]
      exact h
    · exact hs.fields v hv
  compositeFks u hu := by
    rw [moveColumn_tables hs ht hr] at hu
    obtain ⟨v, hv, rfl⟩ := List.mem_map.mp hu
    refine nodup_map_key CompositeFkSnapshot.name (CompositeFkSnapshot.repoint table old new)
      (fun k => by unfold CompositeFkSnapshot.repoint; split <;> rfl) ?_
    split
    · exact nodup_map_key CompositeFkSnapshot.name (CompositeFkSnapshot.moveColumn old new)
        (fun _ => rfl) (hs.compositeFks v hv)
    · exact hs.compositeFks v hv
  m2mTables := hs.m2mTables
  indexes := nodup_map_key IndexSnapshot.name (IndexSnapshot.moveColumn table old new)
    (fun i => by unfold IndexSnapshot.moveColumn; split <;> rfl) hs.indexes
  checks := hs.checks
  excludes := nodup_map_key ExclusionSnapshot.name (ExclusionSnapshot.moveColumn table old new)
    (fun x => by unfold ExclusionSnapshot.moveColumn; split <;> rfl) hs.excludes

end Columns

section Junctions
variable {s : SchemaSnapshot} {old new : String} (hs : s.UniqueKeys)
include hs

private theorem moveJunction_list :
    (s.moveJunction old new).m2mTables = s.m2mTables.map fun m =>
      if m.through = old then { m with through := new } else m :=
  modifyFirst_eq_map M2MTableSnapshot.through _ hs.m2mTables fun m _ => by simp

omit hs in
private theorem moveJunction_through (m : M2MTableSnapshot) :
    (if m.through = old then { m with through := new } else m).through =
      swap old new m.through := by
  unfold swap
  split <;> rfl

theorem SchemaSnapshot.moveJunction_db (hnew : s.m2mTable new = none) :
    (s.moveJunction old new).db =
      { s.db with junctions := moveSlot old new s.db.junctions } := by
  ext1
  · rfl
  · funext n
    have h : (s.moveJunction old new).m2mTable n = moveSlot old new (fun j =>
        (s.m2mTable j).map fun m => if m.through = old then { m with through := new } else m) n := by
      rw [SchemaSnapshot.m2mTable, moveJunction_list hs]
      exact lookup_map_move M2MTableSnapshot.through _ moveJunction_through hnew n
    have hends : ∀ m : M2MTableSnapshot,
        (if m.through = old then { m with through := new } else m).ends = m.ends := by
      intro m
      split <;> rfl
    simp only [SchemaSnapshot.db, h, moveSlot_apply]
    split
    · rw [Option.map_map, Function.comp_def]
      simp only [hends]
    · split
      · rfl
      · rw [Option.map_map, Function.comp_def]
        simp only [hends]
  · rfl
  · rfl
  · rfl

theorem SchemaSnapshot.UniqueKeys.moveJunction (hnew : s.m2mTable new = none) :
    (s.moveJunction old new).UniqueKeys where
  tables := hs.tables
  fields := hs.fields
  compositeFks := hs.compositeFks
  m2mTables := by
    have hn : new ∉ s.m2mTables.map (·.through) := fun h => by
      have hsome := (lookup_isSome M2MTableSnapshot.through).mpr h
      rw [show lookup M2MTableSnapshot.through s.m2mTables new = none from hnew] at hsome
      cases hsome
    have h := nodup_map_swap old hs.m2mTables hn
    rw [List.map_map] at h
    rw [moveJunction_list hs, List.map_map]
    simpa only [Function.comp_def, moveJunction_through] using h
  indexes := hs.indexes
  checks := hs.checks
  excludes := hs.excludes

omit hs in
private theorem moveColumn_ends (m : M2MTableSnapshot) : (m.moveColumn old new).ends =
    if new ∉ junctionColumns m.ends then moveEnds old new m.ends else m.ends := by
  have hc : new ∉ junctionColumns m.ends ↔ m.srcCol ≠ new ∧ m.dstCol ≠ new := by
    simp [junctionColumns, M2MTableSnapshot.ends, Sym2.map_mk, Sym2.mem_iff, eq_comm]
  unfold M2MTableSnapshot.moveColumn
  by_cases h : m.srcCol ≠ new ∧ m.dstCol ≠ new
  · rw [if_pos h, if_pos (hc.mpr h)]
    rfl
  · rw [if_neg h, if_neg fun h' => h (hc.mp h')]

variable {table : String}

private theorem moveJunctionColumn_list :
    (s.moveJunctionColumn table old new).m2mTables = s.m2mTables.map fun m =>
      if m.through = table then m.moveColumn old new else m :=
  modifyFirst_eq_map M2MTableSnapshot.through _ hs.m2mTables fun m _ => by simp

omit hs in
private theorem moveJunctionColumn_through (m : M2MTableSnapshot) :
    (if m.through = table then m.moveColumn old new else m).through = m.through := by
  unfold M2MTableSnapshot.moveColumn
  split
  · split <;> rfl
  · rfl

theorem SchemaSnapshot.moveJunctionColumn_db :
    (s.moveJunctionColumn table old new).db = s.db.moveJunctionColumn table old new := by
  ext1
  · rfl
  · funext n
    have h : (s.moveJunctionColumn table old new).m2mTable n = (s.m2mTable n).map fun m =>
        if m.through = table then m.moveColumn old new else m := by
      rw [SchemaSnapshot.m2mTable, moveJunctionColumn_list hs]
      exact lookup_map_key M2MTableSnapshot.through _ moveJunctionColumn_through _ _
    simp only [SchemaSnapshot.db, Schema.moveJunctionColumn, h]
    cases hn : s.m2mTable n with
    | none => rfl
    | some m =>
      have hmn : m.through = n := lookup_key _ hn
      simp only [Option.map_some, hmn]
      by_cases hnt : n = table
      · simp [hnt, moveColumn_ends]
      · simp [hnt]
  · rfl
  · rfl
  · rfl

theorem SchemaSnapshot.UniqueKeys.moveJunctionColumn :
    (s.moveJunctionColumn table old new).UniqueKeys where
  tables := hs.tables
  fields := hs.fields
  compositeFks := hs.compositeFks
  m2mTables := by
    rw [moveJunctionColumn_list hs]
    exact nodup_map_key M2MTableSnapshot.through _ moveJunctionColumn_through hs.m2mTables
  indexes := hs.indexes
  checks := hs.checks
  excludes := hs.excludes

end Junctions

section ApplyRename
variable {s : SchemaSnapshot} (hs : s.UniqueKeys)
include hs

private theorem any_renames_iff {table old new : String} :
    s.tables.any (SchemaSnapshot.renames table old new) = true ↔
      ∃ t, s.table table = some t ∧ SchemaSnapshot.renames table old new t := by
  rw [List.any_eq_true]
  constructor
  · intro ⟨t, ht, hr⟩
    have hn := hr
    simp only [SchemaSnapshot.renames, Bool.and_eq_true, decide_eq_true_eq] at hn
    exact ⟨t, hn.1.1 ▸ hs.table_of_mem ht, hr⟩
  · intro ⟨t, ht, hr⟩
    exact ⟨t, SchemaSnapshot.mem_of_table ht, hr⟩

private theorem any_renames_db {table old new : String} :
    s.tables.any (SchemaSnapshot.renames table old new) = true ↔
      (s.db.columnAt table old).isSome ∧ s.db.columnAt table new = none := by
  rw [any_renames_iff hs]
  cases ht : s.table table with
  | none => simp [Schema.columnAt, SchemaSnapshot.db, ht]
  | some t =>
    have hn : t.name = table := SchemaSnapshot.table_name ht
    simp [Schema.columnAt, SchemaSnapshot.db, ht, TableSnapshot.db, SchemaSnapshot.renames, hn,
      and_comm]

omit hs in
private theorem taken_iff (n : String) :
    ((s.table n).isSome || (s.m2mTable n).isSome) = true ↔ s.db.Taken n := by
  simp [Schema.Taken, SchemaSnapshot.db]

/-- What `apply_rename` does to a snapshot is the rename of the schema it describes. -/
theorem SchemaSnapshot.UniqueKeys.applyRename_db (c : SchemaChange) :
    (s.applyRename c).db = s.db.applyRename c ∧ (s.applyRename c).UniqueKeys := by
  cases c with
  | renameTable old new =>
    simp only [SchemaSnapshot.applyRename, Schema.applyRename, Schema.renameTable]
    by_cases ht : s.db.Taken new
    · have htb := (taken_iff new).mpr ht
      simp [htb, ht, hs]
    · have htb : ((s.table new).isSome || (s.m2mTable new).isSome) = false := by
        rw [Bool.eq_false_iff]
        exact fun h => ht ((taken_iff new).mp h)
      have hnew : s.table new = none ∧ s.m2mTable new = none := by
        simpa [Bool.or_eq_false_iff] using htb
      have hj : (s.db.junctions old).isSome = (s.m2mTable old).isSome := Option.isSome_map
      have htab : (s.db.tables old).isSome = (s.table old).isSome := Option.isSome_map
      rw [htb, if_neg ht, hj, htab]
      by_cases hjo : (s.m2mTable old).isSome = true
      · have hu : (s.moveJunction old new).UniqueKeys := hs.moveJunction hnew.2
        rw [if_pos hjo, if_pos hjo]
        simp only [Bool.false_eq_true, if_false]
        exact ⟨hu.db_sort.trans (SchemaSnapshot.moveJunction_db hs hnew.2), hu.sort⟩
      · rw [if_neg hjo, if_neg hjo]
        by_cases hto : (s.table old).isSome = true
        · have hno : (s.table old).isNone = false := by simpa using hto
          have hu : (s.moveTable old new).UniqueKeys := hs.moveTable hnew.1
          simp only [hno, Bool.or_self, Bool.false_eq_true, if_false, if_pos hto]
          exact ⟨hu.db_sort.trans (SchemaSnapshot.moveTable_db hnew.1), hu.sort⟩
        · have hno : (s.table old).isNone = true := by simpa using hto
          simp [hno, hto, hs]
  | renameColumn table old new =>
    have hdb : (s.moveJunctionColumn table old new).db = s.db.moveJunctionColumn table old new :=
      SchemaSnapshot.moveJunctionColumn_db hs
    have hu : (s.moveJunctionColumn table old new).UniqueKeys := hs.moveJunctionColumn
    simp only [SchemaSnapshot.applyRename, Schema.applyRename]
    rw [← hdb]
    generalize s.moveJunctionColumn table old new = s' at hu
    by_cases h : s'.tables.any (SchemaSnapshot.renames table old new) = true
    · obtain ⟨t, ht, hr⟩ := (any_renames_iff hu).mp h
      have hu' := hu.moveColumn ht hr
      rw [if_pos h, if_pos ((any_renames_db hu).mp h)]
      exact ⟨hu'.db_sort.trans (SchemaSnapshot.moveColumn_db hu ht hr), hu'.sort⟩
    · rw [if_neg h, if_neg fun h' => h ((any_renames_db hu).mpr h')]
      exact ⟨rfl, hu⟩
  | _ => exact ⟨rfl, hs⟩

theorem SchemaSnapshot.UniqueKeys.foldl_applyRename_db (cs : List SchemaChange) :
    (cs.foldl SchemaSnapshot.applyRename s).db = cs.foldl Schema.applyRename s.db := by
  induction cs generalizing s with
  | nil => rfl
  | cons c cs ih =>
    obtain ⟨hdb, hu⟩ := hs.applyRename_db c
    rw [List.foldl_cons, List.foldl_cons, ih hu, hdb]

end ApplyRename

section Exec
variable {current : SchemaSnapshot} {s s' : Schema} {c : SchemaChange}

private theorem junction_rename (h : s.OneName) {t old new : String} {j : Junction}
    (hj : s.junctions t = some j) (hnew : new ∉ junctionColumns j) :
    s.applyRename (.renameColumn t old new) =
      { s with junctions := update s.junctions t (some (moveEnds old new j)) } := by
  have ht : s.tables t = none := (h t).resolve_right (by simp [hj])
  have hcol : ∀ js : String → Option Junction, ∀ c,
      ({ s with junctions := js } : Schema).columnAt t c = none := by
    intro js c
    simp [Schema.columnAt, ht]
  simp only [Schema.applyRename, Schema.moveJunctionColumn, hcol, Option.isSome_none,
    Bool.false_eq_true, false_and, if_false]
  congr 1
  funext n
  by_cases hn : n = t
  · subst hn
    simp [hj, hnew]
  · simp [hn]

private theorem applyRename_of_exec (h : s.OneName) (hc : c.isRename) (he : exec current s c = some s') :
    s.applyRename c = s' := by
  cases c with
  | renameTable old new =>
    change s.renameTable old new = some s' at he
    simp [Schema.applyRename, he]
  | renameColumn t old new =>
    change s.renameColumn t old new = some s' at he
    unfold Schema.renameColumn at he
    split at he
    · rename_i j hj
      split at he
      · rename_i hcols
        rw [junction_rename h hj hcols.2]
        exact Option.some.inj he
      · cases he
    · rename_i hj
      split at he
      · rename_i hcols
        have hsame : s.moveJunctionColumn t old new = s := by
          ext1
          · rfl
          · funext n
            by_cases hn : n = t
            · subst hn
              simp [Schema.moveJunctionColumn, hj]
            · simp [Schema.moveJunctionColumn, hn]
          · rfl
          · rfl
          · rfl
        simp only [Schema.applyRename]
        rw [hsame, if_pos hcols]
        exact Option.some.inj he
      · cases he
  | _ => cases hc

private theorem oneName_of_exec (h : s.OneName) (hc : c.isRename) (he : exec current s c = some s') :
    s'.OneName := by
  cases c with
  | renameTable old new =>
    change s.renameTable old new = some s' at he
    unfold Schema.renameTable at he
    split at he
    · cases he
    · rename_i htaken
      simp only [Schema.Taken, not_or, Option.not_isSome_iff_eq_none] at htaken
      split at he
      · obtain rfl := Option.some.inj he
        intro n
        simp only [moveSlot_apply]
        by_cases hn : n = new
        · exact Or.inl (hn ▸ htaken.1)
        · rw [if_neg hn]
          by_cases ho : n = old
          · exact Or.inr (if_pos ho)
          · rw [if_neg ho]
            exact h n
      · split at he
        · obtain rfl := Option.some.inj he
          intro n
          simp only [Schema.moveTable, moveSlot_apply, Option.map_eq_none_iff]
          by_cases hn : n = new
          · exact Or.inr (hn ▸ htaken.2)
          · rw [if_neg hn]
            by_cases ho : n = old
            · exact Or.inl (if_pos ho)
            · rw [if_neg ho]
              simpa using h n
        · cases he
  | renameColumn t old new =>
    change s.renameColumn t old new = some s' at he
    unfold Schema.renameColumn at he
    split at he
    · rename_i j hj
      split at he
      · obtain rfl := Option.some.inj he
        intro n
        by_cases hn : n = t
        · exact Or.inl ((h n).resolve_right (by simp [hn, hj]))
        · simpa [hn] using h n
      · cases he
    · split at he
      · obtain rfl := Option.some.inj he
        intro n
        simpa [Schema.moveColumn] using h n
      · cases he
  | _ => cases hc

theorem foldl_applyRename_of_run (h : s.OneName) {cs : List SchemaChange}
    (hcs : ∀ c ∈ cs, c.isRename) (hr : run (exec current) s cs = some s') :
    cs.foldl Schema.applyRename s = s' := by
  induction cs generalizing s with
  | nil => exact Option.some.inj hr
  | cons c cs ih =>
    rw [run_cons, Option.bind_eq_some_iff] at hr
    obtain ⟨t, ht, hrun⟩ := hr
    have hc := hcs c List.mem_cons_self
    rw [List.foldl_cons, applyRename_of_exec h hc ht]
    exact ih (oneName_of_exec h hc ht) (fun c' hc' => hcs c' (List.mem_cons_of_mem c hc')) hrun

end Exec

end Rustango.Migrate
