import Mathlib.Data.Prod.Lex
import Mathlib.Data.String.Basic
import Mathlib.Order.Lattice
import Rustango.Lib.Keyed

/-!
# Schema snapshots

The serializable copy of the model registry that migrations diff, merge and roll back to.
-/

namespace Rustango.Migrate

open Rustango.Keyed

structure RelationSnapshot where
  kind : String
  to_ : String
  on_ : String
  onDelete : Option String
deriving DecidableEq, Repr

/-- No clause is `NO ACTION`. -/
def effectiveAction (onDelete : Option String) : String := onDelete.getD "NO ACTION"

structure FieldSnapshot where
  name : String
  column : String
  ty : String
  nullable : Bool
  primaryKey : Bool
  maxLength : Option Nat
  min : Option Int
  max : Option Int
  default : Option String
  auto : Bool
  unique : Bool
  caseInsensitive : Bool
  generatedAs : Option String
  dbComment : Option String
  fk : Option RelationSnapshot
deriving DecidableEq, Repr

structure CompositeFkSnapshot where
  name : String
  to_ : String
  from_ : List String
  on_ : List String
deriving DecidableEq, Repr

structure TableSnapshot where
  name : String
  model : String
  fields : List FieldSnapshot
  compositeFks : List CompositeFkSnapshot
  dbTableComment : Option String
deriving DecidableEq, Repr

structure IndexSnapshot where
  name : String
  table : String
  columns : List String
  unique : Bool
  method : String
  whereClause : Option String
  include_ : List String
deriving DecidableEq, Repr

structure CheckSnapshot where
  name : String
  table : String
  expr : String
deriving DecidableEq, Repr

structure ExclusionSnapshot where
  name : String
  table : String
  using_ : String
  elements : List (String × String)
  whereClause : Option String
deriving DecidableEq, Repr

structure M2MTableSnapshot where
  through : String
  srcTable : String
  srcCol : String
  dstTable : String
  dstCol : String
deriving DecidableEq, Repr

namespace M2MTableSnapshot

/-- The `(table, column)` ends, sorted. -/
def key (m : M2MTableSnapshot) : String × (String × String) × (String × String) :=
  if toLex (m.srcTable, m.srcCol) ≤ toLex (m.dstTable, m.dstCol) then
    (m.through, (m.srcTable, m.srcCol), (m.dstTable, m.dstCol))
  else (m.through, (m.dstTable, m.dstCol), (m.srcTable, m.srcCol))

/-- Equality ignores which end is the source. -/
instance (priority := high) : BEq M2MTableSnapshot := ⟨fun a b => a.key = b.key⟩

theorem beq_iff_key {a b : M2MTableSnapshot} : (a == b) = true ↔ a.key = b.key :=
  decide_eq_true_iff

instance : EquivBEq M2MTableSnapshot where
  rfl := beq_iff_key.mpr rfl
  symm h := beq_iff_key.mpr (beq_iff_key.mp h).symm
  trans h h' := beq_iff_key.mpr ((beq_iff_key.mp h).trans (beq_iff_key.mp h'))

/-- The same junction, or its mirror image. -/
theorem beq_iff {a b : M2MTableSnapshot} : (a == b) = true ↔
    a = b ∨ a = ⟨b.through, b.dstTable, b.dstCol, b.srcTable, b.srcCol⟩ := by
  obtain ⟨t, st, sc, dt, dc⟩ := a
  obtain ⟨t', st', sc', dt', dc'⟩ := b
  rw [beq_iff_key]
  simp only [key]
  split <;> rename_i h <;> split <;> rename_i h'
  · simp only [Prod.mk.injEq, mk.injEq]
    constructor
    · rintro ⟨rfl, ⟨rfl, rfl⟩, rfl, rfl⟩
      exact Or.inl ⟨rfl, rfl, rfl, rfl, rfl⟩
    · rintro (⟨rfl, rfl, rfl, rfl, rfl⟩ | ⟨rfl, rfl, rfl, rfl, rfl⟩)
      · simp
      · have he := le_antisymm h h'
        simp only [toLex_inj, Prod.mk.injEq] at he
        simp [he.1, he.2]
  · simp only [Prod.mk.injEq, mk.injEq]
    constructor
    · rintro ⟨rfl, ⟨rfl, rfl⟩, rfl, rfl⟩
      exact Or.inr ⟨rfl, rfl, rfl, rfl, rfl⟩
    · rintro (⟨rfl, rfl, rfl, rfl, rfl⟩ | ⟨rfl, rfl, rfl, rfl, rfl⟩)
      · exact absurd h h'
      · simp
  · simp only [Prod.mk.injEq, mk.injEq]
    constructor
    · rintro ⟨rfl, ⟨rfl, rfl⟩, rfl, rfl⟩
      exact Or.inr ⟨rfl, rfl, rfl, rfl, rfl⟩
    · rintro (⟨rfl, rfl, rfl, rfl, rfl⟩ | ⟨rfl, rfl, rfl, rfl, rfl⟩)
      · exact absurd h' h
      · simp
  · simp only [Prod.mk.injEq, mk.injEq]
    constructor
    · rintro ⟨rfl, ⟨rfl, rfl⟩, rfl, rfl⟩
      exact Or.inl ⟨rfl, rfl, rfl, rfl, rfl⟩
    · rintro (⟨rfl, rfl, rfl, rfl, rfl⟩ | ⟨rfl, rfl, rfl, rfl, rfl⟩)
      · simp
      · exact absurd ((le_total _ _).resolve_left h) h'

end M2MTableSnapshot

/-- A snapshot of every registered model. -/
structure SchemaSnapshot where
  tables : List TableSnapshot
  m2mTables : List M2MTableSnapshot
  indexes : List IndexSnapshot
  checks : List CheckSnapshot
  excludes : List ExclusionSnapshot
deriving DecidableEq, Repr

/-- The derived `PartialEq`, which compares junctions by their own equality. -/
instance (priority := high) : BEq SchemaSnapshot :=
  ⟨fun a b => a.tables = b.tables && a.m2mTables == b.m2mTables && a.indexes = b.indexes &&
    a.checks = b.checks && a.excludes = b.excludes⟩

def TableSnapshot.field (t : TableSnapshot) (column : String) : Option FieldSnapshot :=
  lookup FieldSnapshot.column t.fields column

def TableSnapshot.compositeFk (t : TableSnapshot) (name : String) : Option CompositeFkSnapshot :=
  lookup CompositeFkSnapshot.name t.compositeFks name

def TableSnapshot.sortFields (t : TableSnapshot) : TableSnapshot :=
  { t with fields := t.fields.insertionSort (·.column ≤ ·.column) }

namespace SchemaSnapshot

def empty : SchemaSnapshot := ⟨[], [], [], [], []⟩

def table (s : SchemaSnapshot) (name : String) : Option TableSnapshot :=
  lookup TableSnapshot.name s.tables name

def m2mTable (s : SchemaSnapshot) (through : String) : Option M2MTableSnapshot :=
  lookup M2MTableSnapshot.through s.m2mTables through

def index (s : SchemaSnapshot) (name : String) : Option IndexSnapshot :=
  lookup IndexSnapshot.name s.indexes name

def check (s : SchemaSnapshot) (name : String) : Option CheckSnapshot :=
  lookup CheckSnapshot.name s.checks name

/-- `excludes.iter().find(|x| x.name == name)`, which the source writes out each time. -/
def exclude (s : SchemaSnapshot) (name : String) : Option ExclusionSnapshot :=
  lookup ExclusionSnapshot.name s.excludes name

/-- One attribute of table `t`; `none` when the table is not there. -/
def attrAt {α : Type} (attr : TableSnapshot → Option α) (s : SchemaSnapshot) (t : String) :
    Option α := (s.table t).bind attr

def modelAt : SchemaSnapshot → String → Option String := attrAt fun u => some u.model

def commentAt : SchemaSnapshot → String → Option (Option String) :=
  attrAt fun u => some u.dbTableComment

def columnAt (s : SchemaSnapshot) (t c : String) : Option FieldSnapshot := s.attrAt (·.field c) t

def compositeFkAt (s : SchemaSnapshot) (t n : String) : Option CompositeFkSnapshot :=
  s.attrAt (·.compositeFk n) t

/-- The order `from_registry` writes, so a rebuilt snapshot diffs clean. -/
def sort (s : SchemaSnapshot) : SchemaSnapshot where
  tables := (s.tables.insertionSort (·.name ≤ ·.name)).map TableSnapshot.sortFields
  m2mTables := s.m2mTables.insertionSort (·.through ≤ ·.through)
  indexes := s.indexes.insertionSort (·.name ≤ ·.name)
  checks := s.checks.insertionSort (·.name ≤ ·.name)
  excludes := s.excludes.insertionSort (·.name ≤ ·.name)

/-- One table per name, one column, index, constraint and junction per key. -/
structure UniqueKeys (s : SchemaSnapshot) : Prop where
  tables : (s.tables.map (·.name)).Nodup
  fields : ∀ t ∈ s.tables, (t.fields.map (·.column)).Nodup
  compositeFks : ∀ t ∈ s.tables, (t.compositeFks.map (·.name)).Nodup
  m2mTables : (s.m2mTables.map (·.through)).Nodup
  indexes : (s.indexes.map (·.name)).Nodup
  checks : (s.checks.map (·.name)).Nodup
  excludes : (s.excludes.map (·.name)).Nodup

instance (s : SchemaSnapshot) : Decidable s.UniqueKeys :=
  decidable_of_iff ((s.tables.map (·.name)).Nodup ∧
      (∀ t ∈ s.tables, (t.fields.map (·.column)).Nodup) ∧
      (∀ t ∈ s.tables, (t.compositeFks.map (·.name)).Nodup) ∧
      (s.m2mTables.map (·.through)).Nodup ∧ (s.indexes.map (·.name)).Nodup ∧
      (s.checks.map (·.name)).Nodup ∧ (s.excludes.map (·.name)).Nodup)
    ⟨fun ⟨h1, h2, h3, h4, h5, h6, h7⟩ => ⟨h1, h2, h3, h4, h5, h6, h7⟩,
      fun ⟨h1, h2, h3, h4, h5, h6, h7⟩ => ⟨h1, h2, h3, h4, h5, h6, h7⟩⟩

theorem table_name {s : SchemaSnapshot} {n : String} {t : TableSnapshot}
    (h : s.table n = some t) : t.name = n := lookup_key _ h

theorem mem_of_table {s : SchemaSnapshot} {n : String} {t : TableSnapshot}
    (h : s.table n = some t) : t ∈ s.tables := mem_of_lookup _ h

theorem UniqueKeys.table_of_mem {s : SchemaSnapshot} (hs : s.UniqueKeys) {t : TableSnapshot}
    (ht : t ∈ s.tables) : s.table t.name = some t := lookup_of_mem _ hs.tables ht

end SchemaSnapshot

theorem TableSnapshot.field_column {t : TableSnapshot} {c : String} {f : FieldSnapshot}
    (h : t.field c = some f) : f.column = c := lookup_key _ h

section Sorting
variable {s : SchemaSnapshot} (hs : s.UniqueKeys)
include hs

theorem SchemaSnapshot.UniqueKeys.sort_table (n : String) :
    s.sort.table n = (s.table n).map TableSnapshot.sortFields := by
  simp only [SchemaSnapshot.table, SchemaSnapshot.sort]
  rw [lookup_map TableSnapshot.name TableSnapshot.name TableSnapshot.sortFields fun _ => rfl,
    lookup_sort _ hs.tables]

theorem SchemaSnapshot.UniqueKeys.sort_m2mTable (n : String) :
    s.sort.m2mTable n = s.m2mTable n := lookup_sort _ hs.m2mTables n

theorem SchemaSnapshot.UniqueKeys.sort_index (n : String) :
    s.sort.index n = s.index n := lookup_sort _ hs.indexes n

theorem SchemaSnapshot.UniqueKeys.sort_check (n : String) :
    s.sort.check n = s.check n := lookup_sort _ hs.checks n

theorem SchemaSnapshot.UniqueKeys.sort_exclude (n : String) :
    s.sort.exclude n = s.exclude n := lookup_sort _ hs.excludes n

theorem SchemaSnapshot.UniqueKeys.sort_field {n : String} {t : TableSnapshot}
    (ht : s.table n = some t) (c : String) :
    (s.sort.table n).bind (·.field c) = t.field c := by
  rw [hs.sort_table, ht]
  exact lookup_sort _ (hs.fields t (SchemaSnapshot.mem_of_table ht)) c

/-- Sorting keeps every key list a permutation of itself. -/
theorem SchemaSnapshot.UniqueKeys.sort : s.sort.UniqueKeys where
  tables := by
    have hp := (List.perm_insertionSort (fun a b : TableSnapshot => a.name ≤ b.name) s.tables).map
      (·.name)
    simpa [SchemaSnapshot.sort, TableSnapshot.sortFields, Function.comp_def] using
      hp.nodup_iff.mpr hs.tables
  fields t ht := by
    obtain ⟨u, hu, rfl⟩ := List.mem_map.mp ht
    have hf := hs.fields u ((List.mem_insertionSort _).mp hu)
    exact ((List.perm_insertionSort _ u.fields).map _).nodup_iff.mpr hf
  compositeFks t ht := by
    obtain ⟨u, hu, rfl⟩ := List.mem_map.mp ht
    exact hs.compositeFks u ((List.mem_insertionSort _).mp hu)
  m2mTables := ((List.perm_insertionSort _ s.m2mTables).map _).nodup_iff.mpr hs.m2mTables
  indexes := ((List.perm_insertionSort _ s.indexes).map _).nodup_iff.mpr hs.indexes
  checks := ((List.perm_insertionSort _ s.checks).map _).nodup_iff.mpr hs.checks
  excludes := ((List.perm_insertionSort _ s.excludes).map _).nodup_iff.mpr hs.excludes

end Sorting

end Rustango.Migrate
