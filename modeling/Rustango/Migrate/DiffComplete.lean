import Rustango.Migrate.DiffTables

/-!
# The diff is complete

Running `detect_changes` over the previous schema never meets a missing or an existing object, and
when nothing is unsupported it ends in the current schema.
-/

namespace Rustango.Migrate

open Function hiding swap
open Rustango.Keyed Rustango.Slots

section Run
variable {prev current : SchemaSnapshot}

/-- The tables once every column is in place and every old table is gone. -/
def movedTables (prev current : SchemaSnapshot) : String → Option Table :=
  staged prev current withColumns (fun _ => none) fun ct => some ct.db

/-- Where the run ends. -/
def reached (prev current : SchemaSnapshot) : Schema where
  tables := withFks (movedTables prev current) (fks prev current fun _ ct => ct.compositeFk)
  junctions := current.db.junctions
  indexes := current.index
  checks := current.check
  excludes := current.exclude

private theorem prev_staged : prev.db.tables =
    staged prev current (fun pt _ => pt.db) (fun pt => some pt.db) fun _ => none := by
  funext n
  cases hp : prev.table n with
  | none => cases hc : current.table n <;> simp [staged, hp, hc]
  | some pt => cases hc : current.table n <;> simp [staged, hp, hc]

private theorem movedTables_withFks : movedTables prev current = withFks (movedTables prev current)
    (fks prev current fun pt ct => kept pt.compositeFk ct.compositeFk) := by
  funext n
  cases hp : prev.table n with
  | none =>
    cases hc : current.table n with
    | none => simp [movedTables, withFks, staged, hp, hc]
    | some ct => simp [movedTables, withFks, fks, staged, hp, hc, TableSnapshot.db]
  | some pt =>
    cases hc : current.table n with
    | none => simp [movedTables, withFks, staged, hp, hc]
    | some ct =>
      simp [movedTables, withFks, fks, staged, hp, hc, withColumns, withComment, withAltered,
        withKeptFks]

private theorem movedTables_columns {t c : String} {f : FieldSnapshot} (h : current.columnAt t c = some f) :
    ((movedTables prev current t).bind (·.columns c)).isSome := by
  obtain ⟨ct, hct, hf⟩ := SchemaSnapshot.columnAt_eq_some.mp h
  cases hp : prev.table t with
  | none => simp [movedTables, staged, hp, hct, hf]
  | some pt => simp [movedTables, staged, hp, hct, withColumns, columnsNow, hf]

private theorem movedTables_resolves : Resolves current (movedTables prev current) := by
  intro r hr
  cases r with
  | table t =>
    obtain ⟨ct, hct⟩ := Option.isSome_iff_exists.mp hr
    cases hp : prev.table t <;> simp [Schema.Has, movedTables, staged, hp, hct]
  | column t c =>
    obtain ⟨f, hf⟩ := Option.isSome_iff_exists.mp hr
    exact movedTables_columns hf
  | key t =>
    obtain ⟨f, hf⟩ := Option.isSome_iff_exists.mp hr
    exact movedTables_columns hf

variable (hp : prev.WellFormed) (hc : current.WellFormed)
include hp hc

private theorem run_droppedObjects : run (exec current) prev.db (droppedObjects prev current) =
    some ⟨staged prev current withKeptFks (fun pt => some pt.db) fun _ => none,
      keptJunction prev current, kept prev.index current.index, kept prev.check current.check,
      kept prev.exclude current.exclude⟩ := by
  have hstart : prev.db =
      ⟨staged prev current (fun pt _ => pt.db) (fun pt => some pt.db) fun _ => none,
        prev.db.junctions, prev.index, prev.check, prev.exclude⟩ := by
    rw [← prev_staged]
    rfl
  rw [hstart, droppedObjects]
  apply run_append_of _ (run_dropM2MTables hp hc)
  apply run_append_of _ (run_dropExcludes hp.keys)
  apply run_append_of _ (run_dropChecks hp.keys)
  apply run_append_of _ (run_dropIndexes hp.keys)
  exact run_dropCompositeFks hp.keys

private theorem run_changedTables {js : String → Option Junction} {is : String → Option IndexSnapshot}
    {cs : String → Option CheckSnapshot} {xs : String → Option ExclusionSnapshot} :
    run (exec current) ⟨staged prev current withKeptFks (fun pt => some pt.db) fun _ => none,
        js, is, cs, xs⟩ (changedTables prev current) =
      some ⟨movedTables prev current, js, is, cs, xs⟩ := by
  rw [changedTables]
  apply run_append_of _ (run_droppedTables hp.keys)
  apply run_append_of _ (run_droppedColumns hp.keys)
  apply run_append_of _ (run_alteredComments hc.keys)
  apply run_append_of _ (run_alteredColumns hc.keys)
  apply run_append_of _ (run_newColumns hc.keys)
  exact run_newTables hc.keys

private theorem run_createdObjects :
    run (exec current) ⟨movedTables prev current, keptJunction prev current,
        kept prev.index current.index, kept prev.check current.check,
        kept prev.exclude current.exclude⟩ (createdObjects prev current) =
      some (reached prev current) := by
  have hts : Resolves current (movedTables prev current) := movedTables_resolves
  rw [createdObjects]
  apply run_append_of _ (run_recreateCompositeFks hc hts hp.keys)
  apply run_append_of _ (run_newCompositeFks hc hts)
  rw [← movedTables_withFks]
  apply run_append_of _ (run_newM2MTables hc hts)
  apply run_append_of _ (run_newExcludes hc hts)
  apply run_append_of _ (run_newChecks hc hts)
  apply run_append_of (run_newIndexes hc hts)
  apply run_append_of _ (run_recreateM2MTables hp hc hts)
  apply run_append_of _ (run_recreateExcludes hp.keys hc hts)
  apply run_append_of _ (run_recreateChecks hp.keys hc hts)
  exact run_recreateIndexes hp.keys hc hts

private theorem run_detectChanges :
    run (exec current) prev.db (detectChanges prev current) = some (reached prev current) :=
  run_append_of (run_append_of (run_droppedObjects hp hc) (run_changedTables hp hc))
    (run_createdObjects hp hc)

end Run

def ForeignKey.canonical (k : ForeignKey) : ForeignKey :=
  { k with onDelete := foldAction k.onDelete }

def Column.canonical (col : Column) : Column :=
  { col with fk := col.fk.map ForeignKey.canonical }

def Table.canonical (tb : Table) : Table :=
  { tb with columns := fun c => (tb.columns c).map Column.canonical }

/-- A schema with every `ON DELETE` action read as the database reads it. -/
def Schema.canonical (s : Schema) : Schema :=
  { s with tables := fun t => (s.tables t).map Table.canonical }

/-- Nothing that no operation expresses changed between a column and its new definition. -/
structure Supported (pf cf : FieldSnapshot) : Prop where
  primaryKey : pf.primaryKey = cf.primaryKey
  min : pf.min = cf.min
  max : pf.max = cf.max
  fk : pf.fk.map fkIdentity = cf.fk.map fkIdentity
  auto : pf.auto = cf.auto
  generatedAs : pf.generatedAs = cf.generatedAs

private theorem pushFieldDiffs_eq_nil {table : String} {pf cf : FieldSnapshot} :
    pushFieldDiffs table pf cf = [] ↔ Supported pf cf := by
  have hiff : ∀ {p : Prop} [Decidable p] {x : String}, (if p then [x] else []) = [] ↔ ¬ p := by
    intro p _ x
    by_cases hp : p <;> simp [hp]
  constructor
  · intro h
    simp only [pushFieldDiffs, List.append_eq_nil_iff, hiff, not_not] at h
    obtain ⟨⟨⟨⟨⟨hpk, hmin⟩, hmax⟩, hfk⟩, hauto⟩, hgen⟩ := h
    exact ⟨hpk, hmin, hmax, hfk, hauto, hgen⟩
  · intro ⟨hpk, hmin, hmax, hfk, hauto, hgen⟩
    simp [pushFieldDiffs, hpk, hmin, hmax, hfk, hauto, hgen]

private theorem alteredFk_canonical {p c : Option RelationSnapshot} (h : p.map fkIdentity = c.map fkIdentity) :
    (alteredFk p c).map ForeignKey.canonical =
      (c.map RelationSnapshot.db).map ForeignKey.canonical := by
  cases p with
  | none =>
    obtain rfl := Option.map_eq_none_iff.mp h.symm
    rfl
  | some p =>
    cases c with
    | none => cases h
    | some c =>
      have hid : fkIdentity p = fkIdentity c := Option.some.inj h
      have hkind : p.kind = c.kind ∧ p.to_ = c.to_ ∧ p.on_ = c.on_ := by
        simpa [fkIdentity] using hid
      by_cases hs : sameOnDelete p c = false
      · simp [alteredFk, hid, hs, RelationSnapshot.db, hkind]
      · have hact : foldAction (effectiveAction p.onDelete) =
            foldAction (effectiveAction c.onDelete) := by
          simpa [sameOnDelete] using hs
        simp [alteredFk, hs, RelationSnapshot.db, ForeignKey.canonical, hkind, hact]

private theorem altered_canonical {pf cf : FieldSnapshot} (h : Supported pf cf) :
    (altered pf cf).canonical = cf.db.canonical := by
  simp only [Column.canonical, altered, FieldSnapshot.db, alteredFk_canonical h.fk, h.primaryKey,
    h.min, h.max, h.auto, h.generatedAs]

section Complete
variable {prev current : SchemaSnapshot}

private theorem supported_of_unsupported_eq_nil
    (hu : detectUnsupportedFieldChanges prev current = []) {n c : String} {pt ct : TableSnapshot}
    {pf cf : FieldSnapshot} (hpn : prev.table n = some pt) (hcn : current.table n = some ct)
    (hpf : pt.field c = some pf) (hcf : ct.field c = some cf) : Supported pf cf := by
  have hct := SchemaSnapshot.mem_of_table hcn
  have hcm := mem_of_lookup _ hcf
  have hfields := (List.append_eq_nil_iff.mp hu).1
  have htable := List.flatMap_eq_nil_iff.mp hfields ct hct
  rw [SchemaSnapshot.table_name hcn, hpn, Option.elim_some] at htable
  have hfield := List.flatMap_eq_nil_iff.mp htable cf hcm
  rw [TableSnapshot.field_column hcf, hpf, Option.elim_some] at hfield
  exact pushFieldDiffs_eq_nil.mp hfield

private theorem reached_canonical (hu : detectUnsupportedFieldChanges prev current = []) :
    (reached prev current).canonical = current.db.canonical := by
  refine Schema.ext (funext fun n => ?_) rfl rfl rfl rfl
  simp only [Schema.canonical, reached, withFks, movedTables, SchemaSnapshot.db_tables]
  cases hcn : current.table n with
  | none => cases hpn : prev.table n <;> simp [staged, hpn, hcn]
  | some ct =>
    cases hpn : prev.table n with
    | none => simp [staged, fks, hpn, hcn, Table.canonical, TableSnapshot.db]
    | some pt =>
      simp only [staged_kept hpn hcn, Option.map_some, fks, hcn, hpn, Option.elim_some,
        Option.some.injEq]
      refine Table.ext rfl (funext fun c => ?_) rfl
      simp only [Table.canonical, withColumns, columnsNow, TableSnapshot.db_columns]
      cases hcf : ct.field c with
      | none => rfl
      | some cf =>
        cases hpf : pt.field c with
        | none => rfl
        | some pf =>
          have hs := supported_of_unsupported_eq_nil hu hpn hcn hpf hcf
          simp [altered_canonical hs]

/-- Well-formed snapshots with nothing unsupported between them: the diff runs through and ends in
the current schema, an `ON DELETE` action read without its ASCII case. -/
theorem detectChanges_complete (hp : prev.WellFormed) (hc : current.WellFormed)
    (hu : detectUnsupportedFieldChanges prev current = []) :
    ∃ s, run (exec current) prev.db (detectChanges prev current) = some s ∧
      s.canonical = current.db.canonical :=
  ⟨reached prev current, run_detectChanges hp hc, reached_canonical hu⟩

end Complete

section Case

private def key (c : String) (fk : Option RelationSnapshot) : FieldSnapshot :=
  ⟨c, c, "i64", false, fk.isNone, none, none, none, none, false, false, false, none, none, fk⟩

/-- Books whose FK has the given action. -/
private def books (onDelete : String) : SchemaSnapshot :=
  { SchemaSnapshot.empty with
    tables := [⟨"author", "Author", [key "id" none], [], none⟩,
      ⟨"book", "Book", [key "id" none, key "author_id" (some ⟨"fk", "author", "id", some onDelete⟩)],
        [], none⟩] }

theorem detectChanges_complete_books :
    ∃ s, run (exec (books "SET NULL")) (books "CASCADE").db
        (detectChanges (books "CASCADE") (books "SET NULL")) = some s ∧
      s.canonical = (books "SET NULL").db.canonical :=
  detectChanges_complete (by decide) (by decide) (by decide)

/-- A change of case alone is no operation, so the schema keeps the old text. -/
theorem detectChanges_ignores_case :
    ¬ ∀ prev current : SchemaSnapshot, prev.WellFormed → current.WellFormed →
      detectUnsupportedFieldChanges prev current = [] →
      run (exec current) prev.db (detectChanges prev current) = some current.db := by
  intro h
  have hrun := h (books "CASCADE") (books "cascade") (by decide) (by decide) (by decide)
  rw [show detectChanges (books "CASCADE") (books "cascade") = [] by decide] at hrun
  have hfk := congrArg (fun s => (s.columnAt "book" "author_id").bind (·.fk)) (Option.some.inj hrun)
  exact absurd hfk (by decide)

end Case

end Rustango.Migrate
