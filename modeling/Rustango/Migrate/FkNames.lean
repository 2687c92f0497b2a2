import Rustango.Lib.Outcome
import Rustango.Migrate.Diff

/-!
# The names of foreign keys

Postgres and MySQL get their FKs by `ALTER TABLE … ADD CONSTRAINT`, under a name of at most 63 bytes.
A registry of the names in the snapshot refuses two FKs that are cut to one name; the FKs of single
columns and of junctions ask it, and composite FKs are registered under another name than theirs.
-/

namespace Rustango.Migrate

open Rustango.Outcome

/-- `<table>_<column>_fkey`, cut to 63 bytes. -/
def fkConstraintName (table column : String) : String :=
  String.ofList (utf8Prefix 63 (table ++ "_" ++ column ++ "_fkey").toList)

structure FkDialect where
  inlineFks : Bool
  /-- FK names are unique in the whole database, not in their table. -/
  perDatabase : Bool
deriving DecidableEq, Repr

namespace FkDialect

def postgres : FkDialect := ⟨false, false⟩
def mysql : FkDialect := ⟨false, true⟩
def sqlite : FkDialect := ⟨true, false⟩

end FkDialect

/-- An FK that the registry holds or a batch makes: the table it is on, its name, and how an error
calls it. -/
structure FkHolder where
  table : String
  name : String
  label : String
deriving DecidableEq, Repr

def columnLabel (table column : String) : String := "`" ++ table ++ "." ++ column ++ "`"

def columnHolder (table column : String) : FkHolder :=
  ⟨table, fkConstraintName table column, columnLabel table column⟩

def compositeLabel (table name : String) : String := "`" ++ table ++ "` FK `" ++ name ++ "`"

def TableSnapshot.fkColumns (t : TableSnapshot) : List String :=
  (t.fields.filter (·.fk.isSome)).map (·.column)

/-- Who holds each FK name in a snapshot, in the order they were registered. -/
structure FkNames where
  holders : List FkHolder
  perDatabase : Bool

namespace FkNames

def new (current : SchemaSnapshot) (dialect : FkDialect) : FkNames :=
  -- SQLite's inline FK names need not be unique.
  if dialect.inlineFks then ⟨[], dialect.perDatabase⟩
  else
    let ofTable := fun t : TableSnapshot => t.fkColumns.map (columnHolder t.name) ++
      t.compositeFks.map fun c => ⟨t.name, c.name, compositeLabel t.name c.name⟩
    let ofJunction := fun m : M2MTableSnapshot =>
      [columnHolder m.through m.srcCol, columnHolder m.through m.dstCol]
    ⟨current.tables.flatMap ofTable ++ current.m2mTables.flatMap ofJunction, dialect.perDatabase⟩

end FkNames

/-- The scope in which a name has to be unique, with the name. -/
def fkKey (perDatabase : Bool) (table name : String) : String × String :=
  (if perDatabase then "" else table, name)

/-- Fails if another FK holds the name of the one on `table.column`. -/
def FkNames.check (names : FkNames) (table column : String) : Except String Unit :=
  let name := fkConstraintName table column
  let me := columnLabel table column
  let key := fkKey names.perDatabase table name
  let holders := names.holders.filter fun h => fkKey names.perDatabase h.table h.name = key
  let others := (holders.map (·.label)).filter (· ≠ me)
  if others.isEmpty then .ok ⟨⟩
  else .error ("the FK on " ++ me ++ " is named `" ++ name ++ "`, which " ++
    ", ".intercalate others ++ " also uses; rename a table or column")

/-- `constraints_sql_from_snapshot`: the table and the name of each FK that it adds. -/
def constraintsFromSnapshot (t : TableSnapshot) : List (String × String) :=
  t.fkColumns.map (fun c => (t.name, fkConstraintName t.name c)) ++
    t.compositeFks.map fun c => (t.name, fkConstraintName t.name c.name)

section Render
variable (dialect : FkDialect) (current : SchemaSnapshot)

/-- The table and the name of each FK that a change adds by `ADD CONSTRAINT`. -/
def changeFks (names : FkNames) : SchemaChange → Except String (List (String × String))
  | .createTable name => do
    let table ← okOr (current.table name)
      ("CreateTable for `" ++ name ++ "` but no snapshot entry for it")
    table.fkColumns.forM (names.check name)
    return if dialect.inlineFks then [] else constraintsFromSnapshot table
  | .createM2MTable through _ srcCol _ dstCol => do
    names.check through srcCol
    names.check through dstCol
    return if dialect.inlineFks then []
      else [(through, fkConstraintName through srcCol), (through, fkConstraintName through dstCol)]
  | .addColumn table column => do
    let t ← okOr (current.table table)
      ("AddColumn for `" ++ table ++ "." ++ column ++ "` but table missing in snapshot")
    let f ← okOr (t.field column)
      ("AddColumn for `" ++ table ++ "." ++ column ++ "` but field missing in snapshot")
    if f.fk.isSome && !dialect.inlineFks then do
      names.check table column
      return [(table, fkConstraintName table column)]
    else return []
  | .alterFkOnDelete table column _ _ =>
    return if dialect.inlineFks then [] else [(table, fkConstraintName table column)]
  | .addCompositeFk table name _ _ _ =>
    return if dialect.inlineFks then [] else [(table, fkConstraintName table name)]
  | _ => return []

/-- `render_changes_split_with_dialect`, as far as FK names go: `refuse` is every other check that it
makes of a change. -/
def renderFks (refuse : SchemaChange → Except String Unit) (changes : List SchemaChange) :
    Except String (List (String × String)) := do
  let names := FkNames.new current dialect
  let parts ← changes.mapM fun change => do
    refuse change
    changeFks dialect current names change
  return parts.flatten

end Render

/-- An FK that a batch makes, by the name it gets. -/
structure BatchFk extends FkHolder where
  composite : Bool
deriving DecidableEq, Repr

def TableSnapshot.batchFks (t : TableSnapshot) : List BatchFk :=
  t.fkColumns.map (fun c => ⟨columnHolder t.name c, false⟩) ++ t.compositeFks.map fun c =>
    ⟨⟨t.name, fkConstraintName t.name c.name, compositeLabel t.name c.name⟩, true⟩

/-- The FKs of the tables and junctions that a change creates. -/
def createdFks (current : SchemaSnapshot) : SchemaChange → List BatchFk
  | .createTable name => (current.table name).elim [] TableSnapshot.batchFks
  | .createM2MTable through _ srcCol _ dstCol =>
    [⟨columnHolder through srcCol, false⟩, ⟨columnHolder through dstCol, false⟩]
  | _ => []

def BatchFk.key (perDatabase : Bool) (fk : BatchFk) : String × String :=
  fkKey perDatabase fk.table fk.name

/-- A change of a batch that creates tables of the snapshot, with their junctions, indexes and
constraints. -/
def CreatesFrom (current : SchemaSnapshot) : SchemaChange → Prop
  | .createTable _ | .createIndex .. | .addCheckConstraint .. | .addExclusionConstraint .. => True
  | .createM2MTable through srcTable srcCol dstTable dstCol =>
    ⟨through, srcTable, srcCol, dstTable, dstCol⟩ ∈ current.m2mTables
  | _ => False

section Batch
variable {dialect : FkDialect} {current : SchemaSnapshot} {names : FkNames}

theorem FkNames.label_of_check {table column : String} (h : names.check table column = .ok ⟨⟩)
    {holder : FkHolder} (hmem : holder ∈ names.holders)
    (hkey : fkKey names.perDatabase holder.table holder.name =
      fkKey names.perDatabase table (fkConstraintName table column)) :
    holder.label = columnLabel table column := by
  unfold FkNames.check at h
  dsimp only at h
  split at h
  · rename_i hnone
    by_contra hother
    have hin : holder.label ∈ ((names.holders.filter fun h => fkKey names.perDatabase h.table h.name =
        fkKey names.perDatabase table (fkConstraintName table column)).map (·.label)).filter
          (· ≠ columnLabel table column) := by
      apply List.mem_filter.mpr
      exact ⟨List.mem_map_of_mem (List.mem_filter.mpr ⟨hmem, decide_eq_true hkey⟩),
        decide_eq_true hother⟩
    rw [List.isEmpty_iff.mp hnone] at hin
    cases hin
  · cases h

private theorem changeFks_created {change : SchemaChange} {fks : List (String × String)}
    (hcreates : CreatesFrom current change) (halter : dialect.inlineFks = false)
    (h : changeFks dialect current names change = .ok fks) :
    fks = (createdFks current change).map (fun fk => (fk.table, fk.name)) ∧
      ∀ fk ∈ createdFks current change, fk.composite = false → ∃ column,
        fk.toFkHolder = columnHolder fk.table column ∧ names.check fk.table column = .ok ⟨⟩ := by
  cases change with
  | createTable name =>
    obtain ⟨t, ht, h⟩ := bind_eq_ok.mp h
    obtain ⟨⟨⟩, hchecks, h⟩ := bind_eq_ok.mp h
    have htable := okOr_eq_ok.mp ht
    have hname := SchemaSnapshot.table_name htable
    rw [halter] at h
    obtain rfl := Except.ok.inj h
    simp only [createdFks, htable, Option.elim_some]
    constructor
    · simp [constraintsFromSnapshot, TableSnapshot.batchFks, columnHolder, Function.comp_def]
    · intro fk hfk hsingle
      rcases List.mem_append.mp hfk with hfk | hfk
      · obtain ⟨column, hcolumn, rfl⟩ := List.mem_map.mp hfk
        exact ⟨column, rfl, hname ▸ forM_eq_ok.mp hchecks column hcolumn⟩
      · obtain ⟨c, -, rfl⟩ := List.mem_map.mp hfk
        cases hsingle
  | createM2MTable through srcTable srcCol dstTable dstCol =>
    obtain ⟨⟨⟩, hsrc, h⟩ := bind_eq_ok.mp h
    obtain ⟨⟨⟩, hdst, h⟩ := bind_eq_ok.mp h
    rw [halter] at h
    obtain rfl := Except.ok.inj h
    refine ⟨rfl, ?_⟩
    intro fk hfk _
    simp only [createdFks, List.mem_cons, List.not_mem_nil, or_false] at hfk
    rcases hfk with rfl | rfl
    · exact ⟨srcCol, rfl, hsrc⟩
    · exact ⟨dstCol, rfl, hdst⟩
  | createIndex | addCheckConstraint | addExclusionConstraint =>
    obtain rfl := Except.ok.inj h
    exact ⟨rfl, fun _ hfk => absurd hfk List.not_mem_nil⟩
  | _ => exact hcreates.elim

private theorem holds_created {change : SchemaChange} (hcreates : CreatesFrom current change)
    (halter : dialect.inlineFks = false) {fk : BatchFk} (hfk : fk ∈ createdFks current change)
    (hsingle : fk.composite = false) : fk.toFkHolder ∈ (FkNames.new current dialect).holders := by
  simp only [FkNames.new, halter, Bool.false_eq_true, if_false]
  cases change with
  | createTable name =>
    simp only [createdFks] at hfk
    cases htable : current.table name with
    | none =>
      rw [htable] at hfk
      cases hfk
    | some t =>
      rw [htable] at hfk
      apply List.mem_append_left
      refine List.mem_flatMap.mpr ⟨t, SchemaSnapshot.mem_of_table htable, ?_⟩
      rcases List.mem_append.mp hfk with hfk | hfk
      · obtain ⟨column, hcolumn, rfl⟩ := List.mem_map.mp hfk
        exact List.mem_append_left _ (List.mem_map_of_mem hcolumn)
      · obtain ⟨c, -, rfl⟩ := List.mem_map.mp hfk
        cases hsingle
  | createM2MTable through srcTable srcCol dstTable dstCol =>
    apply List.mem_append_right
    refine List.mem_flatMap.mpr ⟨_, hcreates, ?_⟩
    simp only [createdFks, List.mem_cons, List.not_mem_nil, or_false] at hfk
    rcases hfk with rfl | rfl
    · exact List.mem_cons_self
    · exact List.mem_cons_of_mem _ List.mem_cons_self
  | createIndex | addCheckConstraint | addExclusionConstraint => cases hfk
  | _ => exact hcreates.elim

end Batch

section Distinct
variable {dialect : FkDialect} {refuse : SchemaChange → Except String Unit}
  {current : SchemaSnapshot} {changes : List SchemaChange} {fks : List (String × String)}

private theorem renderFks_created (hcreates : ∀ c ∈ changes, CreatesFrom current c)
    (halter : dialect.inlineFks = false) (h : renderFks dialect current refuse changes = .ok fks) :
    fks = (changes.flatMap (createdFks current)).map (fun fk => (fk.table, fk.name)) ∧
      ∀ fk ∈ changes.flatMap (createdFks current), fk.composite = false → ∃ column,
        fk.toFkHolder = columnHolder fk.table column ∧
          (FkNames.new current dialect).check fk.table column = .ok ⟨⟩ := by
  obtain ⟨parts, hparts, hfks⟩ := bind_eq_ok.mp h
  obtain rfl := Except.ok.inj hfks
  clear h hfks
  have hall := mapM_eq_ok.mp hparts
  clear hparts
  induction hall with
  | nil => exact ⟨rfl, fun _ hfk => absurd hfk List.not_mem_nil⟩
  | cons hhead _ ih =>
    obtain ⟨-, -, hhead⟩ := bind_eq_ok.mp hhead
    obtain ⟨hfks, hchecked⟩ := changeFks_created (hcreates _ List.mem_cons_self) halter hhead
    obtain ⟨hrest, hcheckedRest⟩ := ih fun c hc => hcreates c (List.mem_cons_of_mem _ hc)
    constructor
    · rw [List.flatten_cons, List.flatMap_cons, List.map_append, ← hfks, ← hrest]
    · intro fk hfk hsingle
      rw [List.flatMap_cons, List.mem_append] at hfk
      rcases hfk with hfk | hfk
      · exact hchecked fk hfk hsingle
      · exact hcheckedRest fk hfk hsingle

private theorem label_eq_of_key_eq (hcreates : ∀ c ∈ changes, CreatesFrom current c)
    (halter : dialect.inlineFks = false) (h : renderFks dialect current refuse changes = .ok fks)
    {x y : BatchFk} (hx : x ∈ changes.flatMap (createdFks current))
    (hy : y ∈ changes.flatMap (createdFks current)) (hxs : x.composite = false)
    (hys : y.composite = false) (hkey : x.key dialect.perDatabase = y.key dialect.perDatabase) :
    x.label = y.label := by
  obtain ⟨column, hholder, hcheck⟩ := (renderFks_created hcreates halter h).2 y hy hys
  obtain ⟨change, hchange, hxin⟩ := List.mem_flatMap.mp hx
  have hmem := holds_created (hcreates change hchange) halter hxin hxs
  have hscope : (FkNames.new current dialect).perDatabase = dialect.perDatabase := by
    unfold FkNames.new
    split <;> rfl
  have hname : y.name = fkConstraintName y.table column := congrArg FkHolder.name hholder
  have hlabel : y.label = columnLabel y.table column := congrArg FkHolder.label hholder
  rw [hlabel]
  apply FkNames.label_of_check hcheck hmem
  rw [hscope, ← hname]
  exact hkey

/-- In a batch of creations that renders, the FK names are distinct in their scope just when no
composite FK shares its name, and no two FKs of one column share name and label. -/
theorem renderFks_distinct_iff (dialect : FkDialect) (refuse : SchemaChange → Except String Unit)
    (current : SchemaSnapshot) (changes : List SchemaChange) (fks : List (String × String))
    (halter : dialect.inlineFks = false) (hcreates : ∀ c ∈ changes, CreatesFrom current c)
    (h : renderFks dialect current refuse changes = .ok fks) :
    (fks.map fun fk => fkKey dialect.perDatabase fk.1 fk.2).Nodup ↔
      (changes.flatMap (createdFks current)).Pairwise fun x y =>
        x.composite ∨ y.composite ∨ x.label = y.label →
          x.key dialect.perDatabase ≠ y.key dialect.perDatabase := by
  rw [(renderFks_created hcreates halter h).1, List.map_map, List.Nodup, List.pairwise_map]
  apply List.Pairwise.iff_of_mem
  intro x y hx hy
  constructor
  · intro hne _
    exact hne
  · intro hcond hkey
    by_cases hcomposite : x.composite ∨ y.composite
    · exact hcond (hcomposite.elim .inl (.inr ∘ .inl)) hkey
    · obtain ⟨hxs, hys⟩ := not_or.mp hcomposite
      have hlabel := label_eq_of_key_eq hcreates halter h hx hy (Bool.of_not_eq_true hxs)
        (Bool.of_not_eq_true hys) hkey
      exact hcond (.inr (.inr hlabel)) hkey

end Distinct

private def memberColumn (column : String) (fk : Option RelationSnapshot) : FieldSnapshot :=
  ⟨column, column, "integer", false, false, none, none, none, none, false, false, false, none, none, fk⟩

/-- Memberships that point at a user, and by a composite FK called `fkName` at a seat. -/
private def memberships (fkName : String) : SchemaSnapshot :=
  { SchemaSnapshot.empty with
    tables := [
      ⟨"users", "User", [memberColumn "id" none], [], none⟩,
      ⟨"seats", "Seat", [memberColumn "org" none, memberColumn "no" none], [], none⟩,
      ⟨"members", "Member", [memberColumn "user" (some ⟨"fk", "users", "id", none⟩),
        memberColumn "org" none, memberColumn "no" none],
        [⟨fkName, "seats", ["org", "no"], ["org", "no"]⟩], none⟩] }

private def createMembers : List SchemaChange :=
  [.createTable "users", .createTable "seats", .createTable "members"]

theorem renderFks_distinct_members :
    ([("members", "members_user_fkey"), ("members", "members_seat_fkey")].map fun fk =>
      fkKey FkDialect.mysql.perDatabase fk.1 fk.2).Nodup :=
  (renderFks_distinct_iff .mysql (fun _ => .ok ⟨⟩) (memberships "seat") createMembers _ rfl
    (by simp [createMembers, CreatesFrom]) (by decide)).mpr (by decide)

/-- A composite FK called as the column of another: the batch renders, and both get one name. -/
theorem renderFks_clash :
    renderFks .postgres (memberships "user") (fun _ => .ok ⟨⟩) createMembers =
      .ok [("members", "members_user_fkey"), ("members", "members_user_fkey")] ∧
    ¬ ([("members", "members_user_fkey"), ("members", "members_user_fkey")].map fun fk =>
      fkKey FkDialect.postgres.perDatabase fk.1 fk.2).Nodup := by
  decide

end Rustango.Migrate
