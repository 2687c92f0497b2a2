import Rustango.Migrate.ShapeAt

/-!
# The entry a step is rendered from

A step of a migration is rendered from the entry that its table has in the snapshot of the
migration's end. Before a later rename the table is there under another name, and the snapshot is
taken back to the step only when no other table bears the name of the step's table.
-/

namespace Rustango.Migrate

open Rustango.Keyed Rustango.Outcome

/-- What `render_step` asks a dialect about the shape of a table. -/
structure StepDialect where
  altersByRebuild : Bool
  modifiesWholeColumn : Bool
deriving DecidableEq, Repr

def renamedLater (table : String) (later : List Operation) : Bool :=
  later.any fun op => match op with
    | .schema (.renameTable oldName _) => oldName = table
    | _ => false

def touchesTable (table : String) : Operation → Bool
  | .schema c => c.table = table
  | _ => false

/-- The table of a change that SQLite makes by rebuilding it. -/
def SchemaChange.rebuilt : SchemaChange → Option String
  | .dropColumn t _ | .alterFkOnDelete t .. | .alterColumnType t .. | .alterColumnNullable t ..
  | .alterColumnDefault t .. | .alterColumnMaxLength t .. | .alterColumnUnique t ..
  | .addCheckConstraint _ t _ | .dropCheckConstraint _ t | .addCompositeFk t ..
  | .dropCompositeFk t _ => some t
  | _ => none

/-- The table of a change that MySQL makes by restating the whole column. -/
def SchemaChange.modified : SchemaChange → Option String
  | .alterColumnType t .. | .alterColumnNullable t .. | .alterColumnDefault t ..
  | .alterColumnMaxLength t .. | .alterColumnUnique t .. => some t
  | _ => none

section Step
variable (dialect : StepDialect) (change : SchemaChange) (later : List Operation)
  (after : SchemaSnapshot)

/-- The table whose shape a change takes at its step, not at the end. -/
def reshaped : Option String :=
  let others := if dialect.altersByRebuild then change.rebuilt
    else change.modified.filter fun _ => dialect.modifiesWholeColumn
  match change with
  | .alterFkOnDelete t .. | .alterColumnUnique t _ false => some t
  -- Before a later rename (an unapply's), `after` has it under another name.
  | .addColumn t _ | .createTable t =>
    if (after.table t).isNone && renamedLater t later then some t else others
  | _ => others

/-- The snapshot that `render_step` renders `change` from. -/
def stepSnapshot : Except String SchemaSnapshot :=
  match reshaped dialect change later after with
  | some table =>
    if later.any (touchesTable table) then do
      let (at_, _) ← snapshotAt table later after
      return at_
    else .ok after
  | none => .ok after

end Step

/-- The model of one entry of a snapshot set to `model`. -/
def SchemaSnapshot.relabel (s : SchemaSnapshot) (name model : String) : SchemaSnapshot :=
  { s with tables := s.tables.map fun t => if t.name = name then { t with model } else t }

/-- `change` on `table` is rendered from the entry of `name`: whatever mark that entry bears, the
rendered entry bears it. -/
def RendersFrom (dialect : StepDialect) (change : SchemaChange) (later : List Operation)
    (after : SchemaSnapshot) (table name : String) : Prop :=
  ∀ mark snap entry, stepSnapshot dialect change later (after.relabel name mark) = .ok snap →
    snap.table table = some entry → entry.model = mark

section Relabel
variable {s : SchemaSnapshot} {name mark : String}

private theorem relabel_table (n : String) : (s.relabel name mark).table n =
    (s.table n).map fun t => if t.name = name then { t with model := mark } else t := by
  simp only [SchemaSnapshot.table, SchemaSnapshot.relabel]
  apply lookup_map
  intro t
  split <;> rfl

private theorem relabel_table_self {e : TableSnapshot} (h : (s.relabel name mark).table name = some e) :
    e.model = mark := by
  rw [relabel_table, Option.map_eq_some_iff] at h
  obtain ⟨t, ht, rfl⟩ := h
  rw [if_pos (SchemaSnapshot.table_name ht)]

private theorem relabel_table_other {n : String} (h : n ≠ name) :
    (s.relabel name mark).table n = s.table n := by
  rw [relabel_table]
  cases ht : s.table n with
  | none => rfl
  | some t => simp [SchemaSnapshot.table_name ht, h]

end Relabel

/-- A change that adds to a table or makes one. -/
def SchemaChange.makes (table : String) : SchemaChange → Prop
  | .addColumn t _ | .createTable t => t = table
  | _ => False

section Step
variable {dialect : StepDialect} {change : SchemaChange} {later : List Operation}
  {after : SchemaSnapshot} {table : String}

private theorem reshaped_of_makes (h : change.makes table) : reshaped dialect change later after =
    if (after.table table).isNone && renamedLater table later then some table else none := by
  cases change with
  | addColumn t column =>
    obtain rfl : t = table := h
    simp [reshaped, SchemaChange.rebuilt, SchemaChange.modified]
  | createTable t =>
    obtain rfl : t = table := h
    simp [reshaped, SchemaChange.rebuilt, SchemaChange.modified]
  | _ => exact h.elim

private theorem touches_of_renamedLater (h : renamedLater table later) :
    later.any (touchesTable table) := by
  obtain ⟨op, hop, hrename⟩ := List.any_eq_true.mp h
  refine List.any_eq_true.mpr ⟨op, hop, ?_⟩
  cases op with
  | schema c =>
    cases c with
    | renameTable oldName newName => exact hrename
    | _ => cases hrename
  | _ => cases hrename

private theorem stepSnapshot_of_makes (h : change.makes table) : stepSnapshot dialect change later after =
    if (after.table table).isNone && renamedLater table later then
      (snapshotAt table later after).map Prod.fst
    else .ok after := by
  rw [stepSnapshot, reshaped_of_makes h]
  by_cases hcond : ((after.table table).isNone && renamedLater table later) = true
  · have htouch := touches_of_renamedLater (Bool.and_eq_true_iff.mp hcond).2
    simp only [hcond, if_true, htouch]
    cases snapshotAt table later after <;> rfl
  · simp only [hcond]
    rfl

end Step

/-- An op that makes or adds to a table is rendered from the entry that the table has at the end, just
when no later rename moves it or no other table of the end bears its name. -/
theorem rendersFrom_end_iff (dialect : StepDialect) (change : SchemaChange) (later : List Operation)
    (after : SchemaSnapshot) (table : String) (hmakes : change.makes table) :
    RendersFrom dialect change later after table (nameAtEnd table later) ↔
      nameAtEnd table later = table ∨ after.table table = none := by
  constructor
  · intro hfrom
    by_contra hnot
    obtain ⟨hmoved, htaken⟩ := not_or.mp hnot
    obtain ⟨e, he⟩ := Option.ne_none_iff_exists'.mp htaken
    have hsame : (after.relabel (nameAtEnd table later) (e.model ++ "x")).table table = some e := by
      rw [relabel_table_other (Ne.symm hmoved), he]
    -- The other table is found at once, and the mark is not on it.
    have hstep : stepSnapshot dialect change later
        (after.relabel (nameAtEnd table later) (e.model ++ "x")) =
        .ok (after.relabel (nameAtEnd table later) (e.model ++ "x")) := by
      rw [stepSnapshot_of_makes hmakes, hsame]
      rfl
    have hmark := hfrom _ _ e hstep hsame
    have hlen := congrArg String.length hmark
    simp at hlen
  · intro hcond mark snap entry hstep hentry
    rw [stepSnapshot_of_makes hmakes] at hstep
    split at hstep
    · obtain ⟨⟨at_, renamed⟩, hat, rfl⟩ := map_eq_ok.mp hstep
      obtain ⟨final, hfinal, hmodel⟩ := snapshotAt_model hat hentry
      rw [hmodel]
      exact relabel_table_self hfinal
    · obtain rfl := Except.ok.inj hstep
      by_cases hmoved : nameAtEnd table later = table
      · rw [hmoved] at hentry
        exact relabel_table_self hentry
      · rw [relabel_table_other (Ne.symm hmoved), hcond.resolve_left hmoved] at hentry
        cases hentry

private def noteTable (name model ty : String) : TableSnapshot :=
  ⟨name, model, [⟨"note", "note", ty, true, false, none, none, none, none, false, false, false, none,
    none, none⟩], [], none⟩

private def sqliteSteps : StepDialect := ⟨true, false⟩

/-- The rollback of a migration that renames `posts` away and `drafts` to `posts`. -/
private def renamedBack : List Operation :=
  [.schema (.renameTable "posts" "drafts"), .schema (.renameTable "archive" "posts")]

/-- The schema before that migration. -/
private def beforeRenames : SchemaSnapshot :=
  { SchemaSnapshot.empty with
    tables := [noteTable "drafts" "Draft" "string", noteTable "posts" "Post" "integer"] }

/-- With no other `posts` at the end, the column is made as `drafts` has it. -/
theorem rendersFrom_end_drafts : RendersFrom sqliteSteps (.addColumn "posts" "note")
    [.schema (.renameTable "posts" "drafts")]
    { SchemaSnapshot.empty with tables := [noteTable "drafts" "Draft" "string"] } "posts" "drafts" :=
  (rendersFrom_end_iff sqliteSteps (.addColumn "posts" "note") _ _ "posts" rfl).mpr (.inr rfl)

/-- The table `posts` of the step ends up as `drafts`, and the column is made as the other `posts` has
it. -/
theorem rendersFrom_taken : nameAtEnd "posts" renamedBack = "drafts" ∧
    ((stepSnapshot sqliteSteps (.addColumn "posts" "note") renamedBack beforeRenames).map fun snap =>
      (snap.columnAt "posts" "note").map (·.ty)) = .ok (some "integer") ∧
    (beforeRenames.columnAt "drafts" "note").map (·.ty) = some "string" ∧
    ¬ RendersFrom sqliteSteps (.addColumn "posts" "note") renamedBack beforeRenames "posts"
      (nameAtEnd "posts" renamedBack) := by
  refine ⟨by decide, by rfl, by decide, ?_⟩
  intro hfrom
  have hmark := hfrom "x" (beforeRenames.relabel "drafts" "x") (noteTable "posts" "Post" "integer")
    (by rfl) (by rfl)
  exact absurd hmark (by decide)

end Rustango.Migrate
