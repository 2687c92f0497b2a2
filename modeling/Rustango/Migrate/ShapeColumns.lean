import Rustango.Migrate.Rename
import Rustango.Migrate.ShapeAt

/-!
# The columns of a rebuilt table

A rebuild copies rows by column name. The columns that the shape of a table has in the middle of a
migration are compared with the ones the table has there, through every later operation.
-/

namespace Rustango.Migrate

open Function hiding swap
open Rustango.Keyed Rustango.Outcome Rustango.Slots

/-- A table and a junction share no name, and no column's FK names a junction. -/
structure Schema.Proper (s : Schema) : Prop where
  oneName : s.OneName
  fks : ∀ t c col k, s.columnAt t c = some col → col.fk = some k → s.junctions k.to_ = none

/-- The action that an `AlterFkOnDelete` starts from is the one that is there. -/
def Tells (s : Schema) : SchemaChange → Prop
  | .alterFkOnDelete t c from_ _ => ∀ col k, s.columnAt t c = some col → col.fk = some k →
    k.onDelete = effectiveAction from_
  | _ => True

/-- A change that the database runs; what it creates is described by some snapshot. -/
structure Step (s : Schema) (change : SchemaChange) (s' : Schema) : Prop where
  runs : ∃ current, exec current s change = some s'
  tells : Tells s change
  proper : s.Proper

inductive Runs : Schema → List Operation → Schema → Prop where
  | nil (s : Schema) : Runs s [] s
  | schema {s s₁ s' : Schema} {change : SchemaChange} {later : List Operation}
      (step : Step s change s₁) (rest : Runs s₁ later s') : Runs s (.schema change :: later) s'
  | data {s s' : Schema} (op : DataOp) {later : List Operation} (rest : Runs s later s') :
      Runs s (.data op :: later) s'
  | callback {s s' : Schema} (op : CallbackOp) {later : List Operation} (rest : Runs s later s') :
      Runs s (.callback op :: later) s'

/-- What a rebuild must keep of a column. -/
structure Cell where
  primaryKey : Bool
  generatedAs : Option String
  fk : Option ForeignKey
deriving DecidableEq, Repr

def Column.cell (col : Column) : Cell := ⟨col.primaryKey, col.generatedAs, col.fk⟩

def FieldSnapshot.cell (f : FieldSnapshot) : Cell := f.db.cell

abbrev Cells := String → Option Cell

def Table.cells (tb : Table) : Cells := fun c => (tb.columns c).map Column.cell

/-- An FK follows the renames of its target. -/
def ForeignKey.after (k : ForeignKey) : SchemaChange → ForeignKey
  | .renameTable old new => k.retarget old new
  | .renameColumn t old new => k.repoint t old new
  | _ => k

/-- The FK with another action. -/
def Cell.withAction (action : String) (cell : Cell) : Cell :=
  { cell with fk := cell.fk.map ({ · with onDelete := action }) }

def Cell.after (change : SchemaChange) (cell : Cell) : Cell :=
  { cell with fk := cell.fk.map (·.after change) }

def Cell.atEnd : List Operation → Cell → Cell
  | [], cell => cell
  | .schema change :: later, cell => (cell.after change).atEnd later
  | _ :: later, cell => cell.atEnd later

/-- The name of `table`'s column `c` once `change` has run; `none` when it is dropped. -/
def columnAfter (table c : String) : SchemaChange → Option String
  | .renameColumn t oldColumn newColumn =>
    if t = table ∧ c = oldColumn then some newColumn else some c
  | .dropColumn t column => if t = table ∧ c = column then none else some c
  | _ => some c

/-- The name at the end of what is `table`'s column `c` now. -/
def columnAtEnd : String → String → List Operation → Option String
  | _, c, [] => some c
  | table, c, .schema change :: later =>
    (columnAfter table c change).bind fun c' => columnAtEnd (nameAfter table change) c' later
  | table, c, _ :: later => columnAtEnd table c later

/-- What one change does to the columns of `table`. -/
def CellStep (table : String) (cells : Cells) (change : SchemaChange) (cells' : Cells) : Prop :=
  match change with
  | .addColumn t c =>
    if t = table then ∃ cell, cells c = none ∧ cells' = update cells c (some cell) else cells' = cells
  | .dropColumn t c => if t = table then cells' = update cells c none else cells' = cells
  | .renameTable old new => cells' = fun c => (cells c).map (Cell.after (.renameTable old new))
  | .renameColumn t old new =>
    if t = table then
      (cells old).isSome ∧ cells new = none ∧
        cells' = fun c => (moveSlot old new cells c).map (Cell.after (.renameColumn t old new))
    else cells' = fun c => (cells c).map (Cell.after (.renameColumn t old new))
  | .alterFkOnDelete t c from_ to_ =>
    if t = table then ∃ cell, cells c = some cell ∧ cell.withAction (effectiveAction from_) = cell ∧
      cells' = update cells c (some (cell.withAction (effectiveAction to_)))
    else cells' = cells
  | _ => cells' = cells

/-- `t` holds the columns `cells` of `table` that no later operation drops, as the end has them. -/
structure Kept (table : String) (later : List Operation) (cells : Cells) (t : TableSnapshot) :
    Prop where
  nodup : (t.fields.map (·.column)).Nodup
  field : ∀ c, (t.field c).map FieldSnapshot.cell =
    (columnAtEnd table c later).bind fun _ => (cells c).map (Cell.atEnd later)

section Exec
variable {s s' : Schema} {name : String} {tb : Table}

private theorem alterTable_tables {t : String} {f : Table → Option Table} (h : s.alterTable t f = some s')
    (htb : s.tables name = some tb) :
    ∃ tb', s'.tables name = some tb' ∧ (if t = name then f tb = some tb' else tb' = tb) := by
  obtain ⟨ts, hts, rfl⟩ := Option.map_eq_some_iff.mp h
  obtain ⟨v, w, hv, hw, rfl⟩ := alter_eq_some.mp hts
  by_cases ht : t = name
  · subst ht
    obtain rfl := Option.some.inj (hv.symm.trans htb)
    exact ⟨w, update_self .., by rwa [if_pos rfl]⟩
  · refine ⟨tb, ?_, by rw [if_neg ht]⟩
    dsimp only
    rw [update_of_ne (Ne.symm ht), htb]

private theorem alterColumns_cells {t : String} {f : (String → Option Column) → Option (String → Option Column)}
    (h : s.alterColumns t f = some s') (htb : s.tables name = some tb) :
    ∃ tb', s'.tables name = some tb' ∧
      (if t = name then f tb.columns = some tb'.columns else tb' = tb) := by
  obtain ⟨tb', htb', hf⟩ := alterTable_tables h htb
  refine ⟨tb', htb', ?_⟩
  split at hf
  · rename_i ht
    obtain ⟨cs, hcs, rfl⟩ := Option.map_eq_some_iff.mp hf
    rwa [if_pos ht]
  · rename_i ht
    rwa [if_neg ht]

private theorem cells_update {tb' : Table} {c : String} {col : Option Column}
    (h : tb'.columns = update tb.columns c col) :
    tb'.cells = update tb.cells c (col.map Column.cell) := by
  funext x
  rw [Table.cells, h]
  by_cases hx : x = c
  · rw [hx, update_self, update_self]
  · rw [update_of_ne hx, update_of_ne hx]
    rfl

private theorem alterColumn_cells {t c : String} {f : Column → Column} (h : s.alterColumn t c f = some s')
    (htb : s.tables name = some tb) (hf : ∀ col, (f col).cell = col.cell) :
    ∃ tb', s'.tables name = some tb' ∧ tb'.cells = tb.cells := by
  obtain ⟨tb', htb', hcols⟩ := alterColumns_cells h htb
  refine ⟨tb', htb', ?_⟩
  split at hcols
  · obtain ⟨v, w, hv, hw, hup⟩ := alter_eq_some.mp hcols
    obtain rfl := Option.some.inj hw
    rw [cells_update hup, Option.map_some, hf]
    apply update_eq_self_iff.mpr
    rw [Table.cells, hv, Option.map_some]
  · rw [hcols]

private theorem alterCompositeFks_cells {t : String}
    {f : (String → Option CompositeFkSnapshot) → Option (String → Option CompositeFkSnapshot)}
    (h : s.alterCompositeFks t f = some s') (htb : s.tables name = some tb) :
    ∃ tb', s'.tables name = some tb' ∧ tb'.cells = tb.cells := by
  obtain ⟨tb', htb', htable⟩ := alterTable_tables h htb
  refine ⟨tb', htb', ?_⟩
  split at htable
  · obtain ⟨ks, -, rfl⟩ := Option.map_eq_some_iff.mp htable
    rfl
  · rw [htable]

private theorem moveTable_cells {old new : String} (hnew : s.tables new = none)
    (htb : s.tables name = some tb) :
    ∃ tb', (s.moveTable old new).tables (nameAfter name (.renameTable old new)) = some tb' ∧
      tb'.cells = fun c => (tb.cells c).map (Cell.after (.renameTable old new)) := by
  have hne : name ≠ new := by
    rintro rfl
    rw [hnew] at htb
    cases htb
  refine ⟨tb.retarget old new, ?_, ?_⟩
  · simp only [Schema.moveTable, moveSlot_apply, nameAfter]
    by_cases ho : old = name
    · subst ho
      rw [if_pos rfl, if_pos rfl, htb, Option.map_some]
    · rw [if_neg ho, if_neg hne, if_neg (Ne.symm ho), htb, Option.map_some]
  · funext c
    simp only [Table.cells, Table.retarget, Option.map_map]
    rfl

private theorem moveColumn_cells {t old new : String} (htb : s.tables name = some tb)
    (hold : t = name → (tb.columns old).isSome) (hnew : t = name → tb.columns new = none) :
    ∃ tb', (s.moveColumn t old new).tables name = some tb' ∧
      CellStep name tb.cells (.renameColumn t old new) tb'.cells := by
  refine ⟨(if name = t then tb.moveColumn old new else tb).repoint t old new, ?_, ?_⟩
  · simp only [Schema.moveColumn, htb, Option.map_some]
  · by_cases ht : t = name
    · subst ht
      rw [CellStep, if_pos rfl, if_pos rfl]
      refine ⟨by rw [Table.cells, Option.isSome_map]; exact hold rfl,
        by rw [Table.cells, hnew rfl, Option.map_none], ?_⟩
      funext c
      simp only [Table.cells, Table.repoint, Table.moveColumn, moveSlot_apply, Option.map_map]
      split_ifs <;> simp only [Option.map_map, Option.map_none] <;> rfl
    · rw [CellStep, if_neg ht, if_neg (Ne.symm ht)]
      funext c
      simp only [Table.cells, Table.repoint, Option.map_map]
      rfl

private theorem cells_of_junction (hs : s.Proper) (htb : s.tables name = some tb) {change : SchemaChange}
    (hother : ∀ k : ForeignKey, s.junctions k.to_ = none → k.after change = k) :
    (fun c => (tb.cells c).map (Cell.after change)) = tb.cells := by
  funext c
  rw [Table.cells]
  cases hc : tb.columns c with
  | none => rfl
  | some col =>
    have hkeep : col.cell.after change = col.cell := by
      cases hk : col.fk with
      | none => simp [Cell.after, Column.cell, hk]
      | some k =>
        have hcol : s.columnAt name c = some col := by
          rw [Schema.columnAt, htb, Option.bind_some, hc]
        have hnone := hs.fks name c col k hcol hk
        simp [Cell.after, Column.cell, hk, hother k hnone]
    rw [Option.map_some, Option.map_some, hkeep]

/-- A change that runs and keeps the table does to its columns what `CellStep` says. -/
private theorem step_cells {change : SchemaChange} (hstep : Step s change s')
    (htb : s.tables name = some tb) (hdrop : change ≠ .dropTable name) :
    ∃ tb', s'.tables (nameAfter name change) = some tb' ∧ CellStep name tb.cells change tb'.cells := by
  obtain ⟨current, hrun⟩ := hstep.runs
  cases change with
  | createTable t =>
    obtain ⟨ct, -, hrun⟩ := Option.bind_eq_some_iff.mp hrun
    obtain ⟨ts, hts, rfl⟩ := Option.map_eq_some_iff.mp hrun
    obtain ⟨hnone, rfl⟩ := create_eq_some.mp hts
    refine ⟨tb, ?_, rfl⟩
    have hne : name ≠ t := by
      rintro rfl
      rw [hnone] at htb
      cases htb
    exact (update_of_ne hne _ _).trans htb
  | dropTable t =>
    obtain ⟨ts, hts, rfl⟩ := Option.map_eq_some_iff.mp hrun
    obtain ⟨-, rfl⟩ := drop_eq_some.mp hts
    refine ⟨tb, ?_, rfl⟩
    have hne : name ≠ t := fun h => hdrop (h ▸ rfl)
    exact (update_of_ne hne _ _).trans htb
  | addColumn t c =>
    obtain ⟨f, -, hrun⟩ := Option.bind_eq_some_iff.mp hrun
    obtain ⟨tb', htb', hcols⟩ := alterColumns_cells hrun htb
    refine ⟨tb', htb', ?_⟩
    rw [CellStep]
    split at hcols
    · rename_i ht
      obtain ⟨hnone, hup⟩ := create_eq_some.mp hcols
      rw [if_pos ht]
      exact ⟨f.cell, by rw [Table.cells, hnone, Option.map_none], cells_update hup⟩
    · rename_i ht
      rw [if_neg ht, hcols]
  | dropColumn t c =>
    rw [exec] at hrun
    obtain ⟨tb', htb', hcols⟩ := alterColumns_cells hrun htb
    refine ⟨tb', htb', ?_⟩
    rw [CellStep]
    split at hcols
    · rename_i ht
      obtain ⟨-, hup⟩ := drop_eq_some.mp hcols
      rw [if_pos ht]
      exact cells_update hup
    · rename_i ht
      rw [if_neg ht, hcols]
  | alterColumnType t c from_ to_ =>
    obtain ⟨f, -, hrun⟩ := Option.bind_eq_some_iff.mp hrun
    exact alterColumn_cells hrun htb fun _ => rfl
  | alterColumnNullable t c nullable =>
    rw [exec] at hrun
    exact alterColumn_cells hrun htb fun _ => rfl
  | alterColumnDefault t c from_ to_ =>
    rw [exec] at hrun
    exact alterColumn_cells hrun htb fun _ => rfl
  | alterColumnMaxLength t c from_ to_ =>
    rw [exec] at hrun
    exact alterColumn_cells hrun htb fun _ => rfl
  | alterColumnComment t c from_ to_ =>
    rw [exec] at hrun
    exact alterColumn_cells hrun htb fun _ => rfl
  | alterColumnUnique t c unique =>
    rw [exec] at hrun
    exact alterColumn_cells hrun htb fun _ => rfl
  | alterTableComment t from_ to_ =>
    rw [exec] at hrun
    obtain ⟨tb', htb', htable⟩ := alterTable_tables hrun htb
    refine ⟨tb', htb', ?_⟩
    split at htable
    · obtain rfl := Option.some.inj htable
      rfl
    · rw [htable]
      rfl
  | renameTable old new =>
    rw [exec, Schema.renameTable] at hrun
    split at hrun
    · cases hrun
    · rename_i hfree
      simp only [Schema.Taken, not_or, Option.not_isSome_iff_eq_none] at hfree
      split at hrun
      · -- A junction is renamed, not this table.
        rename_i hjunction
        obtain rfl := Option.some.inj hrun
        have hne : old ≠ name := by
          rintro rfl
          rcases hstep.proper.oneName old with hnone | hnone
          · rw [hnone] at htb
            cases htb
          · rw [hnone] at hjunction
            cases hjunction
        refine ⟨tb, by rw [nameAfter, if_neg hne]; exact htb, ?_⟩
        refine (cells_of_junction hstep.proper htb fun k hk => ?_).symm
        have hto : k.to_ ≠ old := by
          intro heq
          rw [heq] at hk
          rw [hk] at hjunction
          cases hjunction
        rw [ForeignKey.after, ForeignKey.retarget, swap_of_ne hto]
      · split at hrun
        · obtain rfl := Option.some.inj hrun
          exact moveTable_cells hfree.1 htb
        · cases hrun
  | renameColumn t old new =>
    rw [exec, Schema.renameColumn] at hrun
    split at hrun
    · rename_i j hj
      split at hrun
      · obtain rfl := Option.some.inj hrun
        have hne : t ≠ name := by
          rintro rfl
          rcases hstep.proper.oneName t with hnone | hnone
          · rw [hnone] at htb
            cases htb
          · rw [hnone] at hj
            cases hj
        refine ⟨tb, htb, ?_⟩
        rw [CellStep, if_neg hne]
        refine (cells_of_junction hstep.proper htb fun k hk => ?_).symm
        have hto : k.to_ ≠ t := by
          intro heq
          rw [heq, hj] at hk
          cases hk
        rw [ForeignKey.after, ForeignKey.repoint, if_neg hto]
      · cases hrun
    · split at hrun
      · rename_i hcols
        obtain rfl := Option.some.inj hrun
        have hat (c : String) (ht : t = name) : s.columnAt t c = tb.columns c := by
          rw [Schema.columnAt, ht, htb, Option.bind_some]
        exact moveColumn_cells htb (fun ht => hat old ht ▸ hcols.1) fun ht => hat new ht ▸ hcols.2
      · cases hrun
  | alterFkOnDelete t c from_ to_ =>
    have htells := hstep.tells
    rw [exec] at hrun
    obtain ⟨tb', htb', hcols⟩ := alterColumns_cells hrun htb
    refine ⟨tb', htb', ?_⟩
    rw [CellStep]
    split at hcols
    · rename_i ht
      subst ht
      obtain ⟨col, w, hcol, hw, hup⟩ := alter_eq_some.mp hcols
      obtain ⟨k, hk, rfl⟩ := Option.map_eq_some_iff.mp hw
      have hat : s.columnAt t c = some col := by
        rw [Schema.columnAt, htb, Option.bind_some, hcol]
      have hsame : col.cell.withAction (effectiveAction from_) = col.cell := by
        simp [Cell.withAction, Column.cell, hk, ← htells col k hat hk]
      have hnew : col.cell.withAction (effectiveAction to_) =
          ({ col with fk := some { k with onDelete := effectiveAction to_ } } : Column).cell := by
        simp [Cell.withAction, Column.cell, hk]
      rw [if_pos rfl]
      refine ⟨col.cell, by rw [Table.cells, hcol, Option.map_some], hsame, ?_⟩
      rw [hnew]
      exact cells_update hup
    · rename_i ht
      rw [if_neg ht, hcols]
  | addCompositeFk t n to_ from_ on_ =>
    rw [exec] at hrun
    split at hrun
    · exact alterCompositeFks_cells hrun htb
    · cases hrun
  | dropCompositeFk t n =>
    rw [exec] at hrun
    exact alterCompositeFks_cells hrun htb
  | dropM2MTable through =>
    obtain ⟨js, -, rfl⟩ := Option.map_eq_some_iff.mp hrun
    exact ⟨tb, htb, rfl⟩
  | createM2MTable _ _ _ _ _ | createIndex _ _ _ _ _ _ _ | dropIndex _ _ | addCheckConstraint _ _ _
  | dropCheckConstraint _ _ | addExclusionConstraint _ _ _ _ _ | dropExclusionConstraint _ _ =>
    rw [exec] at hrun
    split at hrun
    · obtain ⟨slots, -, rfl⟩ := Option.map_eq_some_iff.mp hrun
      exact ⟨tb, htb, rfl⟩
    · cases hrun

end Exec

section Fields
variable {l : List FieldSnapshot} {p : FieldSnapshot → Bool} {f : FieldSnapshot → FieldSnapshot}

private theorem modifyFirst_getD : (modifyFirst p f l).getD l = Keyed.modifyFirst p f l := by
  induction l with
  | nil => rfl
  | cons x l ih =>
    rw [modifyFirst, Keyed.modifyFirst, ← ih]
    split
    · rfl
    · cases modifyFirst p f l <;> rfl

private theorem modifyFirst_column {column : String} (hn : (l.map (·.column)).Nodup) :
    (modifyFirst (·.column = column) f l).getD l =
      l.map fun x => if x.column = column then f x else x := by
  rw [modifyFirst_getD]
  exact modifyFirst_eq_map FieldSnapshot.column f hn fun x _ => decide_eq_true_iff

private theorem modifyFirst_keeps {l' : List FieldSnapshot} (h : modifyFirst p f l = some l')
    (hcol : ∀ x, (f x).column = x.column) (hcell : ∀ x, (f x).cell = x.cell) :
    l'.map (·.column) = l.map (·.column) ∧ ∀ c,
      (lookup FieldSnapshot.column l' c).map FieldSnapshot.cell =
        (lookup FieldSnapshot.column l c).map FieldSnapshot.cell := by
  induction l generalizing l' with
  | nil => cases h
  | cons x l ih =>
    rw [modifyFirst] at h
    split at h
    · obtain rfl := Option.some.inj h
      refine ⟨by rw [List.map_cons, List.map_cons, hcol], fun c => ?_⟩
      rw [lookup_cons, lookup_cons, hcol]
      split
      · rw [Option.map_some, Option.map_some, hcell]
      · rfl
    · obtain ⟨l₁, hl, rfl⟩ := Option.map_eq_some_iff.mp h
      obtain ⟨hcols, hfield⟩ := ih hl
      refine ⟨by rw [List.map_cons, List.map_cons, hcols], fun c => ?_⟩
      rw [lookup_cons, lookup_cons]
      split
      · rfl
      · exact hfield c

end Fields

private theorem withAction_withAction (a b : String) (cell : Cell) :
    (cell.withAction a).withAction b = cell.withAction b := by
  simp only [Cell.withAction, Option.map_map]
  rfl

private theorem after_withAction (action : String) (change : SchemaChange) (cell : Cell) :
    (cell.withAction action).after change = (cell.after change).withAction action := by
  cases hfk : cell.fk with
  | none => simp [Cell.withAction, Cell.after, hfk]
  | some k =>
    have hk : ({ k with onDelete := action } : ForeignKey).after change =
        { k.after change with onDelete := action } := by
      cases change with
      | renameColumn t old new =>
        simp only [ForeignKey.after, ForeignKey.repoint]
        split <;> rfl
      | _ => rfl
    simp [Cell.withAction, Cell.after, hfk, hk]

private theorem atEnd_withAction (action : String) (later : List Operation) (cell : Cell) :
    (cell.withAction action).atEnd later = (cell.atEnd later).withAction action := by
  induction later generalizing cell with
  | nil => rfl
  | cons op later ih =>
    cases op with
    | schema change =>
      rw [Cell.atEnd, Cell.atEnd, after_withAction, ih]
    | data op => exact ih cell
    | callback op => exact ih cell

section Undo
variable {table name : String} {later : List Operation} {cells cells' : Cells}
  {change : SchemaChange} {t t' : TableSnapshot}

theorem Kept.quiet (h : Kept (nameAfter name change) later cells' t)
    (hcells : cells' = fun c => (cells c).map (Cell.after change))
    (hfate : ∀ c, columnAfter name c change = some c)
    (hcols : t'.fields.map (·.column) = t.fields.map (·.column))
    (hfield : ∀ c, (t'.field c).map FieldSnapshot.cell = (t.field c).map FieldSnapshot.cell) :
    Kept name (.schema change :: later) cells t' where
  nodup := hcols ▸ h.nodup
  field c := by
    rw [hfield, h.field, hcells, columnAtEnd, hfate, Option.bind_some, Option.map_map]
    rfl

theorem Kept.same (h : Kept (nameAfter name change) later cells' t)
    (hcells : cells' = fun c => (cells c).map (Cell.after change))
    (hfate : ∀ c, columnAfter name c change = some c) : Kept name (.schema change :: later) cells t :=
  h.quiet hcells hfate rfl fun _ => rfl

theorem Kept.composite {cells : Cells} (h : Kept name later cells t)
    (compositeFks : List CompositeFkSnapshot) : Kept name later cells { t with compositeFks } :=
  ⟨h.nodup, h.field⟩

private theorem after_of_not_rename (hc : change.isRename = false) (cells : Cells) :
    (fun c => (cells c).map (Cell.after change)) = cells := by
  have hid : Cell.after change = id := by
    funext cell
    have hk : (fun k : ForeignKey => k.after change) = id := by
      funext k
      cases change <;> first | rfl | cases hc
    rw [Cell.after, hk, Option.map_id]
    rfl
  funext c
  rw [hid, Option.map_id]
  rfl

private theorem map_atEnd (o : Option Cell) :
    o.map (Cell.atEnd (.schema change :: later)) = (o.map (Cell.after change)).map (Cell.atEnd later) := by
  rw [Option.map_map]
  rfl

theorem Kept.addColumn {column : String} {cell : Cell} (h : Kept name later cells' t)
    (hnone : cells column = none) (hcells : cells' = update cells column (some cell)) :
    Kept name (.schema (.addColumn name column) :: later) cells
      { t with fields := t.fields.filter (·.column ≠ column) } where
  nodup := nodup_retain FieldSnapshot.column h.nodup column
  field c := by
    have hretain : TableSnapshot.field { t with fields := t.fields.filter (·.column ≠ column) } c =
        if c = column then none else t.field c := lookup_retain FieldSnapshot.column t.fields column c
    have hfate : columnAfter name c (.addColumn name column) = some c := rfl
    rw [hretain, columnAtEnd, hfate, Option.bind_some, map_atEnd,
      congrFun (after_of_not_rename rfl cells) c]
    by_cases hc : c = column
    · rw [if_pos hc, hc, hnone]
      exact (Option.bind_fun_none _).symm
    · rw [if_neg hc, h.field, hcells, update_of_ne hc]
      rfl

theorem Kept.dropColumn {column : String} (h : Kept name later cells' t)
    (hcells : cells' = update cells column none) :
    Kept name (.schema (.dropColumn name column) :: later) cells t where
  nodup := h.nodup
  field c := by
    rw [h.field, hcells, columnAtEnd, columnAfter]
    by_cases hc : c = column
    · rw [if_pos ⟨rfl, hc⟩, hc, update_self]
      exact Option.bind_fun_none _
    · rw [if_neg fun hand => hc hand.2, update_of_ne hc, Option.bind_some, map_atEnd,
        congrFun (after_of_not_rename rfl cells) c]
      rfl

theorem Kept.renameColumn {old new : String} (h : Kept name later cells' t)
    (hsome : (cells old).isSome) (hnew : cells new = none)
    (hcells : cells' = fun c =>
      (moveSlot old new cells c).map (Cell.after (.renameColumn name old new))) :
    Kept name (.schema (.renameColumn name old new) :: later) cells
      { t with
        fields := (modifyFirst (·.column = new) ({ · with column := old }) t.fields).getD t.fields } := by
  have hne : old ≠ new := by
    rintro rfl
    rw [hnew] at hsome
    cases hsome
  have hat (c : String) : cells' c =
      (moveSlot old new cells c).map (Cell.after (.renameColumn name old new)) := congrFun hcells c
  have hold : t.field old = none := by
    have hfield := h.field old
    rw [hat, moveSlot_apply, if_neg hne, if_pos rfl] at hfield
    exact Option.map_eq_none_iff.mp (hfield.trans (Option.bind_fun_none _))
  have hlist : (modifyFirst (·.column = new) ({ · with column := old }) t.fields).getD t.fields =
      t.fields.map fun f => { f with column := swap new old f.column } := by
    rw [modifyFirst_column h.nodup]
    refine List.map_congr_left fun f _ => ?_
    rw [swap]
    split <;> rfl
  have hfree : old ∉ t.fields.map (·.column) := by
    intro hmem
    have hsome := (lookup_isSome FieldSnapshot.column).mpr hmem
    rw [show lookup FieldSnapshot.column t.fields old = none from hold] at hsome
    cases hsome
  refine ⟨?_, fun c => ?_⟩
  · rw [hlist, List.map_map]
    have hswap := nodup_map_swap new h.nodup hfree
    rw [List.map_map] at hswap
    exact hswap
  · rw [hlist]
    have hmove : lookup FieldSnapshot.column
        (t.fields.map fun f => { f with column := swap new old f.column }) c =
        moveSlot new old (fun x => (lookup FieldSnapshot.column t.fields x).map fun f =>
          { f with column := swap new old f.column }) c :=
      lookup_map_move FieldSnapshot.column _ (fun _ => rfl) hold c
    rw [moveSlot_apply] at hmove
    have hfate : columnAtEnd name c (.schema (.renameColumn name old new) :: later) =
        (columnAfter name c (.renameColumn name old new)).bind fun c' => columnAtEnd name c' later := rfl
    rw [TableSnapshot.field, hmove, hfate, columnAfter, map_atEnd]
    have hcell (x : String) :
        ((lookup FieldSnapshot.column t.fields x).map fun f : FieldSnapshot =>
          { f with column := swap new old f.column }).map FieldSnapshot.cell =
        (t.field x).map FieldSnapshot.cell := by
      rw [Option.map_map]
      rfl
    by_cases hc : c = old
    · rw [if_pos hc, if_pos ⟨rfl, hc⟩, hcell, h.field, hat, Option.bind_some, moveSlot_apply,
        if_pos rfl, hc]
    · have hother : ¬ (name = name ∧ c = old) := fun hand => hc hand.2
      rw [if_neg hc, if_neg hother, Option.bind_some]
      by_cases hcn : c = new
      · rw [if_pos hcn, hcn, hnew]
        exact (Option.bind_fun_none _).symm
      · rw [if_neg hcn, hcell, h.field, hat, moveSlot_apply, if_neg hcn, if_neg hc]

theorem Kept.alterFkOnDelete {column : String} {from_ to_ : Option String} {cell : Cell}
    (h : Kept name later cells' t) (hcell : cells column = some cell)
    (hsame : cell.withAction (effectiveAction from_) = cell)
    (hcells : cells' = update cells column (some (cell.withAction (effectiveAction to_)))) :
    Kept name (.schema (.alterFkOnDelete name column from_ to_) :: later) cells
      { t with fields := (modifyFirst (·.column = column) (fun f : FieldSnapshot =>
        { f with fk := f.fk.map ({ · with onDelete := from_ }) }) t.fields).getD t.fields } := by
  have hcellOf (f : FieldSnapshot) :
      ({ f with fk := f.fk.map ({ · with onDelete := from_ }) } : FieldSnapshot).cell =
        f.cell.withAction (effectiveAction from_) := by
    simp only [FieldSnapshot.cell, FieldSnapshot.db, Column.cell, Cell.withAction, Option.map_map]
    rfl
  rw [modifyFirst_column h.nodup]
  have hkey (f : FieldSnapshot) : (if f.column = column then
      { f with fk := f.fk.map ({ · with onDelete := from_ }) } else f).column = f.column := by
    split <;> rfl
  refine ⟨nodup_map_key FieldSnapshot.column _ hkey h.nodup, fun c => ?_⟩
  have hfate : columnAfter name c (.alterFkOnDelete name column from_ to_) = some c := rfl
  rw [TableSnapshot.field, lookup_map_key FieldSnapshot.column _ hkey, columnAtEnd, hfate,
    Option.bind_some, map_atEnd, congrFun (after_of_not_rename rfl cells) c]
  have hname : nameAfter name (.alterFkOnDelete name column from_ to_) = name := rfl
  have hfield := h.field c
  rw [hcells, TableSnapshot.field] at hfield
  rw [hname]
  by_cases hc : c = column
  · subst hc
    rw [update_self] at hfield
    rw [hcell]
    cases hlast : columnAtEnd name c later with
    | none =>
      rw [hlast] at hfield
      rw [Option.map_eq_none_iff.mp hfield]
      rfl
    | some last =>
      rw [hlast] at hfield
      obtain ⟨f, hf, hcellf⟩ := Option.map_eq_some_iff.mp hfield
      have hcolumn : f.column = c := lookup_key FieldSnapshot.column hf
      rw [hf, Option.map_some, Option.map_some, if_pos hcolumn, hcellOf, hcellf, ← atEnd_withAction,
        withAction_withAction, hsame]
      rfl
  · rw [update_of_ne hc] at hfield
    rw [← hfield]
    cases hf : lookup FieldSnapshot.column t.fields c with
    | none => rfl
    | some f =>
      have hcolumn : f.column = c := lookup_key FieldSnapshot.column hf
      rw [Option.map_some, if_neg (hcolumn ▸ hc)]

theorem Kept.alterField {column : String} {f : FieldSnapshot → FieldSnapshot}
    (h : Kept name later cells t) (hc : change.isRename = false)
    (hname : nameAfter name change = name) (hfate : ∀ c, columnAfter name c change = some c)
    (hundo : t.alterField column f = .ok t') (hcol : ∀ x, (f x).column = x.column)
    (hcell : ∀ x, (f x).cell = x.cell) : Kept name (.schema change :: later) cells t' := by
  unfold TableSnapshot.alterField at hundo
  split at hundo
  · rename_i fields hfields
    obtain rfl := Except.ok.inj hundo
    obtain ⟨hcols, hfield⟩ := modifyFirst_keeps hfields hcol hcell
    exact (hname ▸ h).quiet (after_of_not_rename hc cells).symm hfate hcols hfield
  · cases hundo

/-- Undoing a change takes the columns after it back to the ones before it. -/
theorem Kept.undo (h : Kept (nameAfter name change) later cells' t)
    (hstep : CellStep name cells change cells') (hundo : undoNamed table (change, name) t = .ok t') :
    Kept name (.schema change :: later) cells t' := by
  rw [undoNamed] at hundo
  split at hundo
  · rename_i hother
    obtain rfl := Except.ok.inj hundo
    cases change with
    | renameTable old new => exact h.same hstep fun _ => rfl
    | renameColumn u old new =>
      have hne : u ≠ name := hother
      rw [CellStep, if_neg hne] at hstep
      exact h.same hstep fun c => if_neg fun hand => hne hand.1
    | addColumn u c =>
      have hne : u ≠ name := hother
      rw [CellStep, if_neg hne] at hstep
      exact h.same (hstep.trans (after_of_not_rename rfl cells).symm) fun _ => rfl
    | dropColumn u c =>
      have hne : u ≠ name := hother
      rw [CellStep, if_neg hne] at hstep
      exact h.same (hstep.trans (after_of_not_rename rfl cells).symm) fun c =>
        if_neg fun hand => hne hand.1
    | alterFkOnDelete u c from_ to_ =>
      have hne : u ≠ name := hother
      rw [CellStep, if_neg hne] at hstep
      exact h.same (hstep.trans (after_of_not_rename rfl cells).symm) fun _ => rfl
    | _ => exact h.same (hstep.trans (after_of_not_rename rfl cells).symm) fun _ => rfl
  · rename_i hname
    rw [not_not] at hname
    dsimp only at hname
    cases change with
    | createTable _ | dropTable _ | createM2MTable _ _ _ _ _ | dropM2MTable _ => cases hundo
    | addColumn u c =>
      obtain rfl : u = name := hname
      rw [CellStep, if_pos rfl] at hstep
      obtain ⟨cell, hnone, hcells⟩ := hstep
      obtain rfl := Except.ok.inj hundo
      exact h.addColumn hnone hcells
    | dropColumn u c =>
      obtain rfl : u = name := hname
      rw [CellStep, if_pos rfl] at hstep
      obtain rfl := Except.ok.inj hundo
      exact h.dropColumn hstep
    | renameColumn u old new =>
      obtain rfl : u = name := hname
      rw [CellStep, if_pos rfl] at hstep
      obtain ⟨hsome, hnew, hcells⟩ := hstep
      obtain rfl := Except.ok.inj hundo
      have hkept := h.renameColumn hsome hnew hcells
      exact hkept.composite _
    | alterFkOnDelete u c from_ to_ =>
      obtain rfl : u = name := hname
      rw [CellStep, if_pos rfl] at hstep
      obtain ⟨cell, hcell, hsame, hcells⟩ := hstep
      obtain rfl := Except.ok.inj hundo
      exact h.alterFkOnDelete hcell hsame hcells
    | alterColumnDefault u c from_ to_ =>
      obtain rfl : cells' = cells := hstep
      refine Kept.alterField h rfl rfl (fun _ => rfl) hundo ?_ ?_
      · intro f
        split <;> rfl
      · intro f
        split <;> rfl
    | alterColumnType _ _ _ _ | alterColumnNullable _ _ _ | alterColumnMaxLength _ _ _ _
    | alterColumnComment _ _ _ _ | alterColumnUnique _ _ _ =>
      obtain rfl : cells' = cells := hstep
      exact Kept.alterField h rfl rfl (fun _ => rfl) hundo (fun _ => rfl) fun _ => rfl
    | renameTable old new =>
      obtain rfl := Except.ok.inj hundo
      exact h.same hstep fun _ => rfl
    | _ =>
      obtain rfl := Except.ok.inj hundo
      exact h.quiet (hstep.trans (after_of_not_rename rfl cells).symm) (fun _ => rfl) rfl fun _ => rfl

end Undo

/-- Undoing the changes of a run, the last of them first. -/
theorem Kept.run {s s' : Schema} {later : List Operation} (hruns : Runs s later s') {table name : String}
    {tb : Table} {t t' : TableSnapshot} (htb : s.tables name = some tb)
    (hlast : ∀ last, s'.tables (nameAtEnd name later) = some last →
      Kept (nameAtEnd name later) [] last.cells t)
    (hundo : (namedLater name later).foldrM (undoNamed table) t = .ok t') :
    Kept name later tb.cells t' := by
  induction hruns generalizing name tb t' with
  | nil s =>
    obtain rfl := Except.ok.inj hundo
    exact hlast tb htb
  | @schema s s₁ s' change later step rest ih =>
    rw [namedLater, List.foldrM_cons] at hundo
    obtain ⟨between, hbetween, hundo⟩ := bind_eq_ok.mp hundo
    have hdrop : change ≠ .dropTable name := by
      rintro rfl
      simp [undoNamed, SchemaChange.table, undoLater] at hundo
    obtain ⟨tb₁, htb₁, hcells⟩ := step_cells step htb hdrop
    exact (ih htb₁ hlast hbetween).undo hcells hundo
  | data op rest ih =>
    have hkept := ih htb hlast hundo
    exact ⟨hkept.nodup, hkept.field⟩
  | callback op rest ih =>
    have hkept := ih htb hlast hundo
    exact ⟨hkept.nodup, hkept.field⟩

/-- The columns of the shape that a table is rebuilt into in the middle of a migration are the ones it
has there, under their names there, minus those that a later operation drops. Each has its primary-key
flag, its generated expression, and its FK with the target under its names at the end. -/
theorem shapeAt_columns {s s' : Schema} {table last : String} {later : List Operation}
    {after : SchemaSnapshot} {tb : Table} {shape : TableSnapshot} (hruns : Runs s later s')
    (hend : s'.tables = after.db.tables) (hunique : after.UniqueKeys) (htb : s.tables table = some tb)
    (hshape : shapeAt table later after = .ok (shape, last)) :
    (shape.fields.map (·.column)).Nodup ∧ ∀ c, (shape.field c).map FieldSnapshot.cell =
      (columnAtEnd table c later).bind fun _ => (tb.cells c).map (Cell.atEnd later) := by
  unfold shapeAt at hshape
  dsimp only at hshape
  split at hshape
  · cases hshape
  · rename_i entry hentry
    obtain ⟨t, hundo, hshape⟩ := bind_eq_ok.mp hshape
    obtain ⟨rfl, -⟩ := Prod.mk.inj (Except.ok.inj hshape)
    have hkept : Kept table later tb.cells t := by
      refine Kept.run hruns htb (fun final hfinal => ⟨?_, fun c => ?_⟩) hundo
      · exact hunique.fields entry (SchemaSnapshot.mem_of_table hentry)
      · rw [hend, SchemaSnapshot.db_tables, hentry, Option.map_some, Option.some.injEq] at hfinal
        rw [← hfinal, Table.cells, TableSnapshot.db_columns, Option.map_map, Option.map_map]
        rfl
    exact ⟨hkept.nodup, hkept.field⟩

-- A post has an author; the authors are renamed to writers after the posts are rebuilt.

private def idField : FieldSnapshot :=
  ⟨"id", "id", "integer", false, true, none, none, none, none, true, false, false, none, none, none⟩

private def penField : FieldSnapshot :=
  ⟨"author", "author_id", "integer", false, false, none, none, none, none, false, false, false, none,
    none, some ⟨"fk", "authors", "id", none⟩⟩

private def authoredPosts : SchemaSnapshot where
  tables := [⟨"posts", "Post", [idField, penField], [], none⟩, ⟨"authors", "Author", [idField], [], none⟩]
  m2mTables := []
  indexes := []
  checks := []
  excludes := []

private def writtenPosts : SchemaSnapshot := authoredPosts.moveTable "authors" "writers"

private def toWriters : List Operation := [.schema (.renameTable "authors" "writers")]

private theorem toWriters_runs : Runs authoredPosts.db toWriters writtenPosts.db := by
  have hexec : exec authoredPosts authoredPosts.db (.renameTable "authors" "writers") =
      some (authoredPosts.db.moveTable "authors" "writers") := rfl
  have hproper : authoredPosts.db.Proper := ⟨fun _ => Or.inr rfl, fun _ _ _ _ _ _ => rfl⟩
  have hdb : writtenPosts.db = authoredPosts.db.moveTable "authors" "writers" :=
    SchemaSnapshot.moveTable_db rfl
  rw [hdb]
  exact .schema ⟨⟨_, hexec⟩, trivial, hproper⟩ (.nil _)

theorem shapeAt_columns_posts : ∃ shape, shapeAt "posts" toWriters writtenPosts = .ok (shape, "posts") ∧
    ∀ c, (shape.field c).map FieldSnapshot.cell = (columnAtEnd "posts" c toWriters).bind fun _ =>
      (Table.cells (TableSnapshot.db ⟨"posts", "Post", [idField, penField], [], none⟩) c).map
        (Cell.atEnd toWriters) :=
  ⟨_, rfl, (shapeAt_columns toWriters_runs rfl (by decide) rfl rfl).2⟩

/-- The FK of a shape names its target as it is called at the end. -/
theorem shapeAt_columns_target : ∃ shape tb, Runs authoredPosts.db toWriters writtenPosts.db ∧
    authoredPosts.db.tables "posts" = some tb ∧
    shapeAt "posts" toWriters writtenPosts = .ok (shape, "posts") ∧
    columnAtEnd "posts" "author_id" toWriters = some "author_id" ∧
    (shape.field "author_id").map FieldSnapshot.cell ≠ tb.cells "author_id" :=
  ⟨_, _, toWriters_runs, rfl, rfl, rfl, by decide⟩

end Rustango.Migrate
