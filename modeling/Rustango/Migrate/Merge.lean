import Rustango.Lib.ThreeWay
import Rustango.Migrate.Snapshot

/-!
# Merging branch snapshots

`merge_branch` joins what another branch changed since the common base into a snapshot. It
merges every object by key except a table's comment, which no line of it reads.
-/

namespace Rustango.Migrate

open Rustango.Keyed Rustango.ThreeWay

/-- Tables under construction and the conflicts so far. -/
abbrev MergeState := List TableSnapshot × List String

def droppedText (table : String) : String :=
  "table `" ++ table ++ "`: dropped on one branch, changed on the other"

def whatText (table kind : String) : String := "table `" ++ table ++ "` " ++ kind

/-- A table of the base that theirs dropped. -/
def mergeDropped (theirs : SchemaSnapshot) (acc : MergeState) (b : TableSnapshot) : MergeState :=
  if theirs.table b.name = none then
    match lookup TableSnapshot.name acc.1 b.name with
    | some o => if o ≠ b then (acc.1, acc.2 ++ [droppedText b.name])
        else (retain TableSnapshot.name acc.1 b.name, acc.2)
    | none => (retain TableSnapshot.name acc.1 b.name, acc.2)
  else acc

/-- The model of a table both branches hold. -/
def mergeModel (was : Option TableSnapshot) (ours t : TableSnapshot) : String × List String :=
  let baseModel := was.map (·.model)
  if baseModel ≠ some t.model then
    if baseModel ≠ some ours.model ∧ ours.model ≠ t.model then
      (ours.model, [whatText t.name "model"])
    else (t.model, [])
  else (ours.model, [])

/-- A table both branches hold, changed by theirs: columns, composite FKs and model. -/
def mergeInto (was : Option TableSnapshot) (ours t : TableSnapshot) : TableSnapshot × List String :=
  let fields := mergeKeyed FieldSnapshot.column (was.elim [] (·.fields)) ours.fields t.fields
  let fks := mergeKeyed CompositeFkSnapshot.name (was.elim [] (·.compositeFks))
    ours.compositeFks t.compositeFks
  let model := mergeModel was ours t
  ({ ours with fields := fields.1, compositeFks := fks.1, model := model.1 },
    fields.2.map (fun k => whatText t.name "column" ++ " `" ++ k ++ "`") ++
      fks.2.map (fun k => whatText t.name "composite FK" ++ " `" ++ k ++ "`") ++ model.2)

/-- A table of theirs. -/
def mergeTable (base : SchemaSnapshot) (acc : MergeState) (t : TableSnapshot) : MergeState :=
  let was := base.table t.name
  if was = some t then acc
  else match lookup TableSnapshot.name acc.1 t.name with
    | none =>
      if was.isSome then (acc.1, acc.2 ++ [droppedText t.name]) else (acc.1 ++ [t], acc.2)
    | some ours =>
      let merged := mergeInto was ours t
      (replaceFirst TableSnapshot.name t.name merged.1 acc.1, acc.2 ++ merged.2)

/-- The tables and conflicts after both loops. -/
def mergedTables (base ours theirs : SchemaSnapshot) : MergeState :=
  theirs.tables.foldl (mergeTable base) (base.tables.foldl (mergeDropped theirs) (ours.tables, []))

def keyedText (kind : String) (found : List String) : List String :=
  found.map fun k => kind ++ " `" ++ k ++ "`"

/-- `SchemaSnapshot::merge_branch` on `ours`: the merged snapshot, or what both branches changed
differently. -/
def mergeBranch (ours base theirs : SchemaSnapshot) : Except (List String) SchemaSnapshot :=
  let tables := mergedTables base ours theirs
  let m2m := mergeKeyed M2MTableSnapshot.through base.m2mTables ours.m2mTables theirs.m2mTables
  let indexes := mergeKeyed IndexSnapshot.name base.indexes ours.indexes theirs.indexes
  let checks := mergeKeyed CheckSnapshot.name base.checks ours.checks theirs.checks
  let excludes := mergeKeyed ExclusionSnapshot.name base.excludes ours.excludes theirs.excludes
  let conflicts := tables.2 ++ keyedText "m2m table" m2m.2 ++ keyedText "index" indexes.2 ++
    keyedText "check" checks.2 ++ keyedText "exclusion constraint" excludes.2
  if conflicts = [] then
    .ok (SchemaSnapshot.sort ⟨tables.1, m2m.1, indexes.1, checks.1, excludes.1⟩)
  else .error conflicts

section Spec
variable (base ours theirs : SchemaSnapshot)

/-- One branch dropped the table and the other changed anything of it. -/
def DropConflict (t : String) : Prop :=
  ∃ b, base.table t = some b ∧
    ((theirs.table t = none ∧ ∃ o, ours.table t = some o ∧ o ≠ b) ∨
      (ours.table t = none ∧ ∃ u, theirs.table t = some u ∧ u ≠ b))

/-- A conflict on anything but a table comment. -/
def OtherConflict : Prop :=
  (∃ t, DropConflict base ours theirs t) ∨
  (∃ t, Conflict (base.modelAt t) (ours.modelAt t) (theirs.modelAt t)) ∨
  (∃ t c, Conflict (base.columnAt t c) (ours.columnAt t c) (theirs.columnAt t c)) ∨
  (∃ t n, Conflict (base.compositeFkAt t n) (ours.compositeFkAt t n) (theirs.compositeFkAt t n)) ∨
  (∃ n, Conflict (base.m2mTable n) (ours.m2mTable n) (theirs.m2mTable n)) ∨
  (∃ n, Conflict (base.index n) (ours.index n) (theirs.index n)) ∨
  (∃ n, Conflict (base.check n) (ours.check n) (theirs.check n)) ∨
  ∃ n, Conflict (base.exclude n) (ours.exclude n) (theirs.exclude n)

def CommentConflict : Prop :=
  ∃ t, Conflict (base.commentAt t) (ours.commentAt t) (theirs.commentAt t)

/-- Every object of `m` is theirs' version where theirs moved away from the base, and ours'
elsewhere. -/
structure Merges (m : SchemaSnapshot) : Prop where
  tables : ∀ t, (m.table t).isSome =
    merged (base.table t).isSome (ours.table t).isSome (theirs.table t).isSome
  models : ∀ t, m.modelAt t = merged (base.modelAt t) (ours.modelAt t) (theirs.modelAt t)
  columns : ∀ t c, m.columnAt t c =
    merged (base.columnAt t c) (ours.columnAt t c) (theirs.columnAt t c)
  compositeFks : ∀ t n, m.compositeFkAt t n =
    merged (base.compositeFkAt t n) (ours.compositeFkAt t n) (theirs.compositeFkAt t n)
  m2mTables : ∀ n, m.m2mTable n = merged (base.m2mTable n) (ours.m2mTable n) (theirs.m2mTable n)
  indexes : ∀ n, m.index n = merged (base.index n) (ours.index n) (theirs.index n)
  checks : ∀ n, m.check n = merged (base.check n) (ours.check n) (theirs.check n)
  excludes : ∀ n, m.exclude n = merged (base.exclude n) (ours.exclude n) (theirs.exclude n)

def MergesComments (m : SchemaSnapshot) : Prop :=
  ∀ t, m.commentAt t = merged (base.commentAt t) (ours.commentAt t) (theirs.commentAt t)

/-- `merge_branch` answers exactly when nothing conflicts, and then loses no change. -/
def MergesCorrectly : Prop :=
  ((∃ m, mergeBranch ours base theirs = .ok m) ↔
    ¬ (OtherConflict base ours theirs ∨ CommentConflict base ours theirs)) ∧
  ∀ m, mergeBranch ours base theirs = .ok m →
    Merges base ours theirs m ∧ MergesComments base ours theirs m

end Spec

/-- What the loops leave under a table's name. -/
def tableSlot (b o t : Option TableSnapshot) : Option TableSnapshot :=
  match t with
  | none => if b.isSome ∧ o = b then none else o
  | some u =>
    if b = some u then o
    else match o with
      | none => if b.isSome then none else some u
      | some o => some (mergeInto b o u).1

/-- The conflicts the loops find under a table's name. -/
def tableConflicts (b o t : Option TableSnapshot) : Prop :=
  match t with
  | none => b.isSome ∧ o.isSome ∧ o ≠ b
  | some u =>
    b ≠ some u ∧ match o with
      | none => b.isSome
      | some o => (mergeInto b o u).2 ≠ []

section Loops
variable {base ours theirs : SchemaSnapshot}

private theorem mergeDropped_slot (acc : MergeState) (b : TableSnapshot) :
    lookup TableSnapshot.name (mergeDropped theirs acc b).1 b.name =
      if theirs.table b.name = none ∧ lookup TableSnapshot.name acc.1 b.name = some b then none
      else lookup TableSnapshot.name acc.1 b.name := by
  unfold mergeDropped
  by_cases ht : theirs.table b.name = none
  · rw [if_pos ht]
    cases ho : lookup TableSnapshot.name acc.1 b.name with
    | none => simp [lookup_retain]
    | some o =>
      by_cases hob : o = b
      · simp [ht, hob, lookup_retain]
      · simp [ht, hob, ho]
  · simp [ht]

private theorem mergeDropped_frame (acc : MergeState) (b : TableSnapshot) (k : String)
    (hk : k ≠ b.name) : lookup TableSnapshot.name (mergeDropped theirs acc b).1 k =
      lookup TableSnapshot.name acc.1 k := by
  unfold mergeDropped
  split
  · split
    · split
      · rfl
      · rw [lookup_retain, if_neg hk]
    · rw [lookup_retain, if_neg hk]
  · rfl

private theorem mergeDropped_log (acc : MergeState) (b : TableSnapshot) :
    (mergeDropped theirs acc b).2 = acc.2 ++
      if theirs.table b.name = none ∧ (lookup TableSnapshot.name acc.1 b.name).isSome ∧
        lookup TableSnapshot.name acc.1 b.name ≠ some b then [droppedText b.name] else [] := by
  unfold mergeDropped
  by_cases ht : theirs.table b.name = none
  · rw [if_pos ht]
    cases ho : lookup TableSnapshot.name acc.1 b.name with
    | none => simp
    | some o =>
      by_cases hob : o = b <;> simp [ht, hob]
  · simp [ht]

theorem mergeDropped_nodup (acc : MergeState) (b : TableSnapshot)
    (hn : (acc.1.map TableSnapshot.name).Nodup) :
    ((mergeDropped theirs acc b).1.map TableSnapshot.name).Nodup := by
  unfold mergeDropped
  split
  · split
    · split
      · exact hn
      · exact nodup_retain _ hn _
    · exact nodup_retain _ hn _
  · exact hn

@[simp] theorem mergeInto_name (was : Option TableSnapshot) (o t : TableSnapshot) :
    (mergeInto was o t).1.name = o.name := rfl

private theorem mergeTable_slot (acc : MergeState) (t : TableSnapshot) :
    lookup TableSnapshot.name (mergeTable base acc t).1 t.name =
      tableSlot (base.table t.name) (lookup TableSnapshot.name acc.1 t.name) (some t) := by
  unfold mergeTable tableSlot
  by_cases hb : base.table t.name = some t
  · simp [hb]
  · cases ho : lookup TableSnapshot.name acc.1 t.name with
    | none =>
      simp only [hb, if_false]
      split
      · exact ho
      · rw [lookup_append, ho, lookup_cons]
        simp
    | some o =>
      simp only [hb, if_false]
      rw [lookup_replaceFirst _ _ _ (by simpa using lookup_key TableSnapshot.name ho), if_pos rfl, ho]
      rfl

private theorem mergeTable_frame (acc : MergeState) (t : TableSnapshot) (k : String)
    (hk : k ≠ t.name) : lookup TableSnapshot.name (mergeTable base acc t).1 k =
      lookup TableSnapshot.name acc.1 k := by
  unfold mergeTable
  dsimp only
  split
  · rfl
  · split
    · split
      · rfl
      · rw [lookup_append, lookup_cons, if_neg (Ne.symm hk)]
        simp
    · rename_i o ho
      rw [lookup_replaceFirst _ _ _ (by simpa using lookup_key TableSnapshot.name ho), if_neg hk]

private theorem mergeTable_log (acc : MergeState) (t : TableSnapshot) :
    (mergeTable base acc t).2 = acc.2 ++
      (if base.table t.name = some t then []
        else match lookup TableSnapshot.name acc.1 t.name with
          | none => if (base.table t.name).isSome then [droppedText t.name] else []
          | some o => (mergeInto (base.table t.name) o t).2) := by
  unfold mergeTable
  dsimp only
  split
  · simp
  · split
    · split <;> simp
    · rfl

theorem mergeTable_nodup (acc : MergeState) (t : TableSnapshot)
    (hn : (acc.1.map TableSnapshot.name).Nodup) :
    ((mergeTable base acc t).1.map TableSnapshot.name).Nodup := by
  unfold mergeTable
  dsimp only
  split
  · exact hn
  · split
    · rename_i ho
      split
      · exact hn
      · exact nodup_push _ hn ho
    · rename_i o ho
      rwa [map_key_replaceFirst _ _ _ (by simpa using lookup_key TableSnapshot.name ho)]

variable (ours)

theorem mergedTables_run (hb : base.UniqueKeys) (ht : theirs.UniqueKeys) :
    (∀ k, lookup TableSnapshot.name (mergedTables base ours theirs).1 k =
      tableSlot (base.table k) (ours.table k) (theirs.table k)) ∧
    ((mergedTables base ours theirs).2 = [] ↔
      ∀ k, ¬ tableConflicts (base.table k) (ours.table k) (theirs.table k)) := by
  obtain ⟨hs1, hl1⟩ := foldl_slotwise TableSnapshot.name
    (fun (s : MergeState) k => lookup TableSnapshot.name s.1 k) (fun s => s.2)
    (mergeDropped theirs)
    (fun b o => if theirs.table b.name = none ∧ o = some b then none else o)
    (fun b o => if theirs.table b.name = none ∧ o.isSome ∧ o ≠ some b
      then [droppedText b.name] else [])
    mergeDropped_slot (fun s b k hk => mergeDropped_frame s b k hk) mergeDropped_log
    base.tables hb.tables (ours.tables, [])
  obtain ⟨hs2, hl2⟩ := foldl_slotwise TableSnapshot.name
    (fun (s : MergeState) k => lookup TableSnapshot.name s.1 k) (fun s => s.2)
    (mergeTable base) (fun t o => tableSlot (base.table t.name) o (some t))
    (fun t o => if base.table t.name = some t then []
      else match o with
        | none => if (base.table t.name).isSome then [droppedText t.name] else []
        | some o => (mergeInto (base.table t.name) o t).2)
    mergeTable_slot (fun s t k hk => mergeTable_frame s t k hk) mergeTable_log
    theirs.tables ht.tables (base.tables.foldl (mergeDropped theirs) (ours.tables, []))
  have hkept : ∀ k, lookup TableSnapshot.name
      (base.tables.foldl (mergeDropped theirs) (ours.tables, [])).1 k =
      if (theirs.table k).isSome then ours.table k
      else tableSlot (base.table k) (ours.table k) none := by
    intro k
    rw [hs1 k]
    change (base.table k).elim (ours.table k) _ = _
    cases hbk : base.table k with
    | none => cases theirs.table k <;> simp [tableSlot]
    | some b =>
      have hn : b.name = k := SchemaSnapshot.table_name hbk
      subst hn
      change (if theirs.table b.name = none ∧ ours.table b.name = some b then none
        else ours.table b.name) = _
      cases theirs.table b.name <;> simp [tableSlot]
  constructor
  · intro k
    refine (hs2 k).trans ?_
    rw [hkept k]
    change (theirs.table k).elim _ _ = _
    cases htk : theirs.table k with
    | none => simp
    | some t =>
      have hn : t.name = k := SchemaSnapshot.table_name htk
      subst hn
      simp
  · have hdrop : (∀ b ∈ base.tables, ¬ (theirs.table b.name = none ∧
        (ours.table b.name).isSome ∧ ours.table b.name ≠ some b)) ↔
        ∀ k, theirs.table k = none → ¬ tableConflicts (base.table k) (ours.table k) none := by
      constructor
      · rintro h k hk ⟨hbs, hos, hne⟩
        obtain ⟨b, hbk⟩ := Option.isSome_iff_exists.mp hbs
        have hn : b.name = k := SchemaSnapshot.table_name hbk
        subst hn
        exact h b (SchemaSnapshot.mem_of_table hbk) ⟨hk, hos, hbk ▸ hne⟩
      · rintro h b hbm ⟨hk, hos, hne⟩
        have hbk := hb.table_of_mem hbm
        exact h b.name hk ⟨by simp [hbk], hos, hbk ▸ hne⟩
    have hstep : ∀ t ∈ theirs.tables, ((if base.table t.name = some t then []
        else match ours.table t.name with
          | none => if (base.table t.name).isSome then [droppedText t.name] else []
          | some o => (mergeInto (base.table t.name) o t).2) = [] ↔
        ¬ tableConflicts (base.table t.name) (ours.table t.name) (some t)) := by
      intro t htm
      unfold tableConflicts
      by_cases hbt : base.table t.name = some t
      · simp [hbt]
      · cases ours.table t.name <;> simp [hbt]
    change (mergedTables base ours theirs).2 = [] ↔ _
    rw [mergedTables, hl2, hl1]
    simp only [List.nil_append, List.append_eq_nil_iff, List.flatMap_eq_nil_iff]
    have h1 : (∀ b ∈ base.tables, (if theirs.table b.name = none ∧
        (lookup TableSnapshot.name ours.tables b.name).isSome ∧
        lookup TableSnapshot.name ours.tables b.name ≠ some b then [droppedText b.name] else [])
        = []) ↔ ∀ b ∈ base.tables, ¬ (theirs.table b.name = none ∧
        (ours.table b.name).isSome ∧ ours.table b.name ≠ some b) := by
      refine forall₂_congr fun b _ => ?_
      rw [ite_eq_right_iff]
      simp [SchemaSnapshot.table]
    rw [h1, hdrop]
    constructor
    · rintro ⟨hd, hm⟩ k
      cases htk : theirs.table k with
      | none => exact hd k htk
      | some t =>
        have hn : t.name = k := SchemaSnapshot.table_name htk
        subst hn
        have hmem := SchemaSnapshot.mem_of_table htk
        have hk := hm t hmem
        rw [hkept, htk, Option.isSome_some, if_pos rfl] at hk
        exact (hstep t hmem).mp hk
    · intro h
      refine ⟨fun k hk => hk ▸ h k, fun t hmem => ?_⟩
      have htk := ht.table_of_mem hmem
      rw [hkept, htk, Option.isSome_some, if_pos rfl]
      exact (hstep t hmem).mpr (htk ▸ h t.name)

end Loops

end Rustango.Migrate
