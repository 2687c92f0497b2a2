import Rustango.Lib.Chunks
import Rustango.Lib.Lasts

/-!
# Bulk upserts in batches

A bulk upsert drops the rows whose conflict key comes again later, then goes out in statements that fit
the bind cap. Keys are told apart by the `Debug` form of their cells, as the database tells them apart by
its own equality.
-/

namespace Rustango.BulkUpsert

open Rustango.Chunks Rustango.Lasts

/-- `SqlValue`: which values are `Null`, and their `Debug`. -/
structure SqlValues where
  Value : Type
  isNull : Value → Bool
  debug : Value → String

inductive ConflictClause where
  | doNothing
  | doUpdate (target updateColumns : List String)
deriving DecidableEq, Repr

structure BulkInsertQuery (v : SqlValues) where
  table : String
  columns : List String
  rows : List (List v.Value)
  returning : List String
  onConflict : Option ConflictClause
  generated : List String

/-- A value that is borrowed or owned. -/
inductive Cow (α : Type) where
  | borrowed (a : α)
  | owned (a : α)

def Cow.get {α : Type} : Cow α → α
  | borrowed a => a
  | owned a => a

@[simp] theorem Cow.get_borrowed {α : Type} (a : α) : (Cow.borrowed a).get = a := rfl

@[simp] theorem Cow.get_owned {α : Type} (a : α) : (Cow.owned a).get = a := rfl

section Code
variable {v : SqlValues}

/-- The query with no rows. -/
def BulkInsertQuery.header (q : BulkInsertQuery v) : BulkInsertQuery v := { q with rows := [] }

/-- Where the columns of a conflict target stand in a row. -/
def BulkInsertQuery.positions (q : BulkInsertQuery v) (target : List String) : Option (List Nat) :=
  target.mapM fun t => q.columns.idxOf? t

/-- Every cell of the key is there and is not `Null`. -/
def keyed (idx : List Nat) (row : List v.Value) : Bool :=
  idx.all fun k => (row[k]?).any fun x => !v.isNull x

/-- Equality of `ConflictKey`s. -/
def keyEq (idx : List Nat) (row other : List v.Value) : Bool :=
  idx.all fun k => (row[k]?).map v.debug == (other[k]?).map v.debug

/-- The flags of the rows, from the last to the first, and the rows with the keys seen. -/
def keepFrom (idx : List Nat) : List (List v.Value) → List Bool × List (List v.Value)
  | [] => ([], [])
  | row :: rows =>
    let (keep, seen) := keepFrom idx rows
    if keyed idx row then
      if seen.any (keyEq idx row) then (false :: keep, seen) else (true :: keep, row :: seen)
    else (true :: keep, seen)

def BulkInsertQuery.rowsToKeep (q : BulkInsertQuery v) : Option (List Bool) :=
  match q.onConflict with
  | some (.doUpdate target _) => do
    let idx ← q.positions target
    let keep := (keepFrom idx q.rows).1
    if keep.contains false then some keep else none
  | _ => none

/-- `Vec::retain` with the next flag for each element. -/
def retainBy {α : Type} : List α → List Bool → List α
  | [], _ => []
  | x :: xs, [] => x :: retainBy xs []
  | x :: xs, k :: ks => if k then x :: retainBy xs ks else retainBy xs ks

def lastPerConflictKey (query : Cow (BulkInsertQuery v)) : Cow (BulkInsertQuery v) :=
  match query.get.rowsToKeep with
  | none => query
  | some keep =>
    match query with
    | .borrowed q =>
      .owned { q.header with
        rows := (q.rows.zip keep).filterMap fun e => if e.2 then some e.1 else none }
    | .owned q => .owned { q with rows := retainBy q.rows keep }

/-- `rows_per_batch` with no cap on the rows. -/
def rowsPerBatch (maxBindParams bindsPerRow : Nat) : Nat := max (maxBindParams / max bindsPerRow 1) 1

/-- The query and its rows apart; an owned query is left without them. -/
def splitValues : Cow (BulkInsertQuery v) → Cow (BulkInsertQuery v) × Cow (List (List v.Value))
  | .borrowed q => (.borrowed q, .borrowed q.rows)
  | .owned q => (.owned { q with rows := [] }, .owned q.rows)

end Code

/-- Takes from the iterator until a chunk is empty. -/
def takeChunks {α : Type} (size : Nat) (rows : List α) : List (List α) :=
  if _h : (rows.take size).isEmpty then [] else rows.take size :: takeChunks size (rows.drop size)
termination_by rows.length
decreasing_by
  rw [List.isEmpty_iff, List.take_eq_nil_iff, not_or] at _h
  have hpos := List.length_pos_iff.mpr _h.2
  have hsize := Nat.pos_of_ne_zero _h.1
  simp only [List.length_drop]
  omega

def rowChunks {α : Type} (size : Nat) : Cow (List α) → List (List α)
  | .borrowed rows => sliceChunks size rows
  | .owned rows => takeChunks size rows

section Batches
variable {v : SqlValues}

/-- The queries that become the statements. -/
def batches (maxBindParams : Nat) (query : Cow (BulkInsertQuery v)) : List (Cow (BulkInsertQuery v)) :=
  if query.get.rows.isEmpty then []
  else
    let query := lastPerConflictKey query
    let maxRows := rowsPerBatch maxBindParams query.get.columns.length
    if query.get.rows.length ≤ maxRows then [query]
    else
      let (head, rows) := splitValues query
      (rowChunks maxRows rows).map fun rows => .owned { head.get.header with rows := rows }

/-- What the dialect brings: its cap, the check of the rows, and the writer, which takes the header of a
query and its rows. -/
structure Dialect (v : SqlValues) (Error Statement : Type) where
  maxBindParams : Nat
  validate : BulkInsertQuery v → Except Error Unit
  write : BulkInsertQuery v → List (List v.Value) → Except Error Statement

variable {Error Statement : Type}

def Dialect.compileBulkInsertCow (d : Dialect v Error Statement) (query : Cow (BulkInsertQuery v)) :
    Except Error Statement :=
  let (head, rows) := splitValues query
  d.write head.get.header rows.get

def compileBulkInsertBatches (d : Dialect v Error Statement) (query : Cow (BulkInsertQuery v)) :
    Except Error (List Statement) := do
  d.validate query.get
  (batches d.maxBindParams query).mapM d.compileBulkInsertCow

variable {q : BulkInsertQuery v} {idx : List Nat} {r r' r'' : List v.Value} {rows : List (List v.Value)}

/-- Rows of one conflict key, as the code sees it. -/
def sameRendering (idx : List Nat) (r r' : List v.Value) : Bool :=
  keyed idx r && keyed idx r' && keyEq idx r r'

private theorem keyEq_symm (h : keyEq idx r r' = true) : keyEq idx r' r = true := by
  simp only [keyEq, List.all_eq_true, beq_iff_eq] at h ⊢
  exact fun k hk => (h k hk).symm

private theorem keyEq_trans (h : keyEq idx r r' = true) (h' : keyEq idx r' r'' = true) :
    keyEq idx r r'' = true := by
  simp only [keyEq, List.all_eq_true, beq_iff_eq] at h h' ⊢
  exact fun k hk => (h k hk).trans (h' k hk)

private theorem sameRendering_keyed (idx : List Nat) : Keyed (sameRendering (v := v) idx) where
  symm r r' h := by
    simp only [sameRendering, Bool.and_eq_true] at h ⊢
    exact ⟨⟨h.1.2, h.1.1⟩, keyEq_symm h.2⟩
  trans r r' r'' h h' := by
    simp only [sameRendering, Bool.and_eq_true] at h h' ⊢
    exact ⟨⟨h.1.1, h'.1.2⟩, keyEq_trans h.2 h'.2⟩

private theorem seen_keepFrom (hr : keyed idx r = true) :
    (keepFrom idx rows).2.any (keyEq idx r) = rows.any (sameRendering idx r) := by
  induction rows with
  | nil => rfl
  | cons x xs ih =>
    rw [keepFrom]
    dsimp only
    by_cases hx : keyed idx x = true
    · have hcons : (x :: xs).any (sameRendering idx r) =
          (keyEq idx r x || xs.any (sameRendering idx r)) := by
        simp [sameRendering, hr, hx]
      rw [if_pos hx, hcons, ← ih]
      split
      · rename_i hseen
        obtain ⟨y, hy, hxy⟩ := List.any_eq_true.mp hseen
        cases hrx : keyEq idx r x with
        | false => rfl
        | true =>
          rw [Bool.true_or]
          exact List.any_eq_true.mpr ⟨y, hy, keyEq_trans hrx hxy⟩
      · rfl
    · have hcons : (x :: xs).any (sameRendering idx r) = xs.any (sameRendering idx r) := by
        simp [sameRendering, hx]
      rw [if_neg hx, hcons, ih]

private theorem length_keepFrom : (keepFrom idx rows).1.length = rows.length := by
  induction rows with
  | nil => rfl
  | cons x xs ih =>
    rw [keepFrom]
    dsimp only
    split
    · split <;> simp [ih]
    · simp [ih]

private theorem retainBy_eq {α : Type} {xs : List α} {ks : List Bool} (h : ks.length = xs.length) :
    retainBy xs ks = (xs.zip ks).filterMap fun e => if e.2 then some e.1 else none := by
  induction xs generalizing ks with
  | nil => simp [retainBy]
  | cons x xs ih =>
    cases ks with
    | nil => simp at h
    | cons k ks =>
      have hlength : ks.length = xs.length := by simpa using h
      have hrest := ih hlength
      cases k <;> simp [retainBy, hrest]

private theorem retainBy_keepFrom : retainBy rows (keepFrom idx rows).1 = lasts (sameRendering idx) rows := by
  induction rows with
  | nil => rfl
  | cons x xs ih =>
    rw [keepFrom, lasts]
    dsimp only
    by_cases hx : keyed idx x = true
    · rw [if_pos hx, seen_keepFrom hx]
      split <;> simp [retainBy, ih]
    · have hnone : xs.any (sameRendering idx x) = false := by simp [sameRendering, hx]
      rw [if_neg hx, hnone]
      simp [retainBy, ih]

private theorem retainBy_all {α : Type} {xs : List α} {ks : List Bool} (h : ¬ ks.contains false) :
    retainBy xs ks = xs := by
  induction xs generalizing ks with
  | nil => rfl
  | cons x xs ih =>
    cases ks with
    | nil => simp [retainBy, ih]
    | cons k ks =>
      cases k with
      | false => simp at h
      | true =>
        rw [retainBy, if_pos rfl, ih (by simpa using h)]

/-- Rows of one key, as the code sees it in a query. -/
def BulkInsertQuery.sameRendering (q : BulkInsertQuery v) (target : List String)
    (r r' : List v.Value) : Bool :=
  (q.positions target).any fun idx => BulkUpsert.sameRendering idx r r'

private theorem lasts_none {α : Type} (xs : List α) : lasts (fun _ _ => false) xs = xs := by
  induction xs with
  | nil => rfl
  | cons x xs ih => simp [lasts, ih]

private theorem sameRendering_eq (q : BulkInsertQuery v) (target : List String) :
    q.sameRendering target = match q.positions target with
      | none => fun _ _ => false
      | some idx => BulkUpsert.sameRendering idx := by
  unfold BulkInsertQuery.sameRendering
  cases q.positions target with
  | none => rfl
  | some idx => rfl

private theorem get_lastPerConflictKey {target update : List String} (c : Cow (BulkInsertQuery v))
    (h : c.get.onConflict = some (.doUpdate target update)) :
    (lastPerConflictKey c).get =
      { c.get with rows := lasts (c.get.sameRendering target) c.get.rows } := by
  rw [sameRendering_eq]
  unfold lastPerConflictKey BulkInsertQuery.rowsToKeep
  rw [h]
  dsimp only
  cases hidx : c.get.positions target with
  | none => simp [lasts_none]
  | some idx =>
    dsimp only [Option.bind_eq_bind, Option.bind_some]
    rw [← retainBy_keepFrom]
    split
    · rename_i hnone
      have hall : ¬ (keepFrom idx c.get.rows).1.contains false := by
        intro hcontains
        rw [if_pos hcontains] at hnone
        cases hnone
      rw [retainBy_all hall]
    · rename_i keep hkeep
      obtain ⟨_, heq⟩ := Option.ite_none_right_eq_some.mp hkeep
      obtain rfl := Option.some.inj heq
      cases c with
      | borrowed q =>
        simp only [Cow.get, BulkInsertQuery.header, retainBy_eq length_keepFrom]
      | owned q => rfl

private theorem takeChunks_eq {α : Type} (size : Nat) (rows : List α) :
    takeChunks size rows = sliceChunks size rows := by
  induction rows using sliceChunks.induct size with
  | case1 => rw [takeChunks, sliceChunks]; simp
  | case2 x xs hsize => rw [takeChunks, sliceChunks]; simp [hsize]
  | case3 x xs hsize ih =>
    have hnone : ¬ ((x :: xs).take size).isEmpty = true := by simp [List.take_eq_nil_iff, hsize]
    rw [takeChunks, sliceChunks, dif_neg hnone, if_neg hsize, ih]

private theorem rowsPerBatch_pos (maxBindParams bindsPerRow : Nat) :
    0 < rowsPerBatch maxBindParams bindsPerRow := by
  unfold rowsPerBatch
  omega

variable {target update : List String}

private theorem get_batches (maxBindParams : Nat) (c : Cow (BulkInsertQuery v))
    (h : c.get.onConflict = some (.doUpdate target update)) :
    (batches maxBindParams c).map Cow.get =
      if c.get.rows.isEmpty then []
      else if (lasts (c.get.sameRendering target) c.get.rows).length ≤
          rowsPerBatch maxBindParams c.get.columns.length then
        [{ c.get with rows := lasts (c.get.sameRendering target) c.get.rows }]
      else (sliceChunks (rowsPerBatch maxBindParams c.get.columns.length)
          (lasts (c.get.sameRendering target) c.get.rows)).map fun rows =>
        { c.get with rows := rows } := by
  have hkept := get_lastPerConflictKey c h
  unfold batches
  by_cases hempty : c.get.rows.isEmpty = true
  · rw [if_pos hempty, if_pos hempty]
    rfl
  · rw [if_neg hempty, if_neg hempty]
    dsimp only
    rw [hkept]
    dsimp only
    by_cases hone : (lasts (c.get.sameRendering target) c.get.rows).length ≤
        rowsPerBatch maxBindParams c.get.columns.length
    · rw [if_pos hone, if_pos hone, List.map_singleton, hkept]
    · rw [if_neg hone, if_neg hone]
      cases hlast : lastPerConflictKey c with
      | borrowed q =>
        rw [hlast, Cow.get_borrowed] at hkept
        subst hkept
        simp [splitValues, rowChunks, BulkInsertQuery.header, Function.comp_def]
      | owned q =>
        rw [hlast, Cow.get_owned] at hkept
        subst hkept
        simp [splitValues, rowChunks, takeChunks_eq, BulkInsertQuery.header, Function.comp_def]

private theorem batches_owned (maxBindParams : Nat) (h : q.onConflict = some (.doUpdate target update)) :
    (batches maxBindParams (.owned q)).map Cow.get =
      (batches maxBindParams (.borrowed q)).map Cow.get := by
  rw [get_batches maxBindParams (.owned q) h, get_batches maxBindParams (.borrowed q) h]
  rfl

/-- The rows of each statement. -/
def statements (maxBindParams : Nat) (q : BulkInsertQuery v) : List (List (List v.Value)) :=
  (batches maxBindParams (.borrowed q)).map fun b => b.get.rows

private theorem statements_eq (maxBindParams : Nat) (h : q.onConflict = some (.doUpdate target update)) :
    statements maxBindParams q =
      if q.rows.isEmpty then []
      else if (lasts (q.sameRendering target) q.rows).length ≤
          rowsPerBatch maxBindParams q.columns.length then [lasts (q.sameRendering target) q.rows]
      else sliceChunks (rowsPerBatch maxBindParams q.columns.length)
        (lasts (q.sameRendering target) q.rows) := by
  have hget := congrArg (List.map BulkInsertQuery.rows)
    (get_batches maxBindParams (.borrowed q) h)
  rw [List.map_map] at hget
  refine hget.trans ?_
  rw [Cow.get_borrowed]
  by_cases hempty : q.rows.isEmpty = true
  · rw [if_pos hempty, if_pos hempty]
    rfl
  · rw [if_neg hempty, if_neg hempty]
    by_cases hone : (lasts (q.sameRendering target) q.rows).length ≤
        rowsPerBatch maxBindParams q.columns.length
    · rw [if_pos hone, if_pos hone]
      rfl
    · rw [if_neg hone, if_neg hone]
      simp [Function.comp_def]

private theorem flatten_statements (maxBindParams : Nat) (h : q.onConflict = some (.doUpdate target update)) :
    (statements maxBindParams q).flatten = lasts (q.sameRendering target) q.rows := by
  rw [statements_eq maxBindParams h]
  by_cases hempty : q.rows.isEmpty = true
  · rw [if_pos hempty, List.isEmpty_iff.mp hempty]
    rfl
  · rw [if_neg hempty]
    split
    · simp
    · exact flatten_sliceChunks (rowsPerBatch_pos _ _) _

private theorem sublist_of_mem_statements {maxBindParams : Nat} {rows : List (List v.Value)}
    (h : q.onConflict = some (.doUpdate target update)) (hrows : rows ∈ statements maxBindParams q) :
    rows.Sublist (lasts (q.sameRendering target) q.rows) := by
  rw [statements_eq maxBindParams h] at hrows
  by_cases hempty : q.rows.isEmpty = true
  · rw [if_pos hempty] at hrows
    cases hrows
  · rw [if_neg hempty] at hrows
    split at hrows
    · obtain rfl := List.mem_singleton.mp hrows
      exact List.Sublist.refl _
    · exact sublist_of_mem_sliceChunks hrows

private theorem mem_statements_of_room (h : q.onConflict = some (.doUpdate target update))
    (hrows : q.rows ≠ []) :
    lasts (q.sameRendering target) q.rows ∈
      statements (q.rows.length * max q.columns.length 1) q := by
  have hroom : (lasts (q.sameRendering target) q.rows).length ≤
      rowsPerBatch (q.rows.length * max q.columns.length 1) q.columns.length := by
    have hle := (lasts_sublist (q.sameRendering target) q.rows).length_le
    have hpos : 0 < max q.columns.length 1 := by omega
    rw [rowsPerBatch, Nat.mul_div_cancel _ hpos]
    omega
  have hempty : ¬ q.rows.isEmpty = true := by simpa using hrows
  rw [statements_eq _ h, if_neg hempty, if_pos hroom]
  exact List.mem_singleton_self _

end Batches

/-- How the columns of the database store and compare values. -/
structure Columns (v : SqlValues) where
  Cell : Type
  /-- What a column stores of a value; none is NULL. -/
  cell : String → v.Value → Option Cell
  /-- What every row gets in a column that the statement leaves out; none where it is NULL or a value
  of the row's own. -/
  fill : String → Option Cell
  same : String → Cell → Cell → Bool
  refl : ∀ t c, same t c c = true
  symm : ∀ t c e, same t c e = true → same t e c = true
  trans : ∀ t c e f, same t c e = true → same t e f = true → same t c f = true

/-- Values that render alike are stored alike, and `Null` is stored as NULL. -/
structure Columns.Renders {v : SqlValues} (d : Columns v) : Prop where
  debug : ∀ t x y, v.debug x = v.debug y → d.cell t x = d.cell t y
  null : ∀ t x, v.isNull x = true → d.cell t x = none

section Database
variable {v : SqlValues} (d : Columns v) (q : BulkInsertQuery v) (target : List String)

/-- What the row holds in a column. -/
def cellOf (t : String) (row : List v.Value) : Option d.Cell :=
  match q.columns.idxOf? t with
  | some k => (row[k]?).bind (d.cell t)
  | none => d.fill t

/-- Rows whose target keys are not NULL and equal in the database. -/
def sameKey (row row' : List v.Value) : Bool :=
  target.all fun t => (cellOf d q t row).any fun c => (cellOf d q t row').any fun c' => d.same t c c'

/-- The table after a statement, none where it fails. A database that `refuses` takes no two rows of one
key in a statement; `upsert` is what one row does. -/
def runStatement {Table : Type} (refuses : Bool) (upsert : List v.Value → Table → Option Table)
    (rows : List (List v.Value)) (table : Table) : Option Table :=
  if refuses = true ∧ ¬ rows.Pairwise (fun r r' => sameKey d q target r r' = false) then none
  else rows.foldlM (fun table row => upsert row table) table

def runStatements {Table : Type} (refuses : Bool) (upsert : List v.Value → Table → Option Table)
    (statements : List (List (List v.Value))) (table : Table) : Option Table :=
  statements.foldlM (fun table rows => runStatement d q target refuses upsert rows table) table

/-- What batching owes an upsert, under every cap of at least one row. -/
structure Batched : Prop where
  apart : ∀ cap, q.columns.length ≤ cap → ∀ rows ∈ statements cap q,
    rows.Pairwise fun r r' => sameKey d q target r r' = false
  /-- The last row of every key and the rows with a NULL key, once and in order. -/
  sent : ∀ cap, q.columns.length ≤ cap →
    (statements cap q).flatten = lasts (sameKey d q target) q.rows
  owned : ∀ cap, q.columns.length ≤ cap →
    (batches cap (.owned q)).map Cow.get = (batches cap (.borrowed q)).map Cow.get
  table : ∀ cap cap', q.columns.length ≤ cap → q.columns.length ≤ cap' →
    ∀ (Table : Type) (refuses : Bool) (upsert : List v.Value → Table → Option Table) (table : Table),
      runStatements d q target refuses upsert (statements cap q) table =
        runStatements d q target refuses upsert (statements cap' q) table

variable {d q target} {r r' r'' : List v.Value}

private theorem sameKey_iff : sameKey d q target r r' = true ↔
    ∀ t ∈ target, ∃ c c', cellOf d q t r = some c ∧ cellOf d q t r' = some c' ∧
      d.same t c c' = true := by
  simp [sameKey, Option.any_eq_true]

private theorem sameKey_keyed : Keyed (sameKey d q target) where
  symm r r' h := by
    rw [sameKey_iff] at h ⊢
    intro t ht
    obtain ⟨c, c', hc, hc', hsame⟩ := h t ht
    exact ⟨c', c, hc', hc, d.symm t c c' hsame⟩
  trans r r' r'' h h' := by
    rw [sameKey_iff] at h h' ⊢
    intro t ht
    obtain ⟨c, e, hc, he, hce⟩ := h t ht
    obtain ⟨e', f, he', hf, hef⟩ := h' t ht
    rw [he, Option.some.injEq] at he'
    subst he'
    exact ⟨c, f, hc, hf, d.trans t c e f hce hef⟩

private theorem query_sameRendering_keyed : Keyed (q.sameRendering target) := by
  rw [sameRendering_eq]
  cases q.positions target with
  | none => exact ⟨by simp, by simp⟩
  | some idx => exact sameRendering_keyed idx

private theorem positions_of_mem {columns target : List String} {idx : List Nat}
    (h : (target.mapM fun t => columns.idxOf? t) = some idx) {t : String} (ht : t ∈ target) :
    ∃ k ∈ idx, columns.idxOf? t = some k := by
  induction target generalizing idx with
  | nil => cases ht
  | cons u us ih =>
    rw [List.mapM_cons] at h
    obtain ⟨k, hk, hrest⟩ := Option.bind_eq_some_iff.mp h
    obtain ⟨ks, hks, heq⟩ := Option.bind_eq_some_iff.mp hrest
    obtain rfl := Option.some.inj heq
    rcases List.mem_cons.mp ht with rfl | hmem
    · exact ⟨k, List.mem_cons_self, hk⟩
    · obtain ⟨j, hj, hcolumn⟩ := ih hks hmem
      exact ⟨j, List.mem_cons_of_mem k hj, hcolumn⟩

private theorem cellOf_congr (hd : d.Renders) (h : q.sameRendering target r r' = true) {t : String}
    (ht : t ∈ target) : cellOf d q t r = cellOf d q t r' := by
  unfold BulkInsertQuery.sameRendering at h
  cases hidx : q.positions target with
  | none => simp [hidx] at h
  | some idx =>
    rw [hidx, Option.any_some] at h
    simp only [sameRendering, keyEq, Bool.and_eq_true, List.all_eq_true, beq_iff_eq] at h
    obtain ⟨k, hk, hcolumn⟩ := positions_of_mem hidx ht
    have hdebug := h.2 k hk
    unfold cellOf
    rw [hcolumn]
    dsimp only
    cases hr : r[k]? with
    | none =>
      rw [hr, Option.map_none, eq_comm, Option.map_eq_none_iff] at hdebug
      rw [hdebug]
    | some x =>
      rw [hr, Option.map_some, eq_comm, Option.map_eq_some_iff] at hdebug
      obtain ⟨y, hy, hxy⟩ := hdebug
      rw [hy]
      exact hd.debug t x y hxy.symm

private theorem sameKey_congr (hd : d.Renders) (h : q.sameRendering target r r' = true) (z : List v.Value) :
    sameKey d q target z r = sameKey d q target z r' := by
  rw [Bool.eq_iff_iff, sameKey_iff, sameKey_iff]
  constructor
  · intro hz t ht
    rw [← cellOf_congr hd h ht]
    exact hz t ht
  · intro hz t ht
    rw [cellOf_congr hd h ht]
    exact hz t ht

private theorem runStatements_eq {Table : Type} (refuses : Bool)
    (upsert : List v.Value → Table → Option Table) {statements : List (List (List v.Value))}
    (h : ∀ rows ∈ statements, rows.Pairwise fun r r' => sameKey d q target r r' = false)
    (table : Table) :
    runStatements d q target refuses upsert statements table =
      statements.flatten.foldlM (fun table row => upsert row table) table := by
  unfold runStatements
  induction statements generalizing table with
  | nil => rfl
  | cons rows rest ih =>
    have hrows : runStatement d q target refuses upsert rows table =
        rows.foldlM (fun table row => upsert row table) table := by
      unfold runStatement
      rw [if_neg]
      simp [h rows List.mem_cons_self]
    rw [List.foldlM_cons, List.flatten_cons, List.foldlM_append, hrows]
    apply bind_congr
    intro table'
    exact ih (fun rows' hrows' => h rows' (List.mem_cons_of_mem rows hrows')) table'

/-- Batching is right if and only if the rows that render alike are those with one key. -/
theorem batched_iff {update : List String} (hd : d.Renders)
    (hq : q.onConflict = some (.doUpdate target update)) :
    Batched d q target ↔
      q.rows.Pairwise fun r r' => q.sameRendering target r r' = sameKey d q target r r' := by
  have hkeyed : Keyed (sameKey d q target) := sameKey_keyed
  have hlasts := lasts_eq_iff (l := q.rows) query_sameRendering_keyed hkeyed
    fun x y h => sameKey_congr hd h
  constructor
  · intro h
    by_cases hrows : q.rows = []
    · rw [hrows]
      exact .nil
    · have hcap : q.columns.length ≤ q.rows.length * max q.columns.length 1 := by
        have hpos : 1 ≤ q.rows.length := List.length_pos_iff.mpr hrows
        calc q.columns.length ≤ max q.columns.length 1 := Nat.le_max_left _ _
          _ ≤ q.rows.length * max q.columns.length 1 := Nat.le_mul_of_pos_left _ hpos
      have hsent := h.sent _ hcap
      rw [flatten_statements _ hq] at hsent
      exact hlasts.mp ⟨hsent, h.apart _ hcap _ (mem_statements_of_room hq hrows)⟩
  · intro h
    obtain ⟨hsent, hapart⟩ := hlasts.mpr h
    have happly : ∀ cap, ∀ rows ∈ statements cap q,
        rows.Pairwise fun r r' => sameKey d q target r r' = false :=
      fun cap rows hrows => hapart.sublist (sublist_of_mem_statements hq hrows)
    refine ⟨fun cap _ => happly cap, fun cap _ => (flatten_statements cap hq).trans hsent,
      fun cap _ => batches_owned cap hq, ?_⟩
    intro cap cap' _ _ Table refuses upsert table
    rw [runStatements_eq refuses upsert (happly cap), runStatements_eq refuses upsert (happly cap'),
      flatten_statements cap hq, flatten_statements cap' hq]

end Database

/-- Some decimals, one of them with two spellings. -/
private inductive Price where
  | null
  | one
  | oneAgain
  | two
deriving DecidableEq

private def Price.spelled : Price → String
  | .null => "Null"
  | .one => "Decimal(1.0)"
  | .oneAgain => "Decimal(1.00)"
  | .two => "Decimal(2.0)"

private def Price.amount : Price → Option Nat
  | .null => none
  | .one | .oneAgain => some 1
  | .two => some 2

private def prices : SqlValues := ⟨Price, fun x => x = .null, Price.spelled⟩

private def priceColumns : Columns prices where
  Cell := Nat
  cell _ := Price.amount
  fill _ := none
  same _ c e := c == e
  refl _ _ := beq_self_eq_true _
  symm _ c e h := by simpa using (beq_iff_eq.mp h).symm
  trans _ c e f h h' := by simpa using (beq_iff_eq.mp h).trans (beq_iff_eq.mp h')

private theorem prices_render : priceColumns.Renders where
  debug _ x y h := by
    have hspelled : x.spelled = y.spelled := h
    change x.amount = y.amount
    cases x <;> cases y <;> simp [Price.spelled, Price.amount] at hspelled ⊢
  null _ x h := by
    have hnull : x = .null := by simpa [prices] using h
    rw [hnull]
    rfl

/-- An upsert of rows that are a price each. -/
private def priced (rows : List Price) : BulkInsertQuery prices where
  table := "price"
  columns := ["amount"]
  rows := rows.map fun x => [x]
  returning := []
  onConflict := some (.doUpdate ["amount"] ["amount"])
  generated := []

theorem batched_prices : Batched priceColumns (priced [.one, .null, .two, .one, .null]) ["amount"] :=
  (batched_iff prices_render rfl).mpr (by decide)

/-- 1.0 and 1.00 go out in one statement. -/
theorem batched_spellings :
    (∃ rows ∈ statements 65535 (priced [.one, .oneAgain]),
        ¬ rows.Pairwise fun r r' => sameKey priceColumns (priced [.one, .oneAgain]) ["amount"] r r' =
          false) ∧
      ¬ Batched priceColumns (priced [.one, .oneAgain]) ["amount"] := by
  have hstatement : ∃ rows ∈ statements 65535 (priced [.one, .oneAgain]),
      ¬ rows.Pairwise fun r r' => sameKey priceColumns (priced [.one, .oneAgain]) ["amount"] r r' =
        false := by
    decide
  refine ⟨hstatement, ?_⟩
  intro h
  obtain ⟨rows, hrows, hnot⟩ := hstatement
  exact hnot (h.apart 65535 (by decide) rows hrows)

end Rustango.BulkUpsert
