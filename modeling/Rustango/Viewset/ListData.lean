import Rustango.Lib.Numeral
import Rustango.Lib.Ranked
import Rustango.Viewset.FkTarget

/-!
# The rows of a list

What a `ViewSet` list asks of its table. The database is a parameter, in one state: what its comparisons say and
what it returns for a query.
-/

namespace Rustango.Viewset.Lists

open Rustango.Numeral (value)
open Rustango.Ranked
open Rustango.Url (Text)

inductive FieldType
  | i16 | i32 | i64 | f32 | f64 | bool | string | dateTime | date | time | uuid | json | decimal | binary
  | array | range | hStore | vector | geometry
deriving DecidableEq

structure FieldSchema where
  name : Text
  column : Text
  ty : FieldType
  primaryKey : Bool
deriving DecidableEq

structure ModelSchema where
  fields : List FieldSchema
deriving DecidableEq

structure OrderItem where
  column : Text
  desc : Bool
deriving DecidableEq

namespace ModelSchema
variable (model : ModelSchema)

def primaryKey : Option FieldSchema := model.fields.find? FieldSchema.primaryKey

def field (name : Text) : Option FieldSchema := model.fields.find? fun f => f.name = name

/-- `order` plus each primary-key column it lacks, ascending. -/
def withPkTiebreak (order : List OrderItem) : List OrderItem :=
  (model.fields.filter FieldSchema.primaryKey).foldl
    (fun order pk => if order.any fun o => o.column = pk.column then order else order ++ [⟨pk.column, false⟩]) order

end ModelSchema

inductive Op
  | eq
  | gt
  | lt
deriving DecidableEq

/-- A condition of a `WHERE`; the filters, the scopes and the search of a request are the database's to judge. -/
inductive Cond (fmt : Formats) (S : Type)
  | given (s : S)
  | pred (column : Text) (op : Op) (value : SqlValue fmt)
  | isIn (column : Text) (values : List (SqlValue fmt))
  | notIn (column : Text) (values : List (SqlValue fmt))
  | isNull (column : Text) (yes : Bool)
  | and (a b : Cond fmt S)
  | or (a b : Cond fmt S)

/-- A query of the list's own table. -/
structure SelectQuery (fmt : Formats) (S : Type) where
  where_ : List (Cond fmt S)
  orderBy : List OrderItem
  limit : Option Nat
  offset : Option Nat

/-- A database in one state: a comparison of a cell with a value is `none` when one of them is `NULL`, and `order`
is how `ORDER BY` places two rows. -/
structure Database (fmt : Formats) where
  Row : Type
  Given : Type
  rows : List Row
  within : Row → Given → Bool
  isNull : Row → Text → Bool
  compare : Row → Text → SqlValue fmt → Option Ordering
  order : Text → Row → Row → Ordering
  cell : Row → FieldSchema → JsonValue
  /-- The values that a condition binds, and how many one statement may. -/
  binds : Given → Nat
  maxBindParams : Nat
  select : SelectQuery fmt Given → Option (List Row)
  count : List (Cond fmt Given) → Option Nat

section Meaning
variable {fmt : Formats} (db : Database fmt)

def Op.holds : Op → Ordering → Bool
  | .eq, o => o = .eq
  | .gt, o => o = .gt
  | .lt, o => o = .lt

def Database.equals (r : db.Row) (column : Text) (v : SqlValue fmt) : Bool := db.compare r column v = some .eq

def Database.holds (r : db.Row) : Cond fmt db.Given → Bool
  | .given s => db.within r s
  | .pred column op v => (db.compare r column v).any op.holds
  | .isIn column vs => vs.any fun v => db.equals r column v
  | .notIn column vs => vs.all fun v => (db.compare r column v).any fun o => o ≠ .eq
  | .isNull column yes => db.isNull r column = yes
  | .and a b => Database.holds r a && Database.holds r b
  | .or a b => Database.holds r a || Database.holds r b

def Database.condBinds : Cond fmt db.Given → Nat
  | .given s => db.binds s
  | .pred _ _ _ => 1
  | .isIn _ vs | .notIn _ vs => vs.length
  | .isNull _ _ => 0
  | .and a b | .or a b => Database.condBinds a + Database.condBinds b

def Database.whereBinds (where_ : List (Cond fmt db.Given)) : Nat := (where_.map db.condBinds).sum

/-- The rows that meet the conditions. -/
def Database.matching (where_ : List (Cond fmt db.Given)) : List db.Row :=
  db.rows.filter fun r => where_.all fun c => db.holds r c

/-- How `ORDER BY` places two rows. -/
def Database.orderOf : List OrderItem → db.Row → db.Row → Ordering
  | [] => fun _ _ => .eq
  | o :: items => compareLex (if o.desc then fun a b => db.order o.column b a else db.order o.column) (Database.orderOf items)

def slice {α : Type*} (limit offset : Option Nat) (rows : List α) : List α :=
  let rest := rows.drop (offset.getD 0)
  (limit.map rest.take).getD rest

/-- What the database returns, its statement within the bind limit: a slice of the matching rows in the order asked
for, ties as it likes. -/
structure Database.Lawful (pk : FieldSchema) : Prop where
  selects : ∀ q, db.whereBinds q.where_ ≤ db.maxBindParams → ∃ rows : List db.Row, rows.Perm (db.matching q.where_) ∧
    (rows.Pairwise fun a b => (db.orderOf q.orderBy a b).isLE = true) ∧
    db.select q = some (slice q.limit q.offset rows)
  counts : ∀ where_, db.whereBinds where_ ≤ db.maxBindParams → db.count where_ = some (db.matching where_).length
  orders : ∀ column, Std.TransCmp (db.order column)
  /-- A primary key is unique, and never `NULL`. -/
  unique : Distinct (db.order pk.column) db.rows
  pkNotNull : ∀ r ∈ db.rows, db.isNull r pk.column = false
  compares : ∀ r column v, db.isNull r column = false → v.isNull = false → (db.compare r column v).isSome = true

def Database.json (fields : List FieldSchema) (r : db.Row) : RowJson := fields.map fun f => (f.name, db.cell r f)

end Meaning

/-- The parsers of other libraries. -/
structure Parsers (fmt : Formats) where
  uuid : Text → Option fmt.Uuid
  /-- `DateTime::parse_from_rfc3339`, in UTC. -/
  dateTime : Text → Option fmt.DateTime
  /-- `NaiveDate::parse_from_str` with `%Y-%m-%d`. -/
  date : Text → Option fmt.Date

/-- `str::parse` of a signed integer of `bits` bits. -/
def parseInt (bits : Nat) (s : Text) : Option Int :=
  let parse (digits : Text) (n : Int) : Option Int :=
    if digits ≠ [] ∧ digits.all Char.isDigit ∧ -2 ^ (bits - 1) ≤ n ∧ n < 2 ^ (bits - 1) then some n else none
  match s with
  | '-' :: digits => parse digits (-(value digits : Int))
  | '+' :: digits => parse digits (value digits : Int)
  | digits => parse digits (value digits : Int)

/-- `Value::as_i64` -/
def asI64 : JsonValue → Option Int
  | .number text => parseInt 64 text
  | _ => none

/-- `Value::as_str` -/
def asStr : JsonValue → Option Text
  | .string s => some s
  | _ => none

def readValueAsString (row : RowJson) (field : FieldSchema) : Option Text :=
  (row.get field.name).bind fun v =>
    match field.ty with
    | .i16 | .i32 | .i64 => (asI64 v).map showInt
    | .string | .uuid => asStr v
    | _ => none

section Keys
variable {fmt : Formats} (parsers : Parsers fmt)

def parsePkString (field : FieldSchema) (raw : Text) : Option (SqlValue fmt) :=
  match field.ty with
  | .i16 => (parseInt 16 raw).map .i16
  | .i32 => (parseInt 32 raw).map .i32
  | .i64 => (parseInt 64 raw).map .i64
  | .string => some (.string raw)
  | .uuid => (parsers.uuid raw).map .uuid
  | _ => none

/-- A JSON row's primary key as a bind value. -/
def rowPk (row : RowJson) (pk : FieldSchema) : Option (SqlValue fmt) :=
  (readValueAsString row pk).bind (parsePkString parsers pk)

variable {parsers}

theorem rowPk_not_null {row : RowJson} {pk : FieldSchema} {v : SqlValue fmt} (h : rowPk parsers row pk = some v) :
    v.isNull = false := by
  obtain ⟨raw, -, hparse⟩ := Option.bind_eq_some_iff.1 h
  unfold parsePkString at hparse
  split at hparse
  · obtain ⟨n, -, hn⟩ := Option.map_eq_some_iff.1 hparse
    rw [← hn]
    rfl
  · obtain ⟨n, -, hn⟩ := Option.map_eq_some_iff.1 hparse
    rw [← hn]
    rfl
  · obtain ⟨n, -, hn⟩ := Option.map_eq_some_iff.1 hparse
    rw [← hn]
    rfl
  · cases hparse
    rfl
  · obtain ⟨u, -, hu⟩ := Option.map_eq_some_iff.1 hparse
    rw [← hu]
    rfl
  · cases hparse

end Keys

section Lawful
variable {fmt : Formats} {db : Database fmt} {pk : FieldSchema}

@[simp] theorem mem_matching {where_ : List (Cond fmt db.Given)} {r : db.Row} :
    r ∈ db.matching where_ ↔ r ∈ db.rows ∧ ∀ c ∈ where_, db.holds r c = true := by
  simp [Database.matching]

theorem matching_append (a b : List (Cond fmt db.Given)) :
    db.matching (a ++ b) = (db.matching a).filter fun r => b.all fun c => db.holds r c := by
  simp only [Database.matching, List.filter_filter, List.all_append]
  congr 1
  funext r
  rw [Bool.and_comm]

theorem whereBinds_append (a b : List (Cond fmt db.Given)) :
    db.whereBinds (a ++ b) = db.whereBinds a + db.whereBinds b := by
  simp [Database.whereBinds]

theorem transCmp_orderOf (horders : ∀ column, Std.TransCmp (db.order column)) (items : List OrderItem) :
    Std.TransCmp (db.orderOf items) := by
  induction items with
  | nil => exact { eq_swap := fun {_ _} => rfl, isLE_trans := fun _ _ => rfl }
  | cons o items ih =>
    have hcolumn := horders o.column
    unfold Database.orderOf
    split <;> infer_instance

namespace Database.Lawful
variable (h : db.Lawful pk)
include h

theorem distinct_orderOf {items : List OrderItem} (hpk : ∃ o ∈ items, o.column = pk.column) :
    Distinct (db.orderOf items) db.rows := by
  obtain ⟨o, ho, hcolumn⟩ := hpk
  apply h.unique.imp
  intro a b hne heq
  apply hne
  induction items with
  | nil => cases ho
  | cons i items ih =>
    rw [Database.orderOf, compareLex, Ordering.then_eq_eq] at heq
    rcases List.mem_cons.1 ho with hi | hi
    · have hdirect := heq.1
      rw [← hi, hcolumn] at hdirect
      have horder := h.orders pk.column
      split at hdirect
      · exact Std.OrientedCmp.eq_comm.1 hdirect
      · exact hdirect
    · exact ih hi heq.2

theorem distinct_matching {items : List OrderItem} (hpk : ∃ o ∈ items, o.column = pk.column)
    (where_ : List (Cond fmt db.Given)) : Distinct (db.orderOf items) (db.matching where_) :=
  (h.distinct_orderOf hpk).sublist List.filter_sublist

theorem select_eq {q : SelectQuery fmt db.Given} (hpk : ∃ o ∈ q.orderBy, o.column = pk.column)
    (hbinds : db.whereBinds q.where_ ≤ db.maxBindParams) :
    db.select q = some (slice q.limit q.offset (ranked (db.orderOf q.orderBy) (db.matching q.where_))) := by
  have htrans := transCmp_orderOf h.orders q.orderBy
  obtain ⟨rows, hperm, hsorted, hselect⟩ := h.selects q hbinds
  rw [hselect, eq_ranked (h.distinct_matching hpk q.where_) hperm hsorted]

end Database.Lawful

theorem mem_withPkTiebreak {model : ModelSchema} (hpk : model.primaryKey = some pk) (order : List OrderItem) :
    ∃ o ∈ model.withPkTiebreak order, o.column = pk.column := by
  have hmem : pk ∈ model.fields.filter FieldSchema.primaryKey :=
    List.mem_filter.2 ⟨List.mem_of_find?_eq_some hpk, List.find?_some hpk⟩
  have hkeep : ∀ (pks : List FieldSchema) (order : List OrderItem), (∃ o ∈ order, o.column = pk.column) ∨ pk ∈ pks →
      ∃ o ∈ pks.foldl (fun order pk => if order.any fun o => o.column = pk.column then order
        else order ++ [⟨pk.column, false⟩]) order, o.column = pk.column := by
    intro pks
    induction pks with
    | nil => simp
    | cons first pks ih =>
      intro order hor
      apply ih
      simp only
      split
      · rename_i hany
        rcases hor with hor | hor
        · exact .inl hor
        · rcases List.mem_cons.1 hor with heq | hrest
          · subst heq
            simp only [List.any_eq_true, decide_eq_true_eq] at hany
            exact .inl hany
          · exact .inr hrest
      · rcases hor with hor | hor
        · obtain ⟨o, ho, hcolumn⟩ := hor
          exact .inl ⟨o, List.mem_append_left _ ho, hcolumn⟩
        · rcases List.mem_cons.1 hor with heq | hrest
          · subst heq
            exact .inl ⟨⟨pk.column, false⟩, by simp, rfl⟩
          · exact .inr hrest
  exact hkeep _ order (.inr hmem)

end Lawful

section Answering
variable {fmt : Formats} (db : Database fmt)

/-- The database that answers a query with the slice of its matching rows, sorted. -/
def Database.answering : Database fmt :=
  { db with
    select := fun q => if db.whereBinds q.where_ ≤ db.maxBindParams then
        some (slice q.limit q.offset (ranked (db.orderOf q.orderBy) (db.matching q.where_)))
      else none
    count := fun where_ => if db.whereBinds where_ ≤ db.maxBindParams then some (db.matching where_).length else none }

theorem holds_answering (r : db.Row) (c : Cond fmt db.Given) : Database.holds db.answering r c = db.holds r c := by
  induction c with
  | and a b iha ihb => simp only [Database.holds, iha, ihb]
  | or a b iha ihb => simp only [Database.holds, iha, ihb]
  | _ => rfl

theorem condBinds_answering (c : Cond fmt db.Given) : Database.condBinds db.answering c = db.condBinds c := by
  induction c with
  | and a b iha ihb => simp only [Database.condBinds, iha, ihb]
  | or a b iha ihb => simp only [Database.condBinds, iha, ihb]
  | _ => rfl

theorem matching_answering (where_ : List (Cond fmt db.Given)) :
    Database.matching db.answering where_ = db.matching where_ := by
  unfold Database.matching
  apply List.filter_congr
  intro r _
  congr 1
  funext c
  exact holds_answering db r c

theorem whereBinds_answering (where_ : List (Cond fmt db.Given)) :
    Database.whereBinds db.answering where_ = db.whereBinds where_ := by
  unfold Database.whereBinds
  congr 2
  funext c
  exact condBinds_answering db c

theorem orderOf_answering (items : List OrderItem) : Database.orderOf db.answering items = db.orderOf items := by
  induction items with
  | nil => rfl
  | cons o items ih =>
    rw [Database.orderOf, Database.orderOf, ih]
    rfl

variable {db} {pk : FieldSchema}

theorem answering_lawful (horders : ∀ column, Std.TransCmp (db.order column))
    (hunique : Distinct (db.order pk.column) db.rows) (hnull : ∀ r ∈ db.rows, db.isNull r pk.column = false)
    (hcompares : ∀ r column v, db.isNull r column = false → v.isNull = false → (db.compare r column v).isSome = true) :
    db.answering.Lawful pk where
  selects q hbinds := by
    have hfits : db.whereBinds q.where_ ≤ db.maxBindParams := (whereBinds_answering db q.where_).symm.trans_le hbinds
    have htrans := transCmp_orderOf horders q.orderBy
    refine ⟨ranked (db.orderOf q.orderBy) (db.matching q.where_), ?_, ?_, if_pos hfits⟩
    · exact (matching_answering db q.where_).symm ▸ ranked_perm _
    · exact (orderOf_answering db q.orderBy).symm ▸ @pairwise_ranked _ _ htrans (db.matching q.where_)
  counts where_ hbinds := by
    have hfits : db.whereBinds where_ ≤ db.maxBindParams := (whereBinds_answering db where_).symm.trans_le hbinds
    exact (if_pos hfits).trans (congrArg (fun rows => some rows.length) (matching_answering db where_).symm)
  orders := horders
  unique := hunique
  pkNotNull := hnull
  compares := hcompares

end Answering

end Rustango.Viewset.Lists
