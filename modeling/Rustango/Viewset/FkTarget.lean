import Mathlib
import Rustango.Lib.Firsts
import Rustango.Url.Codec

/-!
# Foreign keys that a writer may set

`first_hidden_in` of `viewset/fk_target.rs`: the targets of many writes are read at once, and a value whose text
is the key text of a row read is admitted. The database is a parameter.
-/

namespace Rustango.Viewset

open Rustango.Firsts
open Rustango.Url (Text)

/-- The types of other libraries, and how they print. -/
structure Formats where
  F32 : Type
  F64 : Type
  DateTime : Type
  Date : Type
  Time : Type
  Uuid : Type
  Decimal : Type
  f32 : F32 → Text
  f64 : F64 → Text
  dateTime : DateTime → Text
  date : Date → Text
  time : Time → Text
  uuid : Uuid → Text
  decimal : Decimal → Text
  /-- A string in quotes, escaped as JSON asks. -/
  jsonString : Text → Text

/-- `serde_json::Value`: a number and what is nested as their text. -/
inductive JsonValue
  | null
  | bool (b : Bool)
  | number (text : Text)
  | string (s : Text)
  | nested (text : Text)
deriving DecidableEq

inductive SqlValue (fmt : Formats)
  | null
  | i16 (v : Int)
  | i32 (v : Int)
  | i64 (v : Int)
  | f32 (v : fmt.F32)
  | f64 (v : fmt.F64)
  | bool (v : Bool)
  | string (v : Text)
  | dateTime (v : fmt.DateTime)
  | date (v : fmt.Date)
  | uuid (v : fmt.Uuid)
  | json (v : JsonValue)
  | decimal (v : fmt.Decimal)
  | binary (bytes : List UInt8)
  | time (v : fmt.Time)
  | list (items : List (SqlValue fmt))
  | array (items : List (SqlValue fmt))
  | rangeLiteral (s : Text)
  | hStore (pairs : List (Text × Option Text))
  | vector (items : List fmt.F32)
  | geometry (x y : fmt.F64) (srid : Nat)

section Display
variable {fmt : Formats}

def showInt (n : Int) : Text := (toString n).toList

def showBool (b : Bool) : Text := if b then "true".toList else "false".toList

def JsonValue.show (fmt : Formats) : JsonValue → Text
  | .null => "null".toList
  | .bool b => showBool b
  | .number text => text
  | .string s => fmt.jsonString s
  | .nested text => text

def commaSeparated (items : List Text) : Text := [',', ' '].intercalate items

mutual

def SqlValue.toDisplayString : SqlValue fmt → Text
  | .null => "NULL".toList
  | .i16 v | .i32 v | .i64 v => showInt v
  | .f32 v => fmt.f32 v
  | .f64 v => fmt.f64 v
  | .bool v => showBool v
  | .string v => v
  | .dateTime v => fmt.dateTime v
  | .date v => fmt.date v
  | .uuid v => fmt.uuid v
  | .json v => v.show fmt
  | .decimal v => fmt.decimal v
  | .binary bytes => "<binary ".toList ++ showInt bytes.length ++ " bytes>".toList
  | .time v => fmt.time v
  | .list items => '[' :: commaSeparated (displayAll items) ++ [']']
  | .array items => "array[".toList ++ commaSeparated (displayAll items) ++ [']']
  | .rangeLiteral s => "range".toList ++ s
  | .hStore pairs => "hstore\x7b".toList ++
      commaSeparated (pairs.map fun p => p.1 ++ "=>".toList ++ p.2.getD "NULL".toList) ++ "\x7d".toList
  | .vector items => "vector[".toList ++ commaSeparated (items.map fmt.f32) ++ [']']
  | .geometry x y srid =>
    "SRID=".toList ++ showInt srid ++ ";POINT(".toList ++ fmt.f64 x ++ ' ' :: fmt.f64 y ++ [')']

def displayAll : List (SqlValue fmt) → List Text
  | [] => []
  | item :: items => item.toDisplayString :: displayAll items

end

def SqlValue.isNull : SqlValue fmt → Bool
  | .null => true
  | _ => false

end Display

inductive Relation
  | fk (to_ on_ : Text)
  | o2o (to_ on_ : Text)
deriving DecidableEq

structure FieldSchema where
  name : Text
  column : Text
  relation : Option Relation
deriving DecidableEq

structure ModelSchema where
  table : Text
  fields : List FieldSchema
deriving DecidableEq

def ModelSchema.fieldByColumn (model : ModelSchema) (column : Text) : Option FieldSchema :=
  model.fields.find? fun f => f.column = column

/-- A condition of a `WHERE`; those of a scope are the database's to judge. -/
inductive Cond (fmt : Formats) (S : Type)
  | eq (column : Text) (value : SqlValue fmt)
  | isIn (column : Text) (values : List (SqlValue fmt))
  | scope (s : S)

structure SelectQuery (fmt : Formats) (S : Type) where
  model : ModelSchema
  where_ : List (Cond fmt S)
  limit : Option Nat

section Queries
variable {fmt : Formats} {S : Type}

def SelectQuery.byPk (model : ModelSchema) (pkColumn : Text) (pkValue : SqlValue fmt) : SelectQuery fmt S :=
  ⟨model, [.eq pkColumn pkValue], some 1⟩

def SelectQuery.byPkIn (model : ModelSchema) (pkColumn : Text) (pkValues : List (SqlValue fmt)) : SelectQuery fmt S :=
  ⟨model, [.isIn pkColumn pkValues], none⟩

/-- The conditions joined by `AND`. -/
def SelectQuery.narrow (q : SelectQuery fmt S) (extra : List (Cond fmt S)) : SelectQuery fmt S :=
  { q with where_ := q.where_ ++ extra }

end Queries

/-- A database in one state: its rows, its own equality, a cell as `row_to_json` reads it, and what it returns
for a query. -/
structure Database (fmt : Formats) where
  Row : Type
  Scope : Type
  rows : Text → List Row
  equals : Row → Text → SqlValue fmt → Bool
  within : Row → Scope → Bool
  cell : Row → FieldSchema → JsonValue
  fetch : SelectQuery fmt Scope → List Row

/-- A row as JSON, under the names of its fields. -/
abbrev RowJson := List (Text × JsonValue)

namespace RowJson

def get (row : RowJson) (key : Text) : Option JsonValue := (row.find? fun e => e.1 = key).map (·.2)

end RowJson

section Model
variable {fmt : Formats} (db : Database fmt)

def Database.holds (r : db.Row) : Cond fmt db.Scope → Bool
  | .eq column value => db.equals r column value
  | .isIn column values => values.any fun value => db.equals r column value
  | .scope s => db.within r s

/-- Without a limit a query returns the rows that meet its conditions. -/
def Database.Serves : Prop := ∀ q r, q.limit = none →
  (r ∈ db.fetch q ↔ r ∈ db.rows q.model.table ∧ ∀ c ∈ q.where_, db.holds r c = true)

def Database.json (fields : List FieldSchema) (r : db.Row) : RowJson := fields.map fun f => (f.name, db.cell r f)

def Database.readAll (q : SelectQuery fmt db.Scope) (fields : List FieldSchema) : List RowJson :=
  (db.fetch q).map (db.json fields)

def Database.readOne (q : SelectQuery fmt db.Scope) (fields : List FieldSchema) : Option RowJson :=
  (db.fetch q).head?.map (db.json fields)

/-- A foreign key whose target hides rows from this writer. -/
structure FkTarget where
  field : FieldSchema
  model : ModelSchema
  on_ : FieldSchema
  scope : List (Cond fmt db.Scope)
  gated : Bool

variable {db}

namespace FkTarget

/-- No target unless the field is a foreign key and its scope hides rows. -/
def of_ (models : List ModelSchema) (field : FieldSchema) (scope : ModelSchema → List (Cond fmt db.Scope) × Bool) :
    Option (FkTarget db) := do
  let (to_, on_) ← match field.relation with
    | some (.fk to_ on_) | some (.o2o to_ on_) => some (to_, on_)
    | none => none
  let model ← models.find? fun m => m.table = to_
  let on_ ← model.fieldByColumn on_
  if (scope model).2 || (scope model).1 ≠ [] then some ⟨field, model, on_, (scope model).1, (scope model).2⟩ else none

variable (target : FkTarget db)

/-- The whole row when gated. -/
def fields : List FieldSchema := if target.gated then target.model.fields else [target.on_]

def probe (value : SqlValue fmt) : SelectQuery fmt db.Scope :=
  (SelectQuery.byPk target.model target.on_.column value).narrow target.scope

end FkTarget

/-- One write: its foreign keys, each column once, and on update the pk of the row it writes. -/
structure FkWrite (fmt : Formats) where
  values : List (Text × SqlValue fmt)
  stored : Option (FieldSchema × SqlValue fmt)
  once : (values.map (·.1)).Nodup

/-- A read key as `to_display_string` spells it. -/
def keyText (row : RowJson) (field : FieldSchema) : Text :=
  match (row.get field.name).or (row.get field.column) with
  | some (.number n) => n
  | some (.string s) => s
  | _ => []

/-- The values a write links to the target. -/
def linked (target : FkTarget db) (w : FkWrite fmt) : List (SqlValue fmt) :=
  (w.values.filter fun cv => cv.1 = target.field.column && !cv.2.isNull).map (·.2)

/-- The values that the writes name, the first of each text. -/
def asked (writes : List (FkWrite fmt)) (target : FkTarget db) : List (SqlValue fmt) :=
  firsts (fun a b => a.toDisplayString = b.toDisplayString) (writes.flatMap (linked target))

variable (owner : ModelSchema) (ownerScope : List (Cond fmt db.Scope)) (admits : FkTarget db → RowJson → Bool)

def rowAdmitted (target : FkTarget db) (row : RowJson) : Bool := !target.gated || admits target row

/-- The keys that one `IN` read admits. -/
def admittedKeys (writes : List (FkWrite fmt)) (target : FkTarget db) : List Text :=
  if asked writes target = [] then []
  else
    let q := (SelectQuery.byPkIn target.model target.on_.column (asked writes target)).narrow target.scope
    ((db.readAll q target.fields).filter (rowAdmitted admits target)).map fun row => keyText row target.on_

/-- On update a value that the row already holds inside its scope is kept. -/
def keptStored (w : FkWrite fmt) (column : Text) (value : SqlValue fmt) : Bool :=
  match w.stored with
  | none => false
  | some (pkField, pk) =>
    (db.readOne ((SelectQuery.byPk owner pkField.column pk).narrow (ownerScope ++ [.eq column value])) [pkField]).isSome

/-- The exact read of the row that a value names. -/
def probeAdmits (target : FkTarget db) (value : SqlValue fmt) : Bool :=
  (db.readOne (target.probe value) target.fields).any (rowAdmitted admits target)

/-- The field of a link that is hidden; `keys` are admitted without an exact read. -/
def hiddenLink (seen : List (FkTarget db × List Text)) (w : FkWrite fmt) (cv : Text × SqlValue fmt) :
    Option FieldSchema :=
  if cv.2.isNull then none
  else match seen.find? fun t => t.1.field.column = cv.1 with
  | none => none
  | some (target, keys) =>
    if cv.2.toDisplayString ∈ keys then none
    else if keptStored owner ownerScope w cv.1 cv.2 then none
    else if probeAdmits admits target cv.2 then none
    else some target.field

def firstHiddenIn (targets : List (FkTarget db)) (writes : List (FkWrite fmt)) : Option (Nat × FieldSchema) :=
  let seen := targets.map fun target => (target, admittedKeys admits writes target)
  writes.zipIdx.findSome? fun w => w.1.values.findSome? fun cv =>
    (hiddenLink owner ownerScope admits seen w.1 cv).map fun field => (w.2, field)

/-- The field of a link that is hidden by the exact reads alone. -/
def exactlyHidden (targets : List (FkTarget db)) (w : FkWrite fmt) (cv : Text × SqlValue fmt) : Option FieldSchema :=
  if cv.2.isNull then none
  else match targets.find? fun t => t.field.column = cv.1 with
  | none => none
  | some target =>
    if keptStored owner ownerScope w cv.1 cv.2 || probeAdmits admits target cv.2 then none else some target.field

def firstHiddenOneByOne (targets : List (FkTarget db)) (writes : List (FkWrite fmt)) : Option (Nat × FieldSchema) :=
  writes.zipIdx.findSome? fun w => w.1.values.findSome? fun cv =>
    (exactlyHidden owner ownerScope admits targets w.1 cv).map fun field => (w.2, field)

/-- A foreign key of a write, and the write's place. -/
structure Link (fmt : Formats) where
  idx : Nat
  write : FkWrite fmt
  column : Text
  value : SqlValue fmt

/-- The links of the writes, in their order. -/
def links (writes : List (FkWrite fmt)) : List (Link fmt) :=
  writes.zipIdx.flatMap fun w => w.1.values.map fun cv => ⟨w.2, w.1, cv.1, cv.2⟩

/-- The place and the field of a link that the exact reads hide. -/
def Link.hidden (targets : List (FkTarget db)) (l : Link fmt) : Option (Nat × FieldSchema) :=
  (exactlyHidden owner ownerScope admits targets l.write (l.column, l.value)).map fun field => (l.idx, field)

/-- The value is spelled like the key of a row that its target does not hide and that a value asked for names. -/
def SpelledLikeAdmitted (targets : List (FkTarget db)) (writes : List (FkWrite fmt)) (l : Link fmt) : Prop :=
  ∃ target, targets.find? (fun t => t.field.column = l.column) = some target ∧
    ∃ r ∈ db.rows target.model.table, (∀ c ∈ target.scope, db.holds r c = true) ∧
      rowAdmitted admits target (db.json target.fields r) = true ∧
      (∃ v ∈ asked writes target, db.equals r target.on_.column v = true) ∧
      keyText (db.json target.fields r) target.on_ = l.value.toDisplayString

end Model

section Skip
variable {α β : Type*} {f : α → Option β} {s : α → Bool} {l : List α}

private theorem findSome?_nested {γ : Type*} (g : γ → List α) (f : α → Option β) (l : List γ) :
    (l.flatMap g).findSome? f = l.findSome? fun c => (g c).findSome? f := by
  induction l with
  | nil => rfl
  | cons c l ih =>
    rw [List.flatMap_cons, List.findSome?_append, ih, List.findSome?_cons]
    cases (g c).findSome? f <;> rfl

private theorem findSome?_skip_iff (hsame : ∀ x ∈ l, ∀ y ∈ l, (f x).isSome = true → f x = f y → s x = s y) :
    l.findSome? (fun x => if s x then none else f x) = l.findSome? f ↔
      ∀ x ∈ l.find? (fun x => (f x).isSome), s x = false := by
  induction l with
  | nil => simp
  | cons x l ih =>
    have hrest := ih fun y hy z hz => hsame y (List.mem_cons_of_mem x hy) z (List.mem_cons_of_mem x hz)
    cases hx : f x with
    | none => simpa [List.findSome?_cons, List.find?_cons, hx] using hrest
    | some b =>
      cases hs : s x with
      | false => simp [hx, hs]
      | true =>
        simp only [List.findSome?_cons, List.find?_cons, hx, hs, if_true, Option.isSome_some]
        constructor
        · intro heq
          obtain ⟨y, hy, hfound⟩ := List.exists_of_findSome?_eq_some heq
          split at hfound
          · cases hfound
          · rename_i hkept
            have hyx := hsame x List.mem_cons_self y (List.mem_cons_of_mem x hy) (by simp [hx]) (hx.trans hfound.symm)
            exact absurd (hyx.symm.trans hs) hkept
        · intro hnone
          have hfalse := hnone x rfl
          rw [hs] at hfalse
          cases hfalse

end Skip

section Same
variable {fmt : Formats} {db : Database fmt} {owner : ModelSchema} {ownerScope : List (Cond fmt db.Scope)}
  {admits : FkTarget db → RowJson → Bool} {targets : List (FkTarget db)} {writes : List (FkWrite fmt)}

private theorem mem_admittedKeys (hserves : db.Serves) {target : FkTarget db} {text : Text} :
    text ∈ admittedKeys admits writes target ↔ ∃ r ∈ db.rows target.model.table,
      (∀ c ∈ target.scope, db.holds r c = true) ∧ rowAdmitted admits target (db.json target.fields r) = true ∧
      (∃ v ∈ asked writes target, db.equals r target.on_.column v = true) ∧
      keyText (db.json target.fields r) target.on_ = text := by
  unfold admittedKeys
  split
  · rename_i hnone
    simp [hnone]
  · simp only [Database.readAll, List.mem_map, List.mem_filter]
    constructor
    · intro h
      obtain ⟨row, ⟨⟨r, hr, hrow⟩, hadmitted⟩, htext⟩ := h
      subst hrow
      obtain ⟨hmem, hall⟩ := (hserves _ r rfl).1 hr
      rw [SelectQuery.narrow, List.forall_mem_append] at hall
      have hnamed : ∃ v ∈ asked writes target, db.equals r target.on_.column v = true := by
        simpa [SelectQuery.byPkIn, Database.holds] using hall.1
      exact ⟨r, hmem, hall.2, hadmitted, hnamed, htext⟩
    · intro h
      obtain ⟨r, hmem, hscope, hadmitted, hnamed, htext⟩ := h
      refine ⟨_, ⟨⟨r, (hserves _ r rfl).2 ⟨hmem, ?_⟩, rfl⟩, hadmitted⟩, htext⟩
      rw [SelectQuery.narrow, List.forall_mem_append]
      exact ⟨by simpa [SelectQuery.byPkIn, Database.holds] using hnamed, hscope⟩

/-- The link is admitted without an exact read. -/
def passesUnread (admits : FkTarget db → RowJson → Bool) (targets : List (FkTarget db)) (writes : List (FkWrite fmt))
    (l : Link fmt) : Bool :=
  (targets.find? fun t => t.field.column = l.column).any fun target =>
    decide (l.value.toDisplayString ∈ admittedKeys admits writes target)

private theorem passesUnread_iff (hserves : db.Serves) (l : Link fmt) :
    passesUnread admits targets writes l = true ↔ SpelledLikeAdmitted admits targets writes l := by
  unfold passesUnread SpelledLikeAdmitted
  rw [Option.any_eq_true]
  simp only [decide_eq_true_eq, mem_admittedKeys hserves]

private theorem hiddenLink_eq (l : Link fmt) :
    (hiddenLink owner ownerScope admits (targets.map fun target => (target, admittedKeys admits writes target)) l.write
      (l.column, l.value)).map (fun field => (l.idx, field)) =
    if passesUnread admits targets writes l then none else l.hidden owner ownerScope admits targets := by
  unfold hiddenLink Link.hidden exactlyHidden passesUnread
  rw [List.find?_map]
  simp only [Function.comp_def]
  cases l.value.isNull with
  | true => simp
  | false =>
    cases targets.find? fun t => decide (t.field.column = l.column) with
    | none => simp
    | some target =>
      by_cases hkeys : l.value.toDisplayString ∈ admittedKeys admits writes target
      · simp [hkeys]
      · cases keptStored owner ownerScope l.write l.column l.value with
        | true => simp
        | false => cases hprobe : probeAdmits admits target l.value <;> simp [hkeys]

private theorem firstHiddenIn_eq : firstHiddenIn owner ownerScope admits targets writes =
    (links writes).findSome? fun l => if passesUnread admits targets writes l then none
      else l.hidden owner ownerScope admits targets := by
  unfold links
  rw [findSome?_nested]
  simp only [firstHiddenIn]
  congr 1
  funext w
  rw [List.findSome?_map]
  congr 1
  funext cv
  exact hiddenLink_eq ⟨w.2, w.1, cv.1, cv.2⟩

private theorem firstHiddenOneByOne_eq : firstHiddenOneByOne owner ownerScope admits targets writes =
    (links writes).findSome? fun l => l.hidden owner ownerScope admits targets := by
  unfold links
  rw [findSome?_nested]
  unfold firstHiddenOneByOne
  congr 1
  funext w
  rw [List.findSome?_map]
  rfl

private theorem value_of_links {l l' : Link fmt} (hl : l ∈ links writes) (hl' : l' ∈ links writes)
    (hidx : l.idx = l'.idx)
    (hcolumn : l.column = l'.column) : l.value = l'.value := by
  obtain ⟨w, hw, hmap⟩ := List.mem_flatMap.1 hl
  obtain ⟨cv, hcv, heq⟩ := List.mem_map.1 hmap
  obtain ⟨w', hw', hmap'⟩ := List.mem_flatMap.1 hl'
  obtain ⟨cv', hcv', heq'⟩ := List.mem_map.1 hmap'
  subst heq heq'
  have hwrite : w.1 = w'.1 := by
    have h := List.mem_zipIdx_iff_getElem?.1 hw
    have h' := List.mem_zipIdx_iff_getElem?.1 hw'
    simp only at hidx
    rw [hidx] at h
    exact Option.some.inj (h.symm.trans h')
  rw [← hwrite] at hcv'
  have hsame : cv = cv' := List.inj_on_of_nodup_map w.1.once hcv hcv' hcolumn
  rw [hsame]

private theorem column_of_hidden {l : Link fmt} {idx : Nat} {field : FieldSchema}
    (h : l.hidden owner ownerScope admits targets = some (idx, field)) : l.idx = idx ∧ field.column = l.column := by
  unfold Link.hidden exactlyHidden at h
  obtain ⟨field', hfield, heq⟩ := Option.map_eq_some_iff.1 h
  split at hfield
  · cases hfield
  · split at hfield
    · cases hfield
    · rename_i target hfind
      have hcolumn := List.find?_some hfind
      split at hfield
      · cases hfield
      · cases hfield
        cases heq
        exact ⟨rfl, by simpa using hcolumn⟩

/-- The check of all at once finds the first hidden link of the check one by one, just where that link is not
spelled like an admitted row's key. -/
theorem first_hidden_in_iff (hserves : db.Serves) (owner : ModelSchema) (ownerScope : List (Cond fmt db.Scope))
    (admits : FkTarget db → RowJson → Bool) (targets : List (FkTarget db)) (writes : List (FkWrite fmt)) :
    firstHiddenIn owner ownerScope admits targets writes = firstHiddenOneByOne owner ownerScope admits targets writes ↔
      ∀ l ∈ (links writes).find? fun l => (l.hidden owner ownerScope admits targets).isSome,
        ¬ SpelledLikeAdmitted admits targets writes l := by
  rw [firstHiddenIn_eq, firstHiddenOneByOne_eq, findSome?_skip_iff]
  · constructor
    · intro h l hl hspelled
      have hunread := (passesUnread_iff hserves l).2 hspelled
      rw [h l hl] at hunread
      cases hunread
    · intro h l hl
      rw [← Bool.not_eq_true, passesUnread_iff hserves]
      exact h l hl
  · intro l hl l' hl' hsome hsame
    obtain ⟨found, hfound⟩ := Option.isSome_iff_exists.1 hsome
    obtain ⟨hidx, hcolumn⟩ := column_of_hidden hfound
    obtain ⟨hidx', hcolumn'⟩ := column_of_hidden (hsame.symm.trans hfound)
    have hcolumns : l.column = l'.column := hcolumn.symm.trans hcolumn'
    have hvalues := value_of_links hl hl' (hidx.trans hidx'.symm) hcolumns
    unfold passesUnread
    rw [hcolumns, hvalues]

end Same

private def noFormats : Formats :=
  ⟨Unit, Unit, Unit, Unit, Unit, Unit, Unit, fun _ => [], fun _ => [], fun _ => [], fun _ => [], fun _ => [],
    fun _ => [], fun _ => [], fun s => '"' :: s ++ ['"']⟩

private def holdsTag (r : JsonValue × Bool) : Cond noFormats Unit → Bool
  | .eq _ (.json v) => v = r.1
  | .eq _ _ => false
  | .isIn _ values => values.any fun value => match value with
    | .json v => decide (v = r.1)
    | _ => false
  | .scope _ => r.2

private def tagRows : List (JsonValue × Bool) :=
  [(.string ['5'], true), (.string ['7'], true), (.number ['5'], false)]

private def fetchTags (q : SelectQuery noFormats Unit) : List (JsonValue × Bool) :=
  let rows := tagRows.filter fun r => q.where_.all (holdsTag r)
  (q.limit.map rows.take).getD rows

/-- A table whose JSON keys are the strings `5` and `7`, in scope, and the number `5`, out of scope. -/
private def tagDb : Database noFormats where
  Row := JsonValue × Bool
  Scope := Unit
  rows _ := tagRows
  equals r column value := holdsTag r (.eq column value)
  within r _ := r.2
  cell r _ := r.1
  fetch := fetchTags

private theorem holdsTag_eq (r : JsonValue × Bool) (c : Cond noFormats Unit) :
    holdsTag r c = tagDb.holds r c := by
  cases c with
  | eq column value => rfl
  | isIn column values =>
    have hvalue : (fun value : SqlValue noFormats => holdsTag r (.eq column value)) = fun value => match value with
        | .json v => decide (v = r.1)
        | _ => false := by
      funext value
      cases value <;> rfl
    exact congrArg values.any hvalue.symm
  | scope s => rfl

private theorem mem_fetchTags (q : SelectQuery noFormats Unit) (r : JsonValue × Bool)
    (hlimit : q.limit = none) :
    r ∈ fetchTags q ↔ r ∈ tagRows ∧ ∀ c ∈ q.where_, holdsTag r c = true := by
  simp only [fetchTags, hlimit, Option.map_none, Option.getD_none, List.mem_filter, List.all_eq_true]

private theorem tagDb_serves : tagDb.Serves := fun q r hlimit =>
  (mem_fetchTags q r hlimit).trans <| and_congr_right fun _ => forall₂_congr fun c _ =>
    (Eq.congr_left (holdsTag_eq r c))

private def tagKey : FieldSchema := ⟨"key".toList, "key".toList, none⟩

private def tagField : FieldSchema := ⟨"tag".toList, "tag".toList, some (.fk "tags".toList "key".toList)⟩

private def tagTarget : FkTarget tagDb := ⟨tagField, ⟨"tags".toList, [tagKey]⟩, tagKey, [.scope ()], false⟩

private def posts : ModelSchema := ⟨"posts".toList, [tagField]⟩

private def tagged (v : JsonValue) : FkWrite noFormats := ⟨[("tag".toList, .json v)], none, List.nodup_singleton _⟩

theorem string_admits_number :
    firstHiddenIn posts [] (fun _ _ => true) [tagTarget] [tagged (.string ['5']), tagged (.number ['5'])] = none ∧
      firstHiddenOneByOne posts [] (fun _ _ => true) [tagTarget] [tagged (.string ['5']), tagged (.number ['5'])] =
        some (1, tagField) ∧ tagDb.Serves := by
  refine ⟨by decide, by decide, tagDb_serves⟩

theorem known_first_hidden :
    firstHiddenIn posts [] (fun _ _ => true) [tagTarget] [tagged (.string ['7']), tagged (.number ['5'])] =
        some (1, tagField) ∧
      ¬ ∃ l ∈ (links [tagged (.string ['7']), tagged (.number ['5'])]).find? fun l =>
          (l.hidden posts [] (fun _ _ => true) [tagTarget]).isSome,
        SpelledLikeAdmitted (fun _ _ => true) [tagTarget] [tagged (.string ['7']), tagged (.number ['5'])] l := by
  refine ⟨by decide, ?_⟩
  have hiff := first_hidden_in_iff tagDb_serves posts [] (fun _ _ => true) [tagTarget]
    [tagged (.string ['7']), tagged (.number ['5'])]
  push Not
  exact hiff.1 (by decide)

end Rustango.Viewset
