import Rustango.Lib.Base64
import Rustango.Lib.Utf8
import Rustango.Viewset.ListData

/-!
# The position of a cursor

`encode_cursor`, `decode_cursor`, `cursor_value_of` and `cursor_after` of `viewset/mod.rs`: a row's position as a
token, and the rows after it.
-/

namespace Rustango.Viewset.Lists

open Rustango.Base64 (Engine)
open Rustango.Ranked
open Rustango.Url (Text)

/-- Can this column be a cursor? -/
def cursorFieldSupported : FieldType → Bool
  | .i16 | .i32 | .i64 | .dateTime | .date | .uuid | .string => true
  | _ => false

/-- The two-element JSON array of a composite token. -/
def pairText (fmt : Formats) (value pk : Text) : Text :=
  '[' :: fmt.jsonString value ++ ',' :: fmt.jsonString pk ++ [']']

/-- What tokens take from other libraries: base64, and `serde_json` reading an array of strings. -/
structure TokenCrates (fmt : Formats) where
  parsers : Parsers fmt
  engine : Engine
  encode_nil : engine.encode [] = []
  strings : Text → Option (List Text)
  strings_pair : ∀ a b, strings (pairText fmt a b) = some [a, b]

section Token
variable {fmt : Formats} (crates : TokenCrates fmt)

def encodeCursor (value : Text) (tiebreak : Option Text) : Text :=
  crates.engine.encode <| Utf8.encode <| match tiebreak with
    | some pk => pairText fmt value pk
    | none => value

/-- One cursor component, parsed per the column's type. -/
def parseCursorScalar (s : Text) (ty : FieldType) : Option (SqlValue fmt) :=
  match ty with
  | .i16 | .i32 | .i64 => (parseInt 64 s).map .i64
  | .dateTime => (crates.parsers.dateTime s).map .dateTime
  | .date => (crates.parsers.date s).map .date
  | .uuid => (crates.parsers.uuid s).map .uuid
  | .string => some (.string s)
  | _ => none

def decodeCursor (token : Text) (ty pkTy : FieldType) : Option (SqlValue fmt × Option (SqlValue fmt)) :=
  (crates.engine.decode token).bind fun bytes => (Utf8.fromUtf8 bytes).bind fun s =>
    -- Composite form first: a bare value is not a two-element array of strings.
    match crates.strings s with
    | some [a, b] => (parseCursorScalar crates a ty).bind fun v => (parseCursorScalar crates b pkTy).map fun pk => (v, some pk)
    | _ => (parseCursorScalar crates s ty).map fun v => (v, none)

/-- The string form of a rendered row's cursor column. -/
def cursorValueOf (row : RowJson) (key : Text) : Option Text :=
  (row.get key).bind fun v => ((asI64 v).map showInt).or (asStr v)

/-- `col > v OR (col = v AND pk > pk_v)` (`<` when descending). -/
def cursorAfter {S : Type} (cursor : FieldSchema) (tiebreak : Option FieldSchema) (desc : Bool) (v : SqlValue fmt)
    (pkV : Option (SqlValue fmt)) : Cond fmt S :=
  let op : Op := if desc then .lt else .gt
  match tiebreak, pkV with
  | some pk, some pkV =>
    .or (.pred cursor.column op v) (.and (.pred cursor.column .eq v) (.pred pk.column op pkV))
  | _, _ => .pred cursor.column op v

/-- The order that `cursorAfter` compares by. -/
def cursorOrder (cursor : FieldSchema) (tiebreak : Option FieldSchema) (desc : Bool) : List OrderItem :=
  ⟨cursor.column, desc⟩ :: tiebreak.toList.map fun pk => ⟨pk.column, desc⟩

variable {crates}

theorem engine_encode_eq_nil (bytes : List UInt8) : crates.engine.encode bytes = [] ↔ bytes = [] := by
  constructor
  · intro h
    exact crates.engine.encode_injective (h.trans crates.encode_nil.symm)
  · intro h
    rw [h, crates.encode_nil]

theorem decodeCursor_composite {value pk : Text} {ty pkTy : FieldType} {v u : SqlValue fmt}
    (hv : parseCursorScalar crates value ty = some v) (hu : parseCursorScalar crates pk pkTy = some u) :
    decodeCursor crates (encodeCursor crates value (some pk)) ty pkTy = some (v, some u) := by
  have hutf8 := (Utf8.fromUtf8_eq_some _ (pairText fmt value pk)).2 rfl
  simp only [decodeCursor, encodeCursor, crates.engine.decode_encode, Option.bind_some, hutf8, crates.strings_pair, hv,
    hu, Option.map_some]

theorem decodeCursor_bare {value : Text} {ty pkTy : FieldType} {v : SqlValue fmt}
    (hv : parseCursorScalar crates value ty = some v) (hbare : ∀ a b, crates.strings value ≠ some [a, b]) :
    decodeCursor crates (encodeCursor crates value none) ty pkTy = some (v, none) := by
  have hutf8 := (Utf8.fromUtf8_eq_some _ value).2 rfl
  simp only [decodeCursor, encodeCursor, crates.engine.decode_encode, Option.bind_some, hutf8]
  rw [hv, Option.map_some]

end Token

section After
variable {fmt : Formats} {db : Database fmt}

/-- A value compares with every cell of a column as a row's own cell does. -/
def StandsFor (rows : List db.Row) (column : Text) (v : SqlValue fmt) (r : db.Row) : Prop :=
  ∀ r' ∈ rows, db.compare r' column v = some (db.order column r' r)

theorem holds_pred {rows : List db.Row} {column : Text} {v : SqlValue fmt} {r r' : db.Row}
    (h : StandsFor rows column v r) (hr' : r' ∈ rows) (op : Op) :
    db.holds r' (.pred column op v) = op.holds (db.order column r' r) := by
  rw [Database.holds, h r' hr', Option.any_some]

theorem direct_eq_lt_iff (horders : ∀ column, Std.TransCmp (db.order column)) (column : Text) (desc : Bool)
    (r r' : db.Row) :
    (if desc then fun a b => db.order column b a else db.order column) r r' = .lt ↔
      (if desc then Op.lt else Op.gt).holds (db.order column r' r) = true := by
  have horder := horders column
  have hswap : db.order column r r' = (db.order column r' r).swap := Std.OrientedCmp.eq_swap
  cases desc with
  | true => simp [Op.holds]
  | false =>
    simp only [Bool.false_eq_true, if_false, hswap, Op.holds]
    cases db.order column r' r <;> decide

theorem direct_eq_eq_iff (horders : ∀ column, Std.TransCmp (db.order column)) (column : Text) (desc : Bool)
    (r r' : db.Row) :
    (if desc then fun a b => db.order column b a else db.order column) r r' = .eq ↔ db.order column r' r = .eq := by
  have horder := horders column
  cases desc with
  | true => rfl
  | false =>
    change db.order column r r' = .eq ↔ _
    exact Std.OrientedCmp.eq_comm

/-- The rows that `cursorAfter` selects are those after the position in the order of the list. -/
theorem holds_cursorAfter (horders : ∀ column, Std.TransCmp (db.order column)) {rows : List db.Row}
    {cursor : FieldSchema} {tiebreak : Option FieldSchema} {v : SqlValue fmt} {pkV : Option (SqlValue fmt)}
    {r r' : db.Row} (hv : StandsFor rows cursor.column v r) (hpk : ∀ pk ∈ tiebreak, ∃ u, pkV = some u ∧
      StandsFor rows pk.column u r) (hr' : r' ∈ rows) (desc : Bool) :
    db.holds r' (cursorAfter cursor tiebreak desc v pkV) = true ↔
      db.orderOf (cursorOrder cursor tiebreak desc) r r' = .lt := by
  cases tiebreak with
  | none =>
    have hpred := holds_pred hv hr' (if desc then .lt else .gt)
    unfold cursorAfter
    simp only
    rw [hpred, ← direct_eq_lt_iff horders cursor.column desc r r']
    simp only [cursorOrder, Option.toList_none, List.map_nil, Database.orderOf, compareLex, Ordering.then_eq]
  | some pk =>
    obtain ⟨u, hu, hstands⟩ := hpk pk rfl
    subst hu
    simp only [cursorAfter, Database.holds, Bool.or_eq_true, Bool.and_eq_true]
    have hcursor := holds_pred hv hr' (if desc then .lt else .gt)
    have hsame := holds_pred hv hr' .eq
    have hnext := holds_pred hstands hr' (if desc then .lt else .gt)
    simp only [Database.holds] at hcursor hsame hnext
    rw [hcursor, hsame, hnext, ← direct_eq_lt_iff horders, ← direct_eq_lt_iff horders]
    simp only [cursorOrder, Option.toList_some, List.map_cons, List.map_nil, Database.orderOf, compareLex,
      Ordering.then_eq, Ordering.then_eq_lt, Op.holds, decide_eq_true_eq, ← direct_eq_eq_iff horders _ desc r r']

end After

end Rustango.Viewset.Lists
