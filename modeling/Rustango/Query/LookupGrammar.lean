import Rustango.Lib.Outcome
import Rustango.Query.QuerySet
import Rustango.Query.TextLookup

/-!
# The lookup grammar

`field`, `field__lookup`, `field__year` or `field__year__gte`: a key is split at its first `__` and
what follows is looked up in two tables. Anything else is left for the resolver, which walks it as a
relation path.
-/

namespace Rustango.Query

open Rustango.Outcome

variable {L : Lang}

inductive DateFn where
  | extractYear | extractMonth | extractDay | extractHour | extractMinute | extractSecond
  | extractQuarter | extractWeek | extractWeekDay | truncDate
deriving DecidableEq, Repr

/-- The shapes of a value that the grammar tells apart, the values it builds, and a call of a date
function. -/
structure Grammar (L : Lang) where
  shapeName : L.Value → String
  asString : L.Value → Option String
  asList : L.Value → Option (List L.Value)
  asRangeLiteral : L.Value → Option String
  isJson : L.Value → Bool
  isBool : L.Value → Bool
  string : String → L.Value
  array : List L.Value → L.Value
  rangeLiteral : String → L.Value
  call : DateFn → Expr L → Expr L

/-- The text of `QueryError::InvalidLookupValue`. -/
def invalidLookupValue (field suffix expected actual : String) : QueryError :=
  .rejected ("lookup `__" ++ suffix ++ "` on field `" ++ field ++ "` requires " ++ expected ++
    "; got a value of shape " ++ actual)

def dateTransforms : List (String × DateFn) :=
  [("year", .extractYear), ("month", .extractMonth), ("day", .extractDay), ("hour", .extractHour),
    ("minute", .extractMinute), ("second", .extractSecond), ("quarter", .extractQuarter),
    ("week", .extractWeek), ("week_day", .extractWeekDay), ("date", .truncDate)]

def dateTransformFn (token : String) : Option DateFn := dateTransforms.lookup token

def dateCompareOps : List (String × Op) :=
  [("exact", .eq), ("ne", .ne), ("gt", .gt), ("gte", .gte), ("lt", .lt), ("lte", .lte)]

def dateCompareOp (suffix : String) : Option Op := dateCompareOps.lookup suffix

/-- What a lookup asks of its value and makes of it. -/
inductive Lookup where
  | plain (op : Op)
  /-- The escaped text, between wildcards. -/
  | wrapped (before after : String) (op : Op)
  /-- Of a JSON value, containment; of a text, `%text%`. -/
  | contains
  | text (op : Op) (expected : String)
  | list (op : Op)
  | isNull
  | between (op : Op)
  | range (op : Op)
  | array (op : Op)
deriving DecidableEq, Repr

def lookups : List (String × Lookup) :=
  [("exact", .plain .eq), ("ne", .plain .ne), ("gt", .plain .gt), ("gte", .plain .gte),
    ("lt", .plain .lt), ("lte", .plain .lte),
    ("iexact", .wrapped "" "" .iLikeEscaped), ("contains", .contains),
    ("icontains", .wrapped "%" "%" .iLikeEscaped), ("startswith", .wrapped "" "%" .likeEscaped),
    ("istartswith", .wrapped "" "%" .iLikeEscaped), ("endswith", .wrapped "%" "" .likeEscaped),
    ("iendswith", .wrapped "%" "" .iLikeEscaped),
    ("like", .text .like "SqlValue::String(<LIKE pattern>)"),
    ("ilike", .text .iLike "SqlValue::String(<LIKE pattern>)"),
    ("not_like", .text .notLike "SqlValue::String(<LIKE pattern>)"),
    ("not_ilike", .text .notILike "SqlValue::String(<LIKE pattern>)"),
    ("in", .list .in_), ("not_in", .list .notIn), ("isnull", .isNull),
    ("between", .between .between), ("range", .between .between),
    ("not_between", .between .notBetween), ("not_range", .between .notBetween),
    ("regex", .text .regex "SqlValue::String(<regex pattern>)"),
    ("iregex", .text .iRegex "SqlValue::String(<regex pattern>)"),
    ("trigram_similar", .text .trigramSimilar "SqlValue::String(<trigram pattern>)"),
    ("trigram_word_similar", .text .trigramWordSimilar "SqlValue::String(<trigram pattern>)"),
    ("search", .text .search "SqlValue::String(<search query>)"),
    ("range_contains", .range .rangeContains), ("range_contained_by", .range .rangeContainedBy),
    ("range_overlap", .range .rangeOverlap), ("range_strictly_left", .range .rangeStrictlyLeft),
    ("range_strictly_right", .range .rangeStrictlyRight), ("range_adjacent", .range .rangeAdjacent),
    ("array_contains", .array .arrayContains), ("array_contained_by", .array .arrayContainedBy),
    ("array_overlap", .array .arrayOverlap)]

def lookupOf (suffix : String) : Option Lookup := lookups.lookup suffix

section Read
variable (g : Grammar L) (field suffix : String) (value : L.Value)

/-- The value as text between `before` and `after`; LIKE needs text. -/
def wrapLikeValue (before after : String) : Except QueryError L.Value :=
  match g.asString value with
  | some s => .ok (g.string (wrapLike s before after))
  | none => .error (invalidLookupValue field suffix "SqlValue::String(...)" (g.shapeName value))

/-- The operator of a lookup and the value it binds. -/
def Lookup.read : Lookup → Except QueryError (Op × L.Value)
  | .plain op => .ok (op, value)
  | .wrapped before after op => (wrapLikeValue g field suffix value before after).map (op, ·)
  | .contains =>
    if g.isJson value then .ok (.jsonContains, value)
    else (wrapLikeValue g field suffix value "%" "%").map (.likeEscaped, ·)
  | .text op expected =>
    if (g.asString value).isSome then .ok (op, value)
    else .error (invalidLookupValue field suffix expected (g.shapeName value))
  | .list op =>
    if (g.asList value).isSome then .ok (op, value)
    else .error (invalidLookupValue field suffix "SqlValue::List(...)" (g.shapeName value))
  | .isNull =>
    if g.isBool value then .ok (.isNull, value)
    else .error (invalidLookupValue field suffix "SqlValue::Bool(true|false)" (g.shapeName value))
  | .between op =>
    match g.asList value with
    | some items =>
      if items.length = 2 then .ok (op, value)
      else .error (invalidLookupValue field suffix "SqlValue::List with exactly 2 elements [lo, hi]"
        "SqlValue::List with wrong arity")
    | none => .error (invalidLookupValue field suffix "SqlValue::List([lo, hi])" (g.shapeName value))
  | .range op =>
    -- A plain string and a range literal write the same SQL.
    match g.asString value <|> g.asRangeLiteral value with
    | some literal => .ok (op, g.rangeLiteral literal)
    | none => .error (invalidLookupValue field suffix
        "SqlValue::String(<PG range literal>) — e.g. \"[1, 10)\"" (g.shapeName value))
  | .array op =>
    match g.asList value with
    | some elems => .ok (op, g.array elems)
    | none => .error (invalidLookupValue field suffix
        "SqlValue::List(<elements>) — typed homogeneous array" (g.shapeName value))

end Read

/-- A key split at its first `__`. It is read without a schema, so an FK hop looks like any field. -/
def Grammar.parseLookup (g : Grammar L) (key : String) (value : L.Value) :
    Except QueryError (ParsedLookup L) :=
  match key.splitOn "__" with
  | field :: token :: trailing =>
    let suffix := "__".intercalate (token :: trailing)
    match dateTransformFn token with
    | some transform =>
      match trailing with
      | [] => .ok (.dateTransform field (g.call transform) .eq value)
      | _ =>
        match dateCompareOp ("__".intercalate trailing) with
        | some op => .ok (.dateTransform field (g.call transform) op value)
        | none => .error (.unknownLookup field suffix)
    | none =>
      match lookupOf suffix with
      | some lookup => (lookup.read g field suffix value).map fun r => .raw field r.1 r.2
      | none => .ok (.relationSpan key value)
  | _ => .ok (.raw key .eq value)

/-- The registry whose keys are read by this grammar. -/
def Core.withGrammar (core : Core L) (g : Grammar L) : Core L :=
  { core with parseLookup := g.parseLookup }

section Projected
variable (core : Core L) (model : ModelSchema L)

/-- A projected `author__name`: its joins, the alias that holds the column, and the column. The last
segment names a column, as own ones do. -/
def resolveProjectedSpan (col : String) : Except QueryError (List (Join L) × String × String) :=
  let segs := col.splitOn "__"
  if 1 < segs.length then
    match resolveSpanChain core model col with
    | .error _ => .error (.unknownField model.name col)
    | .ok (h, terminal) =>
      match terminal with
      | [seg] => do
        let field ← okOr (h.current.fieldByColumn seg) (.unknownField h.current.name col)
        .ok (h.joins, h.prevAlias model, field.column)
      | _ => .error (.unknownField h.current.name col)
  else .error (.unknownField model.name col)

/-- One column of `values`: an own column, or `alias.column` with the joins it reads. -/
def projectColumn (col : String) : Except QueryError (String × List (Join L)) :=
  if (model.fieldByColumn col).isSome then .ok (col, [])
  else do
    let (joins, alias_, column) ← resolveProjectedSpan core model col
    let name ← internJoinAlias (alias_ ++ "." ++ column)
    .ok (name, joins)

end Projected

end Rustango.Query
