import Rustango.Writer.Ir

/-!
# The buffer every SQL writer appends to

A writer reads what is open around it and appends tokens, each with the number of scopes open where
it is written. Two slots hold a column for the next SELECT body to take.
-/

namespace Rustango.Writer

open Rustango.Query (Dialect)

/-- The slots `total` and `child_count` of the buffer. -/
inductive Slot where
  | total | childCount
deriving DecidableEq, Repr

inductive Word (L : Lang) where
  | text (s : String)
  | ident (name : String)
  /-- An alias or label of a join, which is cut to the length an identifier may have. -/
  | label (name : String)
  | param (value : L.Value)

inductive Tok (L : Lang) where
  | word (w : Word L)
  /-- The name of a slot's column: `__rustango_total` or `__annotated_count`. -/
  | hidden (slot : Slot)

inductive SqlError where
  | joinKindNotSupported (kind : String) (dialect : Dialect)
  | lateralJoinNotSupported (dialect : Dialect)
  | emptyJoinOnCondition
  | emptyOrBranch
  | emptyXorBranch
  | setOpOrderOutsideProjection (column : String)
  /-- What the writer of an expression says. -/
  | expression (message : String)
deriving DecidableEq, Repr

/-- One open query: its model and the name its `FROM` exposes. -/
structure Scope (L : Lang) where
  model : L.Model
  name : String

inductive Qualifier where
  | join (alias_ : String)
  | base (table : String)
deriving DecidableEq, Repr

structure DerivedJoins where
  depth : Nat
  table : String
  aliases : List String

/-- What is open where a writer writes; the innermost scope comes first. -/
structure Env (L : Lang) where
  dialect : Dialect
  scopes : List (Scope L)
  qualifier : Option (Nat × Qualifier)
  aggregateAllowed : Bool
  derivedJoins : Option DerivedJoins
  joinTypes : List (Nat × String × L.Model)
  /-- The model whose columns the predicate being written names. -/
  columnsOf : Option L.Model

structure ChildCount where
  childTable : String
  fkColumn : String
  parentPk : String

/-- Tokens with the number of scopes open where each was written. -/
abbrev Text (L : Lang) := List (Nat × Tok L)

structure Sql (L : Lang) where
  sql : Text L
  /-- The count the next SELECT body writes as its `__rustango_total` column. -/
  total : Option (Env L → Except SqlError (Text L))
  /-- The children the next SELECT body counts as `__annotated_count`. -/
  childCount : Option ChildCount
  /-- The next SELECT body labels its qualified model columns. -/
  labelModelCols : Bool

abbrev Act (L : Lang) := Env L → Sql L → Except SqlError (Sql L)

variable {L : Lang}

def table (model : L.Model) : String := (L.schema model).table

def Env.new (dialect : Dialect) : Env L where
  dialect := dialect
  scopes := []
  qualifier := none
  aggregateAllowed := false
  derivedJoins := none
  joinTypes := []
  columnsOf := none

def Sql.new : Sql L where
  sql := []
  total := none
  childCount := none
  labelModelCols := false

def Sql.append (b : Sql L) (text : Text L) : Sql L := { b with sql := b.sql ++ text }

namespace Env
variable (e : Env L)

def depth : Nat := e.scopes.length

def push (scope : Scope L) : Env L := { e with scopes := scope :: e.scopes }

def withQualifier (q : Option Qualifier) : Env L := { e with qualifier := q.map fun q => (e.depth, q) }

def withAggregates (allowed : Bool) : Env L := { e with aggregateAllowed := allowed }

def withColumnsOf (model : Option L.Model) : Env L := { e with columnsOf := model }

/-- `with_join_types`: the joins of a query and of the source it reads. -/
def withJoinTypes (joins : List (String × L.Model)) : Env L :=
  { e with joinTypes := e.joinTypes ++ joins.map fun j => (e.depth, j.1, j.2) }

end Env

def Scope.plain (model : L.Model) : Scope L := ⟨model, table model⟩

/-- An explicit reference to this scope's own table reads its `FROM` name. -/
def Scope.rename (s : Scope L) (alias_ : String) : String :=
  if alias_ = table s.model then s.name else alias_

namespace Env
variable (e : Env L)

def correlatedScope (model : L.Model) : Scope L :=
  match e.scopes with
  | outer :: _ => if outer.name = table model then ⟨model, "__rustango_self"⟩ else .plain model
  | [] => .plain model

def scopeOr (model : L.Model) : Scope L := e.scopes.head?.getD (.plain model)

/-- `Sql::qualifier` -/
def openQualifier : Option Qualifier :=
  (e.qualifier.filter fun q => q.1 = e.depth).map Prod.snd

def aliasRef (alias_ : String) : Word L :=
  if e.joinTypes.any fun j => j.2.1 = alias_ then .label alias_ else .ident alias_

def qualifyAlias (column : String) : Option (Word L) :=
  match e.openQualifier with
  | none => none
  | some (.join a) => some (e.aliasRef a)
  | some (.base t) =>
    if e.scopes.head?.all fun s => (L.schema s.model).fields.contains column then some (.ident t)
    else none

end Env

def qualified (table : Option (Word L)) (column : String) : List (Word L) :=
  match table with
  | some t => [t, .text ".", .ident column]
  | none => [.ident column]

/-- Words, written where `e` is open. -/
def Env.words (e : Env L) (ws : List (Word L)) : Text L := ws.map fun w => (e.depth, .word w)

namespace Act

def emit (words : Env L → List (Word L)) : Act L := fun e b => .ok (b.append (e.words (words e)))

def text (s : String) : Act L := emit fun _ => [.text s]

def fail (error : SqlError) : Act L := fun _ _ => .error error

def seq : List (Act L) → Act L
  | [] => fun _ b => .ok b
  | a :: as => fun e b => do
    let b ← a e b
    seq as e b

/-- Runs a writer under other scopes, qualifiers or permissions. -/
def under (f : Env L → Env L) (a : Act L) : Act L := fun e b => a (f e) b

def reading (f : Env L → Act L) : Act L := fun e b => f e e b

/-- The acts with `, ` between them. -/
def commas (acts : List (Act L)) : Act L := seq (acts.intersperse (text ", "))

/-- Each act after a `, `. -/
def further (acts : List (Act L)) : Act L := seq (acts.map fun a => seq [text ", ", a])

def cond (c : Bool) (a : Act L) : Act L := if c then a else seq []

/-- Takes the page total: `, (SELECT COUNT(*) …) AS __rustango_total`. -/
def takeTotal : Act L := fun e b =>
  match b.total with
  | none => .ok b
  | some count => do
    let text ← count e
    .ok ({ b with total := none }.append
      (e.words [.text ", ("] ++ text ++ e.words [.text ") AS "] ++ [(e.depth, Tok.hidden .total)]))

/-- `write_child_count` up to the name of its column -/
def childCountColumn (parent : String) (child : ChildCount) : List (Word L) :=
  [.text ", (SELECT COUNT(*) FROM ", .ident child.childTable, .text " AS ",
    .ident "__rustango_child", .text " WHERE ", .ident "__rustango_child", .text ".",
    .ident child.fkColumn, .text " = ", .ident parent, .text ".", .ident child.parentPk,
    .text ") AS "]

/-- Takes the child count of the rows `parent` names. -/
def takeChildCount (parent : String) : Act L := fun e b =>
  match b.childCount with
  | none => .ok b
  | some child => .ok ({ b with childCount := none }.append
      (e.words (childCountColumn parent child) ++ [(e.depth, Tok.hidden .childCount)]))

/-- Takes the flag that the next SELECT body labels its model columns. -/
def takeLabel (f : Bool → Act L) : Act L := fun e b =>
  f b.labelModelCols e { b with labelModelCols := false }

def setLabel : Act L := fun _ b => .ok { b with labelModelCols := true }

end Act

end Rustango.Writer
