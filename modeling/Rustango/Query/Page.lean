import Rustango.Query.Count

/-!
# Pages

A page and the number of rows it is cut from. The page's rows carry the total in a column; a page
past the last row has none to carry it and asks for a count of its own.
-/

namespace Rustango.Query

open Rustango.Firsts

variable {L : Lang}

namespace SelectQuery
variable (q : SelectQuery L)

def outerLimit : Option Int := if q.compound.isEmpty then q.limit else q.compoundLimit

def outerOffset : Option Int := if q.compound.isEmpty then q.offset else q.compoundOffset

/-- The query without its outermost limit and offset. -/
def unsliced : SelectQuery L :=
  if q.compound.isEmpty then { q with limit := none, offset := none }
  else { q with compoundLimit := none, compoundOffset := none }

/-- The query without any limit and offset but those of its branches. -/
def bare : SelectQuery L :=
  { q with limit := none, offset := none, compoundLimit := none, compoundOffset := none }

/-- The query, when it is no set operation, without its slice and lock. -/
def counted : SelectQuery L := { q with limit := none, offset := none, lockMode := none }

/-- The total is a counting subquery: `COUNT(*) OVER ()` runs before `DISTINCT`. Off Postgres
`DISTINCT ON` is a window rewrite whose outer level counts right. -/
def distinctTotal (d : Dialect) : Bool :=
  match q.distinct with
  | some .all => true
  | some (.on_ _) => d = .postgres
  | none => false

/-- The count for a page past the last row; there is none without an offset. -/
def totalStatement : Option (CountQuery L) :=
  if q.outerOffset.getD 0 ≤ 0 then none else some (CountQuery.fromSelect q.bare)

section Rows
variable (m : Meaning L) (db : Database L)

/-- Without its outermost limit and offset the query may have `n` rows. -/
def RowCount (n : Nat) : Prop := ∃ all, q.unsliced.Fetches m db all ∧ n = all.length

/-- `paginated_statement`: the rows of the page, each with the total. -/
def PageRows (d : Dialect) (rows : List (List (String × L.Value) × Nat)) : Prop :=
  ∃ all total, q.unsliced.Fetches m db all ∧
    rows = (slice q.outerLimit q.outerOffset all).map (fun row => (row, total)) ∧
      if q.compound.isEmpty && q.distinctTotal d then
        (CountQuery.fromSelect q.counted).Counts m db total
      else total = all.length

/-- What the count for an empty page says. An executor that cannot run a second statement has none. -/
def Counted (again : Bool) (rows : List (List (String × L.Value) × Nat)) (total : Option Nat) : Prop :=
  match q.totalStatement with
  | some count => if again && rows.isEmpty then ∃ n, count.Counts m db n ∧ total = some n
      else total = none
  | none => total = none

end Rows

end SelectQuery

/-- A slice of rows and the number of rows before it. -/
structure Page (L : Lang) where
  rows : List (List (String × L.Value))
  total : Nat

/-- An empty page has no row to carry the total. -/
def intoPage (rows : List (List (String × L.Value) × Nat)) (counted : Option Nat) : Page L where
  rows := rows.map (·.1)
  total := (rows.head?.map (·.2)).getD (counted.getD 0)

section FetchPaginated
variable (core : Core L) (m : Meaning L) (db : Database L) (d : Dialect) (again : Bool)

/-- `fetch_paginated` of the queryset may return the page. -/
def QuerySet.FetchPaginated (qs : QuerySet L) (page : Page L) : Prop :=
  ∃ q, qs.compile core = .ok q ∧ ∃ rows, q.PageRows m db d rows ∧
    ∃ counted, q.Counted m db again rows counted ∧ page = intoPage rows counted

/-- The total is a number of rows that the queryset may have, and none for `none()`. -/
def QuerySet.TotalRight (qs : QuerySet L) (q : SelectQuery L) (total : Nat) : Prop :=
  if qs.isNone then total = 0 else q.RowCount m db total

/-- The page starts past the first row, so that a count may follow it. -/
def SelectQuery.pastFirst (q : SelectQuery L) : Prop := 0 < q.outerOffset.getD 0

instance (q : SelectQuery L) : Decidable q.pastFirst :=
  inferInstanceAs (Decidable (0 < q.outerOffset.getD 0))

/-- When the total of a page is right. -/
structure TotalHolds (isNone : Bool) (q : SelectQuery L) : Prop where
  /-- A count after an empty page forgets that the queryset is `none()`. -/
  none_ : isNone = true → again = true → q.pastFirst → ∀ n, q.bare.RowCount m db n → n = 0
  /-- A page of no rows that starts at the first one counts nothing. -/
  limitZero : isNone = false → q.outerLimit = some 0 → ¬ (again = true ∧ q.pastFirst) →
    q.RowCount m db 0
  /-- Past the last row an executor of one statement counts nothing. -/
  once : isNone = false → again = false → q.pastFirst →
    (∃ n, n ≤ offsetCount q.outerOffset ∧ q.RowCount m db n) → q.RowCount m db 0
  /-- The count after an empty page leaves out the slice of the head as well. -/
  head : isNone = false → again = true → q.pastFirst → q.compound ≠ [] →
    ¬ (q.limit = none ∧ q.offset = none) →
    (q.outerLimit = some 0 ∨ ∃ n, n ≤ offsetCount q.outerOffset ∧ q.RowCount m db n) →
      ∀ n, q.bare.RowCount m db n → q.RowCount m db n
  /-- A fetch takes two rows that look alike for two when they differ in a helper column. -/
  distinct : isNone = false → q.compound = [] → q.distinct = some .all →
    ∀ a ∈ q.matching m db, ∀ b ∈ q.matching m db,
      sameOutput m (q.output m a) (q.output m b) = true → q.helpersTied m a b = true

end FetchPaginated

end Rustango.Query
