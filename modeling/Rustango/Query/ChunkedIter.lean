import Mathlib
import Rustango.Query.PageTotal

/-!
# Reading in chunks

`ChunkedIter` of `sql/executor/iter.rs` and `QuerySet::iterator`: the query asked again for one chunk after
another, with a buffer that `next_chunk` and `next_row` share.
-/

namespace Rustango.Query

variable {L : Lang}

abbrev ResultRow (L : Lang) := List (String × L.Value)

def i64Max : Int := 2 ^ 63 - 1

/-- A sum that overflows panics. -/
def addI64 (a b : Int) : Option Int := if a + b ≤ i64Max then some (a + b) else none

def saturatingAddI64 (a b : Int) : Int := min (a + b) i64Max

/-- A set operation's window is on the merged result, not its head. -/
def SelectQuery.withWindow (q : SelectQuery L) (limit offset : Int) : SelectQuery L :=
  if q.compound.isEmpty then { q with limit := some limit, offset := some offset }
  else { q with compoundLimit := some limit, compoundOffset := some offset }

structure ChunkedIter (L : Lang) where
  query : SelectQuery L
  chunkSize : Int
  offset : Int
  end_ : Option Int
  exhausted : Bool
  buffer : List (ResultRow L)
  seen : Int

/-- The iterator over a compiled query. -/
def SelectQuery.chunks (q : SelectQuery L) (chunkSize : Int) : ChunkedIter L :=
  let offset := max (q.outerOffset.getD 0) 0
  { query := q
    chunkSize := chunkSize
    offset := offset
    end_ := q.outerLimit.map fun n => saturatingAddI64 offset (max n 0)
    exhausted := false
    buffer := []
    seen := 0 }

/-- A chunk size that is not positive panics. -/
def QuerySet.iterator (core : Core L) (qs : QuerySet L) (chunkSize : Int) (_hsize : 0 < chunkSize) :
    Except QueryError (ChunkedIter L) := do
  let query ← qs.compile core
  return query.chunks chunkSize

namespace ChunkedIter

def size (it : ChunkedIter L) : Int :=
  match it.end_ with
  | none => it.chunkSize
  | some stop => min it.chunkSize (stop - it.offset)

/-- The statement that the next chunk is fetched by. -/
def statement (it : ChunkedIter L) : Option (SelectQuery L) :=
  if it.exhausted then none
  else if it.size ≤ 0 then none
  else some (it.query.withWindow it.size it.offset)

variable (it : ChunkedIter L) (select : SelectQuery L → List (ResultRow L))

/-- `none` where a sum overflows. -/
def fetchNextChunk : Option (ChunkedIter L × Option (List (ResultRow L))) :=
  match it.statement with
  | none => some ({ it with exhausted := true }, none)
  | some q =>
    let rows := select q
    if rows.isEmpty then some ({ it with exhausted := true }, none)
    else (addI64 it.offset rows.length).map fun offset =>
      ({ it with exhausted := it.exhausted || decide (rows.length < it.size), offset := offset }, some rows)

def nextChunk : Option (ChunkedIter L × Option (List (ResultRow L))) :=
  if it.buffer.isEmpty then
    (it.fetchNextChunk select).bind fun
      | (it, some rows) => (addI64 it.seen rows.length).map fun seen => ({ it with seen := seen }, some rows)
      | (it, none) => some (it, none)
  else (addI64 it.seen it.buffer.length).map fun seen => ({ it with buffer := [], seen := seen }, some it.buffer)

def nextRow : Option (ChunkedIter L × Option (ResultRow L)) :=
  match it.buffer with
  | row :: buffer => (addI64 it.seen 1).map fun seen => ({ it with buffer := buffer, seen := seen }, some row)
  | [] => (it.fetchNextChunk select).bind fun
    | (it, some (row :: buffer)) =>
      (addI64 it.seen 1).map fun seen => ({ it with buffer := buffer, seen := seen }, some row)
    | (it, _) => some (it, none)

def rowsSeen : Int := it.seen

inductive Call
  | nextChunk
  | nextRow

/-- What a call returns, a row as a list of its own. -/
def next : Call → Option (ChunkedIter L × Option (List (ResultRow L)))
  | .nextChunk => it.nextChunk select
  | .nextRow => (it.nextRow select).map fun (it, row) => (it, row.map fun row => [row])

/-- The statement that the next call runs, if it runs one. -/
def asks : Option (SelectQuery L) := if it.buffer.isEmpty then it.statement else none

end ChunkedIter

namespace ChunkedIter
variable (m : Meaning L) (db : Database L)

/-- The call may turn `it` into `it'` and return `out`. -/
def Step (it : ChunkedIter L) (call : Call) (it' : ChunkedIter L) (out : Option (List (ResultRow L))) : Prop :=
  ∃ select, (∀ q ∈ it.asks, q.Fetches m db (select q)) ∧ it.next select call = some (it', out)

/-- Calls that return `outs`, one after the other. -/
inductive Run (first : ChunkedIter L) : List (Option (List (ResultRow L))) → ChunkedIter L → Prop
  | nil : Run first [] first
  | step {outs it call it' out} : Run first outs it → Step m db it call it' out → Run first (outs ++ [out]) it'

/-- The rows that the calls hand out. -/
def handed (outs : List (Option (List (ResultRow L)))) : List (ResultRow L) := outs.flatMap (·.getD [])

end ChunkedIter

/-- The statement reads part of the query's window. -/
def SelectQuery.InWindow (q chunk : SelectQuery L) : Prop :=
  chunk.unsliced = q.unsliced ∧ ∃ limit offset, chunk.outerLimit = some limit ∧ chunk.outerOffset = some offset ∧
    0 < limit ∧ max (q.outerOffset.getD 0) 0 ≤ offset ∧
      ∀ n, q.outerLimit = some n → offset + limit ≤ max (q.outerOffset.getD 0) 0 + n

/-- Every mix of calls hands out these rows, and then no more. -/
structure ChunkedIter.Drains (m : Meaning L) (db : Database L) (first : ChunkedIter L)
    (rows : List (ResultRow L)) : Prop where
  succeeds : ∀ outs it, Run m db first outs it → ∀ call, ∃ it' out, Step m db it call it' out
  complete : ∀ outs it, Run m db first outs it → none ∈ outs → handed outs = rows
  done : ∀ outs it, Run m db first outs it → none ∈ outs → ∀ call it' out, Step m db it call it' out → out = none
  ends : ∀ outs it, Run m db first outs it → rows.length < outs.length → none ∈ outs
  seen : ∀ outs it, Run m db first outs it → it.rowsSeen = (handed outs).length
  inWindow : ∀ outs it, Run m db first outs it → ∀ q ∈ it.asks, first.query.InWindow q

end Rustango.Query
