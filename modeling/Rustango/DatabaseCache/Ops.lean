import Mathlib
import Rustango.DatabaseCache.CounterText
import Rustango.DatabaseCache.StoredKey
import Rustango.DatabaseCache.Table
import Rustango.Query.TextLookup

/-!
# The operations of the database cache

`DatabaseCache` of `cache/db_backend.rs`: each operation reads the clock and runs a statement of its dialect. A
reading of the clock is the milliseconds since the epoch, or none before it.
-/

namespace Rustango.DatabaseCache

open Rustango.Cache (CacheError Reply)
open Rustango.Numeral (value)
open Rustango.Query (Dialect escapeLikeChars like likeEscapeChar)
open Rustango.Url (Text)

abbrev Clock := Option Nat

def maxMs : Nat := 2 ^ 63 - 1

def nowUnixMs (clock : Clock) : Nat := min (clock.getD 0) maxMs

/-- `ttl` in whole milliseconds. -/
def expiresFor (ttl : Option Nat) (clock : Clock) : Nat :=
  match ttl with
  | some ms => min (nowUnixMs clock + min ms maxMs) maxMs
  | none => 0

def purgeBatchSize : Nat := 1000

/-- The rows that a `LIMIT` takes, which the database is free to choose. -/
structure Pick where
  run : List Row → List Row
  sub : ∀ rows, (run rows).Sublist rows
  length : ∀ rows, (run rows).length = min purgeBatchSize rows.length

/-- The pool and the settings of a cache. `refusal` is what Postgres says to a NUL in a text. -/
structure Backend where
  dialect : Dialect
  purgeEvery : Nat
  sha : Sha256
  refusal : String

/-- The table, and the writes counted in a `u32`. -/
structure State where
  table : Table
  writes : Nat

/-- `expires <> 0 AND expires < now` -/
def expired (now : Nat) (row : Row) : Bool := row.expires ≠ 0 && decide (row.expires < now)

def purgeBatch (t : Table) (now : Nat) (pick : Pick) : Nat × Table :=
  let gone := pick.run (t.rows.filter (expired now))
  t.delete fun row => decide (row ∈ gone)

theorem length_purgeBatch (t : Table) (now : Nat) (pick : Pick) :
    (purgeBatch t now pick).1 + (purgeBatch t now pick).2.rows.length = t.rows.length := by
  unfold purgeBatch Table.delete
  simp only [← List.countP_eq_length_filter]
  have hsplit := List.length_eq_countP_add_countP
    (fun row => decide (row ∈ pick.run (t.rows.filter (expired now)))) (l := t.rows)
  simpa using hsplit.symm

/-- The loop of `purge_expired`; the batches pick one after another. -/
def purgeLoop (now : Nat) (picks : Nat → Pick) (total : Nat) (t : Table) : Nat × Table :=
  let batch := purgeBatch t now (picks 0)
  if batch.1 < purgeBatchSize then (total + batch.1, batch.2)
  else purgeLoop now (fun i => picks (i + 1)) (total + batch.1) batch.2
termination_by t.rows.length
decreasing_by
  rename_i hfull
  have hlength := length_purgeBatch t now (picks 0)
  change ¬ (purgeBatch t now (picks 0)).1 < 1000 at hfull
  change (purgeBatch t now (picks 0)).2.rows.length < t.rows.length
  omega

/-- Every backend refuses a NUL in a text value. -/
def checkText (text : String) : Option CacheError :=
  if '\x00' ∈ text.toList then
    some (.serialization "a cache value cannot contain a NUL character; use `set_bytes`")
  else none

def incrOverflow : CacheError := .connection "incr: integer out of range (i64 overflow)"

/-- `str::parse::<i64>` -/
def parseI64 (s : Text) : Option Int :=
  let parse (digits : Text) (n : Int) : Option Int :=
    if digits ≠ [] && digits.all Char.isDigit && inI64 n then some n else none
  match s with
  | '-' :: digits => parse digits (-(value digits : Int))
  | '+' :: digits => parse digits (value digits : Int)
  | digits => parse digits (value digits : Int)

/-- SQLite's `instr`: the place of the first occurrence, from 1, or 0. -/
def instr (hay needle : Text) : Nat :=
  match (List.range (hay.length + 1)).find? fun i => needle.isPrefixOf (hay.drop i) with
  | some i => i + 1
  | none => 0

namespace Backend
variable (b : Backend) (s : State)

def stored (key : Text) : Text := storedKey b.sha key

/-- Postgres holds no NUL in a text. -/
def refuses (text : Text) : Bool := decide (b.dialect = .postgres) && decide ('\x00' ∈ text)

def failed (op : String) : Reply := .error (.connection (op ++ ": " ++ b.refusal))

/-- One purge batch every `purge_every` writes. -/
def afterWrite (sweep : Clock) (pick : Pick) : State :=
  let counted := { s with writes := (s.writes + 1) % 2 ^ 32 }
  if b.purgeEvery = 0 || decide (s.writes % b.purgeEvery ≠ b.purgeEvery - 1) then counted
  else { counted with table := (purgeBatch s.table (nowUnixMs sweep) pick).2 }

/-- `gone` is read for the delete of an expired row. -/
def get (key : Text) (now gone : Clock) : Reply × State :=
  if b.refuses (b.stored key) then (b.failed "get", s)
  else match s.table.slot (b.stored key) with
  | none => (.value none, s)
  | some row =>
    if row.expires ≠ 0 && decide (nowUnixMs now > row.expires) then
      (.value none, { s with table := (s.table.delete fun row =>
        row.key = b.stored key && expired (nowUnixMs gone) row).2 })
    else (.value (some row.value), s)

def set (key : Text) (text : String) (ttl : Option Nat) (now sweep : Clock) (pick : Pick) : Reply × State :=
  match checkText text with
  | some e => (.error e, s)
  | none =>
    if b.refuses (b.stored key) then (b.failed "set", s)
    else
      let row : Row := ⟨b.stored key, text, expiresFor ttl now⟩
      (.done, b.afterWrite { s with table := (s.table.upsert row (fun _ => true) fun _ => row).2 } sweep pick)

/-- `start` is read for the expiry, then `now`. -/
def add (key : Text) (text : String) (ttl : Option Nat) (start now sweep : Clock) (pick : Pick) : Reply × State :=
  match checkText text with
  | some e => (.error e, s)
  | none =>
    if b.refuses (b.stored key) then (b.failed "add", s)
    else
      let row : Row := ⟨b.stored key, text, expiresFor ttl start⟩
      let takeable (old : Row) : Bool := old.expires ≠ 0 && decide (old.expires ≤ nowUnixMs now)
      match b.dialect with
      | .mysql =>
        let inserted := s.table.insertIgnore row
        if inserted.1 = 1 then (.flag true, b.afterWrite { s with table := inserted.2 } sweep pick)
        else
          let took := s.table.update (b.stored key) takeable fun _ => row
          (.flag (took.1 = 1), { s with table := took.2 })
      | _ =>
        let took := s.table.upsert row takeable fun _ => row
        if took.1 = 1 then (.flag true, b.afterWrite { s with table := took.2 } sweep pick)
        else (.flag false, { s with table := took.2 })

/-- The row expired or does not hold an integer. -/
def restarts (now : Nat) (old : Row) : Bool := expired now old || notInt b.dialect old.value

def sum (new old : Row) : Int := sqlInt b.dialect old.value + sqlInt b.dialect new.value

/-- The assignments of the upsert. -/
def counted (now : Nat) (new old : Row) : Row :=
  { old with
    value := if b.restarts now old then new.value else toString (b.sum new old)
    expires := if expired now old then new.expires else old.expires }

/-- `now` is read first, then `start` for the expiry; the sweep comes before the upsert. -/
def incr (key : Text) (by_ : Int64) (ttl : Option Nat) (now start sweep : Clock) (pick : Pick) : Reply × State :=
  let new : Row := ⟨b.stored key, toString by_.toInt, expiresFor ttl start⟩
  let s := b.afterWrite s sweep pick
  if b.refuses (b.stored key) then (b.failed "incr", s)
  else
    -- SQLite's guard skips a sum out of range; Postgres and MySQL fail in it, with nothing written
    let wrote := s.table.upsert new (fun old => b.restarts (nowUnixMs now) old || inI64 (b.sum new old))
      (b.counted (nowUnixMs now) new)
    if wrote.1 = 0 then (.error incrOverflow, s)
    else
      let text := ((wrote.2.slot new.key).map Row.value).getD ""
      match parseI64 text.toList with
      | some n => (.count n, { s with table := wrote.2 })
      | none => (.error (.connection ("incr: non-integer result " ++ text.quote)), { s with table := wrote.2 })

/-- `start` is read for the expiry, then `now`. -/
def touch (key : Text) (ttl : Option Nat) (start now : Clock) : Reply × State :=
  if b.refuses (b.stored key) then (b.failed "touch", s)
  else
    let touched := s.table.update (b.stored key)
      (fun row => row.expires = 0 || decide (nowUnixMs now ≤ row.expires))
      fun row => { row with expires := expiresFor ttl start }
    (.flag (touched.1 = 1), { s with table := touched.2 })

def delete (key : Text) : Reply × State :=
  if b.refuses (b.stored key) then (b.failed "delete", s)
  else (.done, { s with table := (s.table.delete fun row => row.key = b.stored key).2 })

/-- `instr(cache_key, p) = 1` on SQLite, else `cache_key LIKE p` with an escaped `p`. -/
def startsWith (prefix_ key : Text) : Bool :=
  match b.dialect with
  | .sqlite => instr key (head prefix_) = 1
  | _ => like (some likeEscapeChar) (String.ofList (escapeLikeChars (head prefix_) ++ ['%'])) (String.ofList key)

def deletePrefix (prefix_ : Text) : Reply × State :=
  if b.refuses (head prefix_) then (b.failed "delete_prefix", s)
  else (.done, { s with table := (s.table.delete fun row => b.startsWith prefix_ row.key).2 })

def purgeExpired (now : Clock) (picks : Nat → Pick) : Reply × State :=
  let purged := purgeLoop (nowUnixMs now) picks 0 s.table
  (.count purged.1, { s with table := purged.2 })

end Backend

/-- A call, with its readings of the clock and the choices of the database. -/
inductive Op where
  | get (key : Text) (now gone : Clock)
  | set (key : Text) (text : String) (ttl : Option Nat) (now sweep : Clock) (pick : Pick)
  | add (key : Text) (text : String) (ttl : Option Nat) (start now sweep : Clock) (pick : Pick)
  | incr (key : Text) (by_ : Int64) (ttl : Option Nat) (now start sweep : Clock) (pick : Pick)
  | touch (key : Text) (ttl : Option Nat) (start now : Clock)
  | delete (key : Text)
  | deletePrefix (prefix_ : Text)
  | purge (now : Clock) (picks : Nat → Pick)

def Op.run (b : Backend) (s : State) : Op → Reply × State
  | .get key now gone => b.get s key now gone
  | .set key text ttl now sweep pick => b.set s key text ttl now sweep pick
  | .add key text ttl start now sweep pick => b.add s key text ttl start now sweep pick
  | .incr key by_ ttl now start sweep pick => b.incr s key by_ ttl now start sweep pick
  | .touch key ttl start now => b.touch s key ttl start now
  | .delete key => b.delete s key
  | .deletePrefix prefix_ => b.deletePrefix s prefix_
  | .purge now picks => Backend.purgeExpired s now picks

/-- The answers of a run, one after another. -/
def replies (b : Backend) : State → List Op → List Reply
  | _, [] => []
  | s, op :: ops => (op.run b s).1 :: replies b (op.run b s).2 ops

end Rustango.DatabaseCache
