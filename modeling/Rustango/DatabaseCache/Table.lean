import Mathlib
import Rustango.Lib.Keyed
import Rustango.Url.Codec

/-!
# The cache table

One row for each stored key, and what the statements on it do.
-/

namespace Rustango.DatabaseCache

open Keyed
open Rustango.Url (Text)

/-- `expires` is 0 for a row that never expires. -/
structure Row where
  key : Text
  value : String
  expires : Nat
deriving DecidableEq

/-- The key is the primary key. -/
@[ext]
structure Table where
  rows : List Row
  once : (rows.map Row.key).Nodup

namespace Table

def empty : Table := ⟨[], List.nodup_nil⟩

variable (t : Table)

def slot (key : Text) : Option Row := lookup Row.key t.rows key

/-- The row in place of the one under its key. -/
def put (row : Row) : Table :=
  ⟨row :: retain Row.key t.rows row.key, by
    rw [List.map_cons, List.nodup_cons]
    refine ⟨?_, nodup_retain Row.key t.once row.key⟩
    simp [retain]⟩

/-- `DELETE … WHERE p`, with the rows it deletes counted. -/
def delete (p : Row → Bool) : Nat × Table :=
  (t.rows.countP p, ⟨t.rows.filter fun row => !p row, (List.filter_sublist.map Row.key).nodup t.once⟩)

/-- `INSERT … ON CONFLICT (cache_key) DO UPDATE SET … WHERE guard`, with the rows it writes counted. -/
def upsert (new : Row) (guard : Row → Bool) (set : Row → Row) : Nat × Table :=
  match t.slot new.key with
  | none => (1, t.put new)
  | some old => if guard old then (1, t.put { set old with key := new.key }) else (0, t)

/-- MySQL's `INSERT IGNORE`. -/
def insertIgnore (new : Row) : Nat × Table := t.upsert new (fun _ => false) id

/-- `UPDATE … SET … WHERE cache_key = key AND guard`. -/
def update (key : Text) (guard : Row → Bool) (set : Row → Row) : Nat × Table :=
  match t.slot key with
  | none => (0, t)
  | some old => if guard old then (1, t.put { set old with key }) else (0, t)

variable {t}

theorem slot_key {key : Text} {row : Row} (h : t.slot key = some row) : row.key = key := lookup_key Row.key h

theorem mem_of_slot {key : Text} {row : Row} (h : t.slot key = some row) : row ∈ t.rows := mem_of_lookup Row.key h

theorem slot_of_mem {row : Row} (h : row ∈ t.rows) : t.slot row.key = some row := lookup_of_mem Row.key t.once h

theorem slot_put (row : Row) (key : Text) : (t.put row).slot key = if row.key = key then some row else t.slot key := by
  unfold slot put
  rw [lookup_cons, lookup_retain]
  by_cases h : row.key = key
  · simp [h]
  · simp [h, Ne.symm h]

theorem slot_delete (p : Row → Bool) (key : Text) : (t.delete p).2.slot key = (t.slot key).filter fun row => !p row := by
  cases hslot : (t.delete p).2.slot key with
  | some row =>
    have hmem : row ∈ t.rows ∧ (!p row) = true := List.mem_filter.1 (mem_of_slot hslot)
    have hkey := slot_key hslot
    subst hkey
    rw [slot_of_mem hmem.1]
    simp [Option.filter, hmem.2]
  | none =>
    cases hold : t.slot key with
    | none => rfl
    | some row =>
      have hkey := slot_key hold
      subst hkey
      cases hp : p row with
      | true => simp [Option.filter, hp]
      | false =>
        have hmem : row ∈ (t.delete p).2.rows := List.mem_filter.2 ⟨mem_of_slot hold, by simp [hp]⟩
        rw [slot_of_mem hmem] at hslot
        cases hslot

end Table

end Rustango.DatabaseCache
