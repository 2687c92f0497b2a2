import Rustango.Lib.Chunks
import Rustango.Query.Meaning

/-!
# `IN` lists

How the right side of an `IN` is written, and how the keys of a fetch are split into the lists that
one statement can bind. Where the database binds arrays a list of one plain type is one bind.
-/

namespace Rustango.Query

open Rustango.Chunks Rustango.Firsts

variable {L : Lang}

/-- The variants of `SqlValue`. -/
inductive SqlKind where
  | null | i16 | i32 | i64 | f32 | f64 | bool | string | dateTime | date | uuid | json | decimal
  | binary | time | list | array | rangeLiteral | hStore | vector | geometry
deriving DecidableEq, Repr

/-- `SqlValue`: its variant, its `Debug`, the `I64` of a shorter integer, and the list of an `IN`. -/
structure SqlValues (L : Lang) where
  kind : L.Value → SqlKind
  debug : L.Value → String
  toI64 : L.Value → L.Value
  list : List L.Value → L.Value

/-- What a dialect brings: its cap, whether it binds arrays, and how many binds a `SELECT` carries. -/
structure Driver (L : Lang) where
  maxBindParams : Nat
  bindsPgOnlyValues : Bool
  carried : SelectQuery L → Except QueryError Nat

inductive ExecError where
  | query (e : QueryError)
  | inListUnsplittable (table : String) (keys max : Nat)
deriving DecidableEq, Repr

section Code
variable (v : SqlValues L) (d : Driver L)

/-- One type that the array bind takes, and so no NULL. -/
def arrayBindable : List L.Value → Bool
  | [] => false
  | first :: rest =>
    decide (v.kind first ∈ [.i16, .i32, .i64, .string, .bool, .uuid]) &&
      (first :: rest).all fun e => v.kind e = v.kind first

def bindsAsArray (elements : List L.Value) : Bool := d.bindsPgOnlyValues && arrayBindable v elements

def inListBinds (elements : List L.Value) : Nat := if bindsAsArray v d elements then 1 else elements.length

/-- What an array bind holds: the elements of the first one's type. -/
def arrayBind : List L.Value → List L.Value
  | [] => []
  | first :: rest => (first :: rest).filter fun e => v.kind e = v.kind first

/-- `1 = 0` or `1 = 1`, `= ANY($1)` or `<> ALL($1)`, and the list. -/
inductive InText (L : Lang) where
  | constant (truth : Bool)
  | array (negated : Bool) (bound : List L.Value)
  | list (negated : Bool) (elements : List L.Value)

def writeEmptyIn (op : Op) : InText L := .constant (op = .notIn)

def writeInList (op : Op) (elements : List L.Value) : InText L :=
  if bindsAsArray v d elements then .array (op = .notIn) (arrayBind v elements)
  else .list (op = .notIn) elements

/-- An `IN` or `NOT IN` predicate. -/
def writeIn (op : Op) (elements : List L.Value) : InText L :=
  if elements.isEmpty then writeEmptyIn op else writeInList v d op elements

def InText.binds : InText L → Nat
  | .constant _ => 0
  | .array _ _ => 1
  | .list _ elements => elements.length

/-- One key for each value: the integers of all widths are one type. -/
def dedupeKey (k : L.Value) : String :=
  match v.kind k with
  | .i16 => v.debug (v.toI64 k)
  | .i32 => v.debug (v.toI64 k)
  | _ => v.debug k

def sameKey (k k' : L.Value) : Bool := dedupeKey v k = dedupeKey v k'

def distinctKeys (keys : List L.Value) : List L.Value := firsts (sameKey v) keys

/-- The binds left beside those that `base` carries. -/
def bindRoom (base : SelectQuery L) : Except ExecError Nat :=
  match d.carried base with
  | .ok carried => .ok (d.maxBindParams - carried)
  | .error e => .error (.query e)

/-- Refused when there is no room, or when a limit or offset would apply to each batch. -/
def inChunkSize (table : String) (keys room : Nat) (sliced : Bool) : Except ExecError Nat :=
  if room = 0 || (sliced && decide (room < keys)) then .error (.inListUnsplittable table keys room)
  else .ok room

def inBatches (base : SelectQuery L) (sliced : Bool) (keys : List L.Value) :
    Except ExecError (List (List L.Value)) := do
  let room ← bindRoom d base
  if 0 < room && inListBinds v d keys ≤ room then .ok [keys]
  else
    let keys := distinctKeys v keys
    if 0 < room && inListBinds v d keys ≤ room then .ok [keys]
    else do
      let size ← inChunkSize base.model.table keys.length room sliced
      .ok (sliceChunks size keys)

/-- What was fetched over the batches: rows of several are kept once for each primary key. -/
def distinctRows {Row : Type} (key : Row → L.Value) (batches : List (List L.Value)) (rows : List Row) :
    List Row :=
  if 1 < batches.length then firsts (fun r r' => sameKey v (key r) (key r')) rows else rows

end Code

/-- How the database reads keys: `IN` asks for an equal element, `<>` denies equality, integers compare
by value, and values with one `Debug` are one value. -/
structure ReadsKeys (m : Meaning L) (v : SqlValues L) : Prop where
  in_ : ∀ x ks, m.compare .in_ x (v.list ks) = or3 (ks.map (m.compare .eq x))
  ne : ∀ x k, m.compare .ne x k = (m.compare .eq x k).map (!·)
  toI64 : ∀ x k, m.compare .eq x (v.toI64 k) = m.compare .eq x k
  debug : ∀ k k', v.debug k = v.debug k' → ∀ x, m.compare .eq x k = m.compare .eq x k'

/-- The truth of `x IN …`, as written. -/
def InText.holds (m : Meaning L) (x : L.Value) : InText L → Option Bool
  | .constant truth => some truth
  | .array true bound => and3 (bound.map (m.compare .ne x))
  | .array false bound => or3 (bound.map (m.compare .eq x))
  | .list negated elements =>
    let found := or3 (elements.map (m.compare .eq x))
    if negated then found.map (!·) else found

private theorem and3_map_not (bs : List (Option Bool)) : and3 (bs.map (·.map (!·))) = (or3 bs).map (!·) := by
  have htrue : some false ∈ bs.map (·.map (!·)) ↔ some true ∈ bs := by
    simp [List.mem_map, Option.map_eq_some_iff]
  have hnone : none ∈ bs.map (·.map (!·)) ↔ none ∈ bs := by simp
  simp only [and3, or3, htrue, hnone]
  by_cases h : some true ∈ bs
  · simp [h]
  · by_cases hn : none ∈ bs <;> simp [h, hn]

section Texts
variable {v : SqlValues L} {d : Driver L} {m : Meaning L} {elements : List L.Value}

theorem inListBinds_eq (op : Op) : inListBinds v d elements = (writeIn v d op elements).binds := by
  cases elements with
  | nil => simp [inListBinds, bindsAsArray, arrayBindable, writeIn, writeEmptyIn, InText.binds]
  | cons e rest =>
    simp only [inListBinds, writeIn, List.isEmpty_cons, writeInList, Bool.false_eq_true, if_false]
    split <;> rfl

theorem inListBinds_le : inListBinds v d elements ≤ elements.length := by
  cases elements with
  | nil => simp [inListBinds, bindsAsArray, arrayBindable]
  | cons e rest =>
    rw [inListBinds, List.length_cons]
    split <;> omega

private theorem arrayBind_eq (h : arrayBindable v elements = true) : arrayBind v elements = elements := by
  cases elements with
  | nil => rfl
  | cons e rest =>
    rw [arrayBindable, Bool.and_eq_true] at h
    rw [arrayBind, List.filter_eq_self]
    simpa using h.2

theorem holds_writeInList (hm : ReadsKeys m v) (op : Op) (h : bindsAsArray v d elements = true)
    (x : L.Value) : (writeInList v d op elements).holds m x =
      (InText.list (op = .notIn) elements : InText L).holds m x := by
  have harray : arrayBindable v elements = true := by
    rw [bindsAsArray, Bool.and_eq_true] at h
    exact h.2
  rw [writeInList, if_pos h, arrayBind_eq harray]
  by_cases hop : op = .notIn
  · have hne : elements.map (m.compare .ne x) = (elements.map (m.compare .eq x)).map (·.map (!·)) := by
      rw [List.map_map]
      exact List.map_congr_left fun k _ => hm.ne x k
    simp only [hop, decide_true, InText.holds, if_true]
    rw [hne, and3_map_not]
  · simp [hop, InText.holds]

private theorem arrayBindable_iff : arrayBindable v elements = true ↔ elements ≠ [] ∧
    ∃ kind ∈ [.i16, .i32, .i64, .string, .bool, .uuid], ∀ e ∈ elements, v.kind e = kind := by
  cases elements with
  | nil => simp [arrayBindable]
  | cons e rest =>
    rw [arrayBindable, Bool.and_eq_true, decide_eq_true_eq, List.all_eq_true]
    constructor
    · intro ⟨hkind, hall⟩
      exact ⟨by simp, v.kind e, hkind, fun e' he' => by simpa using hall e' he'⟩
    · intro ⟨_, kind, hkind, hall⟩
      have he := hall e List.mem_cons_self
      refine ⟨he ▸ hkind, fun e' he' => ?_⟩
      simp [hall e' he', he]

/-- A part of a list takes no more binds. -/
theorem inListBinds_sublist {part : List L.Value} (h : part.Sublist elements) :
    inListBinds v d part ≤ inListBinds v d elements := by
  by_cases harray : bindsAsArray v d elements = true
  · have hbinds : inListBinds v d elements = 1 := if_pos harray
    rw [hbinds]
    by_cases hnil : part = []
    · rw [hnil]
      exact inListBinds_le.trans (Nat.zero_le 1)
    · rw [bindsAsArray, Bool.and_eq_true, arrayBindable_iff] at harray
      obtain ⟨hpg, -, kind, hkind, hall⟩ := harray
      have hpart : bindsAsArray v d part = true := by
        rw [bindsAsArray, Bool.and_eq_true, arrayBindable_iff]
        exact ⟨hpg, hnil, kind, hkind, fun e he => hall e (h.subset he)⟩
      rw [inListBinds, if_pos hpart]
  · have hbinds : inListBinds v d elements = elements.length := if_neg harray
    rw [hbinds]
    exact inListBinds_le.trans h.length_le

end Texts

section Batches
variable {v : SqlValues L} {d : Driver L} {base : SelectQuery L} {sliced : Bool}
variable {keys : List L.Value} {batches : List (List L.Value)}

theorem sameKey_refl (k : L.Value) : sameKey v k k = true := decide_eq_true rfl

private theorem sameKey_symm (k k' : L.Value) (h : sameKey v k k' = true) : sameKey v k' k = true :=
  decide_eq_true (of_decide_eq_true h).symm

theorem sameKey_trans (k k' k'' : L.Value) (h : sameKey v k k' = true) (h' : sameKey v k' k'' = true) :
    sameKey v k k'' = true :=
  decide_eq_true ((of_decide_eq_true h).trans (of_decide_eq_true h'))

private theorem compare_of_sameKey {m : Meaning L} (hm : ReadsKeys m v) {k k' : L.Value}
    (h : sameKey v k k' = true) (x : L.Value) : m.compare .eq x k = m.compare .eq x k' := by
  have hself : ∀ k, ∃ k', dedupeKey v k = v.debug k' ∧ ∀ x, m.compare .eq x k' = m.compare .eq x k := by
    intro k
    unfold dedupeKey
    split
    · exact ⟨_, rfl, fun x => hm.toI64 x k⟩
    · exact ⟨_, rfl, fun x => hm.toI64 x k⟩
    · exact ⟨_, rfl, fun x => rfl⟩
  obtain ⟨l, hl, hcompare⟩ := hself k
  obtain ⟨l', hl', hcompare'⟩ := hself k'
  have hdebug : v.debug l = v.debug l' := by rw [← hl, ← hl', of_decide_eq_true h]
  rw [← hcompare, ← hcompare', hm.debug l l' hdebug]

private theorem mem_of_mem_distinctKeys {k : L.Value} (h : k ∈ distinctKeys v keys) : k ∈ keys :=
  (firsts_sublist (sameKey v) keys).subset h

private theorem exists_distinctKey {k : L.Value} (h : k ∈ keys) :
    ∃ k' ∈ distinctKeys v keys, sameKey v k' k = true :=
  exists_mem_firsts (sameKey v) sameKey_refl sameKey_trans h

/-- The batches: one that holds the keys, or chunks of the distinct ones. -/
structure Batched (v : SqlValues L) (d : Driver L) (sliced : Bool) (keys : List L.Value) (room : Nat)
    (batches : List (List L.Value)) : Prop where
  pos : 0 < room
  pieces : (∃ ks, (ks = keys ∨ ks = distinctKeys v keys) ∧ batches = [ks] ∧ inListBinds v d ks ≤ room) ∨
    (sliced = false ∧ room < inListBinds v d (distinctKeys v keys) ∧
      batches = sliceChunks room (distinctKeys v keys))

theorem batched_of_inBatches {carried : Nat} (hcarried : d.carried base = .ok carried)
    (h : inBatches v d base sliced keys = .ok batches) :
    Batched v d sliced keys (d.maxBindParams - carried) batches := by
  rw [inBatches, bindRoom, hcarried] at h
  change (if _ then _ else _) = _ at h
  split at h
  · rename_i hfits
    simp only [Bool.and_eq_true, decide_eq_true_eq] at hfits
    obtain rfl := Except.ok.inj h
    exact ⟨hfits.1, Or.inl ⟨keys, Or.inl rfl, rfl, hfits.2⟩⟩
  · split at h
    · rename_i hfits
      simp only [Bool.and_eq_true, decide_eq_true_eq] at hfits
      obtain rfl := Except.ok.inj h
      exact ⟨hfits.1, Or.inl ⟨_, Or.inr rfl, rfl, hfits.2⟩⟩
    · rename_i hlong
      rw [inChunkSize] at h
      split at h
      · cases h
      · rename_i hsize
        simp only [Bool.or_eq_true, Bool.and_eq_true, decide_eq_true_eq, not_or, not_and] at hsize hlong
        obtain rfl := Except.ok.inj h
        have hbinds := hlong (Nat.pos_of_ne_zero hsize.1)
        have hle : inListBinds v d (distinctKeys v keys) ≤ (distinctKeys v keys).length := inListBinds_le
        refine ⟨Nat.pos_of_ne_zero hsize.1, Or.inr ⟨?_, by omega, rfl⟩⟩
        cases sliced with
        | false => rfl
        | true => exact absurd (by omega) (hsize.2 rfl)

/-- Exactly the splits that the code refuses. -/
theorem inBatches_error {carried : Nat} (hcarried : d.carried base = .ok carried) :
    (∃ e, inBatches v d base sliced keys = .error e) ↔ d.maxBindParams - carried = 0 ∨
      (sliced = true ∧ d.maxBindParams - carried < inListBinds v d (distinctKeys v keys)) := by
  have hkeys : inListBinds v d (distinctKeys v keys) ≤ inListBinds v d keys :=
    inListBinds_sublist (firsts_sublist (sameKey v) keys)
  have hlength : inListBinds v d (distinctKeys v keys) ≤ (distinctKeys v keys).length := inListBinds_le
  constructor
  · intro ⟨e, h⟩
    rw [inBatches, bindRoom, hcarried] at h
    change (if _ then _ else _) = _ at h
    split at h
    · cases h
    · split at h
      · cases h
      · rename_i hlong
        rw [inChunkSize] at h
        split at h
        · rename_i hrefused
          simp only [Bool.or_eq_true, Bool.and_eq_true, decide_eq_true_eq, not_and] at hrefused hlong
          rcases hrefused with hroom | ⟨hsliced, hmany⟩
          · exact Or.inl hroom
          · by_cases hroom : d.maxBindParams - carried = 0
            · exact Or.inl hroom
            · have hbinds := hlong (Nat.pos_of_ne_zero hroom)
              exact Or.inr ⟨hsliced, by omega⟩
        · cases h
  · intro h
    by_contra hnone
    cases hok : inBatches v d base sliced keys with
    | error e => exact hnone ⟨e, hok⟩
    | ok batches =>
      obtain ⟨hpos, ⟨ks, hks, -, hfits⟩ | ⟨hsliced, -, -⟩⟩ := batched_of_inBatches hcarried hok
      · rcases hks with rfl | rfl <;> omega
      · rw [hsliced] at h
        simp at h
        omega

theorem Batched.flatten {room : Nat} (h : Batched v d sliced keys room batches) :
    batches.flatten = keys ∨ batches.flatten = distinctKeys v keys := by
  rcases h.pieces with ⟨ks, hks, rfl, -⟩ | ⟨-, -, rfl⟩
  · simpa using hks
  · exact Or.inr (flatten_sliceChunks h.pos _)

theorem Batched.fits {carried : Nat} (h : Batched v d sliced keys (d.maxBindParams - carried) batches)
    {batch : List L.Value} (hbatch : batch ∈ batches) :
    carried + inListBinds v d batch ≤ d.maxBindParams := by
  have hpos := h.pos
  have hbinds : inListBinds v d batch ≤ d.maxBindParams - carried := by
    rcases h.pieces with ⟨ks, -, rfl, hfits⟩ | ⟨-, -, rfl⟩
    · rwa [List.mem_singleton.mp hbatch]
    · exact inListBinds_le.trans (length_of_mem_sliceChunks hbatch)
  omega

theorem Batched.known {room : Nat} (h : Batched v d sliced keys room batches) {batch : List L.Value}
    (hbatch : batch ∈ batches) {k : L.Value} (hk : k ∈ batch) : k ∈ keys := by
  have hflat : k ∈ batches.flatten := List.mem_flatten.mpr ⟨batch, hbatch, hk⟩
  rcases h.flatten with heq | heq
  · rwa [heq] at hflat
  · rw [heq] at hflat
    exact mem_of_mem_distinctKeys hflat

/-- Each key is in one batch. -/
theorem Batched.once {room : Nat} (h : Batched v d sliced keys room batches) {k : L.Value}
    (hk : k ∈ keys) : (batches.countP fun batch => batch.any fun k' => sameKey v k' k) = 1 := by
  obtain ⟨k', hk', hsame⟩ := exists_distinctKey (v := v) hk
  rcases h.pieces with ⟨ks, hks, rfl, -⟩ | ⟨-, -, rfl⟩
  · have hany : (ks.any fun k' => sameKey v k' k) = true := by
      rcases hks with rfl | rfl
      · exact List.any_eq_true.mpr ⟨k, hk, sameKey_refl k⟩
      · exact List.any_eq_true.mpr ⟨k', hk', hsame⟩
    simp [hany]
  · have hflat := flatten_sliceChunks h.pos (distinctKeys v keys)
    apply countP_any_flatten sameKey_symm sameKey_trans
    · rw [hflat]
      exact firsts_apart (sameKey v) keys
    · rw [hflat]
      exact ⟨k', hk', hsame⟩

theorem Batched.found {m : Meaning L} (hm : ReadsKeys m v) {room : Nat}
    (h : Batched v d sliced keys room batches) (x : L.Value) :
    (∃ k ∈ keys, m.compare .eq x k = some true) ↔
      ∃ batch ∈ batches, ∃ k ∈ batch, m.compare .eq x k = some true := by
  constructor
  · intro ⟨k, hk, hx⟩
    have hone := h.once hk
    have hpos : 0 < batches.countP fun batch => batch.any fun k' => sameKey v k' k := by omega
    obtain ⟨batch, hbatch, hany⟩ := List.countP_pos_iff.mp hpos
    obtain ⟨k', hk', hsame⟩ := List.any_eq_true.mp hany
    exact ⟨batch, hbatch, k', hk', (compare_of_sameKey hm hsame x).trans hx⟩
  · intro ⟨batch, hbatch, k, hk, hx⟩
    exact ⟨k, h.known hbatch hk, hx⟩

end Batches

end Rustango.Query
