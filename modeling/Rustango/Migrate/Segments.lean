import Rustango.Migrate.Runner

/-!
# Segments of a run on SQLite

FK enforcement can only change outside a transaction: a rebuild needs it off, and a RunSQL needs it
on. The operations are cut where one meets the other, and each range runs in its own transaction.
-/

namespace Rustango.Migrate

open Rustango.Outcome

/-- A range of operations, with whether it rebuilds a table. -/
structure Segment where
  start : ℕ
  stop : ℕ
  rebuilds : Bool
deriving DecidableEq, Repr

def Operation.isData : Operation → Bool
  | .data _ => true
  | _ => false

section Cut
variable (rebuildOf : ℕ → SchemaChange → Except MigrateError Bool)

/-- Whether the `i`-th operation rebuilds a table; `rebuildOf` is what rendering the change says. -/
def rebuilds (i : ℕ) : Operation → Except MigrateError Bool
  | .schema change => rebuildOf i change
  | _ => .ok false

/-- The loop of `sqlite_segments` from the `i`-th operation on, with the start of the open range and
what it already holds. -/
def sqliteSegmentsFrom : List Operation → ℕ → ℕ → Bool → Bool → Except MigrateError (List Segment)
  | [], i, start, rebuilt, _ => .ok [⟨start, i, rebuilt⟩]
  | op :: ops, i, start, rebuilt, data => do
    let isRebuild ← rebuilds rebuildOf i op
    if (op.isData && rebuilt) || (isRebuild && data) then
      let rest ← sqliteSegmentsFrom ops (i + 1) i isRebuild op.isData
      return ⟨start, i, rebuilt⟩ :: rest
    else sqliteSegmentsFrom ops (i + 1) start (rebuilt || isRebuild) (data || op.isData)

def sqliteSegments (ops : List Operation) : Except MigrateError (List Segment) :=
  sqliteSegmentsFrom rebuildOf ops 0 0 false false

/-- Each range starts where the one before it stops, from `a` to `b`. -/
def Consecutive : ℕ → List Segment → ℕ → Prop
  | a, [], b => a = b
  | a, seg :: segs, b => seg.start = a ∧ seg.start ≤ seg.stop ∧ Consecutive seg.stop segs b

def HoldsData (ops : List Operation) (start stop : ℕ) : Prop :=
  ∃ i op, start ≤ i ∧ i < stop ∧ ops[i]? = some op ∧ op.isData = true

def HoldsRebuild (ops : List Operation) (start stop : ℕ) : Prop :=
  ∃ i op, start ≤ i ∧ i < stop ∧ ops[i]? = some op ∧ rebuilds rebuildOf i op = .ok true

/-- The flag of a range says whether it rebuilds, and one that does runs no RunSQL. -/
structure Segment.Sound (ops : List Operation) (seg : Segment) : Prop where
  flag : seg.rebuilds = true ↔ HoldsRebuild rebuildOf ops seg.start seg.stop
  apart : ¬ (HoldsData ops seg.start seg.stop ∧ HoldsRebuild rebuildOf ops seg.start seg.stop)

variable {rebuildOf} {all : List Operation} {start i : ℕ}

private theorem holdsData_empty : ¬ HoldsData all i i := by
  rintro ⟨j, op, hfrom, hto, -⟩
  omega

private theorem holdsRebuild_empty : ¬ HoldsRebuild rebuildOf all i i := by
  rintro ⟨j, op, hfrom, hto, -⟩
  omega

private theorem holdsData_succ {op : Operation} (hop : all[i]? = some op) (hstart : start ≤ i) :
    HoldsData all start (i + 1) ↔ HoldsData all start i ∨ op.isData = true := by
  constructor
  · rintro ⟨j, op', hfrom, hto, hget, hdata⟩
    rcases Nat.lt_succ_iff_lt_or_eq.mp hto with hlt | rfl
    · exact .inl ⟨j, op', hfrom, hlt, hget, hdata⟩
    · exact .inr (Option.some.inj (hop.symm.trans hget) ▸ hdata)
  · rintro (⟨j, op', hfrom, hto, hget, hdata⟩ | hdata)
    · exact ⟨j, op', hfrom, by omega, hget, hdata⟩
    · exact ⟨i, op, hstart, by omega, hop, hdata⟩

private theorem holdsRebuild_succ {op : Operation} (hop : all[i]? = some op) (hstart : start ≤ i) :
    HoldsRebuild rebuildOf all start (i + 1) ↔
      HoldsRebuild rebuildOf all start i ∨ rebuilds rebuildOf i op = .ok true := by
  constructor
  · rintro ⟨j, op', hfrom, hto, hget, hrebuild⟩
    rcases Nat.lt_succ_iff_lt_or_eq.mp hto with hlt | rfl
    · exact .inl ⟨j, op', hfrom, hlt, hget, hrebuild⟩
    · exact .inr (Option.some.inj (hop.symm.trans hget) ▸ hrebuild)
  · rintro (⟨j, op', hfrom, hto, hget, hrebuild⟩ | hrebuild)
    · exact ⟨j, op', hfrom, by omega, hget, hrebuild⟩
    · exact ⟨i, op, hstart, by omega, hop, hrebuild⟩

private theorem rebuilds_data {op : Operation} (h : op.isData = true) :
    rebuilds rebuildOf i op = .ok false := by
  cases op with
  | data op => rfl
  | schema change => cases h
  | callback op => cases h

/-- What the loop knows of the open range before the `i`-th operation. -/
structure OpenRange (rebuildOf : ℕ → SchemaChange → Except MigrateError Bool) (all : List Operation)
    (start i : ℕ) (rebuilt data : Bool) : Prop where
  start_le : start ≤ i
  rebuilt_iff : rebuilt = true ↔ HoldsRebuild rebuildOf all start i
  data_iff : data = true ↔ HoldsData all start i
  apart : ¬ (data = true ∧ rebuilt = true)

theorem OpenRange.sound {rebuilt data : Bool} (h : OpenRange rebuildOf all start i rebuilt data) :
    Segment.Sound rebuildOf all ⟨start, i, rebuilt⟩ := by
  constructor
  case flag => exact h.rebuilt_iff
  case apart =>
    rintro ⟨hdata, hrebuild⟩
    exact h.apart ⟨h.data_iff.mpr hdata, h.rebuilt_iff.mpr hrebuild⟩

theorem OpenRange.opened {op : Operation} {isRebuild : Bool} (hop : all[i]? = some op)
    (hrebuild : rebuilds rebuildOf i op = .ok isRebuild) :
    OpenRange rebuildOf all i (i + 1) isRebuild op.isData := by
  constructor
  case start_le => exact Nat.le_succ i
  case rebuilt_iff =>
    rw [holdsRebuild_succ hop (Nat.le_refl i), hrebuild, or_iff_right holdsRebuild_empty]
    exact ⟨fun h => h ▸ rfl, Except.ok.inj⟩
  case data_iff =>
    rw [holdsData_succ hop (Nat.le_refl i), or_iff_right holdsData_empty]
  case apart =>
    rintro ⟨hdata, rfl⟩
    rw [rebuilds_data hdata] at hrebuild
    cases hrebuild

/-- A range that takes one more operation, of a kind that it may hold. -/
theorem OpenRange.extended {op : Operation} {rebuilt data isRebuild : Bool}
    (h : OpenRange rebuildOf all start i rebuilt data) (hop : all[i]? = some op)
    (hrebuild : rebuilds rebuildOf i op = .ok isRebuild)
    (hmeet : ((op.isData && rebuilt) || (isRebuild && data)) = false) :
    OpenRange rebuildOf all start (i + 1) (rebuilt || isRebuild) (data || op.isData) := by
  have hone := (OpenRange.opened hop hrebuild).apart
  constructor
  case start_le => exact Nat.le_succ_of_le h.start_le
  case rebuilt_iff =>
    rw [holdsRebuild_succ hop h.start_le, hrebuild, Bool.or_eq_true, h.rebuilt_iff]
    exact or_congr_right ⟨fun h => h ▸ rfl, Except.ok.inj⟩
  case data_iff =>
    rw [holdsData_succ hop h.start_le, Bool.or_eq_true, h.data_iff]
  case apart =>
    have hopen := h.apart
    simp only [Bool.or_eq_false_iff, Bool.and_eq_false_iff] at hmeet
    rw [Bool.or_eq_true, Bool.or_eq_true]
    rintro ⟨hdata | hdata, hre | hre⟩
    · exact hopen ⟨hdata, hre⟩
    · simp [hdata, hre] at hmeet
    · simp [hdata, hre] at hmeet
    · exact hone ⟨hdata, hre⟩

/-- The loop cuts what is left of the operations from the start of the open range on, and closes a
range before an operation of the other kind comes. -/
private theorem segmentsFrom_spec {ops : List Operation} {rebuilt data : Bool} {segs : List Segment}
    (h : sqliteSegmentsFrom rebuildOf ops i start rebuilt data = .ok segs) (hops : all.drop i = ops)
    (hi : i ≤ all.length) (hopen : OpenRange rebuildOf all start i rebuilt data) :
    Consecutive start segs all.length ∧ segs ≠ [] ∧ (∀ seg ∈ segs, seg.Sound rebuildOf all) ∧
      (start < all.length → ∀ seg ∈ segs, seg.start < seg.stop) := by
  induction ops generalizing i start rebuilt data segs with
  | nil =>
    have hend : i = all.length := by
      have hlen := congrArg List.length hops
      simp only [List.length_drop, List.length_nil] at hlen
      omega
    obtain rfl := Except.ok.inj h
    refine ⟨⟨rfl, hopen.start_le, hend⟩, List.cons_ne_nil _ _, ?_, ?_⟩
    · intro seg hseg
      obtain rfl := List.mem_singleton.mp hseg
      exact hopen.sound
    · intro hlt seg hseg
      obtain rfl := List.mem_singleton.mp hseg
      exact hend ▸ hlt
  | cons op ops ih =>
    have hop : all[i]? = some op := by
      rw [← List.head?_drop, hops]
      rfl
    have hlt : i < all.length := (List.getElem?_eq_some_iff.mp hop).1
    have hrest : all.drop (i + 1) = ops := by
      rw [← List.tail_drop, hops]
      rfl
    obtain ⟨isRebuild, hrebuild, h⟩ := bind_eq_ok.mp h
    split at h
    · rename_i hmeet
      obtain ⟨rest, hcut, h⟩ := bind_eq_ok.mp h
      obtain rfl := Except.ok.inj h
      obtain ⟨hcons, -, hsound, hsize⟩ := ih hcut hrest hlt (.opened hop hrebuild)
      -- The open range is not empty: it holds what the operation meets.
      have hsome : start < i := by
        by_contra hnot
        obtain rfl : start = i := Nat.le_antisymm hopen.start_le (Nat.le_of_not_lt hnot)
        simp only [Bool.or_eq_true, Bool.and_eq_true] at hmeet
        rcases hmeet with ⟨-, hrebuilt⟩ | ⟨-, hdata⟩
        · exact holdsRebuild_empty (hopen.rebuilt_iff.mp hrebuilt)
        · exact holdsData_empty (hopen.data_iff.mp hdata)
      refine ⟨⟨rfl, hopen.start_le, hcons⟩, List.cons_ne_nil _ _, ?_, ?_⟩
      · exact List.forall_mem_cons.mpr ⟨hopen.sound, hsound⟩
      · intro _
        exact List.forall_mem_cons.mpr ⟨hsome, hsize hlt⟩
    · rename_i hmeet
      exact ih h hrest hlt (hopen.extended hop hrebuild (Bool.of_not_eq_true hmeet))

theorem sqliteSegments_spec {segs : List Segment} (h : sqliteSegments rebuildOf all = .ok segs) :
    Consecutive 0 segs all.length ∧ segs ≠ [] ∧ (∀ seg ∈ segs, seg.Sound rebuildOf all) ∧
      (0 < all.length → ∀ seg ∈ segs, seg.start < seg.stop) := by
  apply segmentsFrom_spec h rfl (Nat.zero_le _)
  constructor
  case start_le => exact Nat.le_refl 0
  case rebuilt_iff => simpa using holdsRebuild_empty
  case data_iff => simpa using holdsData_empty
  case apart => simp

end Cut

end Rustango.Migrate
