import Rustango.Migrate.Closed
import Rustango.Migrate.MergeCorrect

/-!
# References across a merge

Each kind of object is merged on its own, so a name that one branch drops and an object of the
other branch still holds is no conflict: the merge succeeds and leaves the name dangling.
-/

namespace Rustango.Migrate

open Rustango.Keyed Rustango.ThreeWay

section Spec
variable (base ours theirs : SchemaSnapshot)

/-- `other` dropped what `r` names since the base. The column a junction end references is a
primary key by count, so for it the merged columns decide. -/
def Lost (other : SchemaSnapshot) : Ref → Prop
  | .table t => base.Has (.table t) ∧ ¬ other.Has (.table t)
  | .column t c => base.Has (.column t c) ∧ ¬ other.Has (.column t c)
  | .key t => ¬ SchemaSnapshot.HasEnd fun c =>
      merged (base.columnAt t c) (ours.columnAt t c) (theirs.columnAt t c)

/-- The version of the object that the merge takes names nothing the other branch dropped. -/
def NoneLost {α : Type} [BEq α] (slot : SchemaSnapshot → Option α) (refs : α → List Ref) : Prop :=
  (∀ x, slot theirs = some x → (slot theirs == slot base) = false →
    ∀ r ∈ refs x, ¬ Lost base ours theirs ours r) ∧
  ∀ x, slot ours = some x → (slot theirs == slot base) = true →
    ∀ r ∈ refs x, ¬ Lost base ours theirs theirs r

/-- No object of either branch names what the other branch dropped. -/
structure NoCrossDrop : Prop where
  columns : ∀ t c, NoneLost base ours theirs (·.columnAt t c) FieldSnapshot.refs
  compositeFks : ∀ t n,
    NoneLost base ours theirs (·.compositeFkAt t n) (CompositeFkSnapshot.refs t)
  m2mTables : ∀ n, NoneLost base ours theirs (·.m2mTable n) M2MTableSnapshot.refs
  indexes : ∀ n, NoneLost base ours theirs (·.index n) IndexSnapshot.refs
  checks : ∀ n, NoneLost base ours theirs (·.check n) CheckSnapshot.refs
  excludes : ∀ n, NoneLost base ours theirs (·.exclude n) ExclusionSnapshot.refs

end Spec

section Survival

private theorem merged_isSome_theirs {α : Type} [BEq α] [LawfulBEq α] {b o t : Option α}
    (hc : ¬ Conflict b o t) (ht : t.isSome) :
    (merged b o t).isSome ↔ ¬ (b.isSome ∧ ¬ o.isSome) := by
  by_cases h : (t == b) = true
  · rw [merged_of_beq h]
    obtain rfl := eq_of_beq h
    cases o <;> simp [ht]
  · rw [Bool.not_eq_true] at h
    rw [merged_of_not_beq h]
    refine iff_of_true ht fun ⟨hb, ho⟩ => hc ⟨h, ?_, ?_⟩
    · cases b <;> cases o <;> simp_all
    · cases t <;> cases o <;> simp_all

private theorem merged_isSome_ours {α : Type} [BEq α] [LawfulBEq α] {b o t : Option α}
    (ho : o.isSome) : (merged b o t).isSome ↔ ¬ (b.isSome ∧ ¬ t.isSome) := by
  by_cases h : (t == b) = true
  · rw [merged_of_beq h]
    obtain rfl := eq_of_beq h
    cases t <;> simp [ho]
  · rw [Bool.not_eq_true] at h
    rw [merged_of_not_beq h]
    cases t with
    | some t => simp
    | none =>
      cases b with
      | some b => simp
      | none => simp at h

variable {base ours theirs m : SchemaSnapshot}

private theorem merged_columns (hm : Merges base ours theirs m) (t : String) :
    m.columnAt t = fun c => merged (base.columnAt t c) (ours.columnAt t c) (theirs.columnAt t c) :=
  funext (hm.columns t)

private theorem column_not_conflict (hn : ¬ OtherConflict base ours theirs) (t c : String) :
    ¬ Conflict (base.columnAt t c) (ours.columnAt t c) (theirs.columnAt t c) :=
  fun h => hn (Or.inr (Or.inr (Or.inl ⟨t, c, h⟩)))

private theorem has_iff_theirs (hm : Merges base ours theirs m) (hu : m.UniqueKeys)
    (hn : ¬ OtherConflict base ours theirs) {r : Ref} (hr : theirs.Has r) :
    m.Has r ↔ ¬ Lost base ours theirs ours r := by
  cases r with
  | table t =>
    have ht : (theirs.table t).isSome = true := hr
    simp only [SchemaSnapshot.Has, Lost, hm.tables t, ht, merged]
    cases (base.table t).isSome <;> cases (ours.table t).isSome <;> simp
  | column t c =>
    simp only [SchemaSnapshot.Has, Lost, hm.columns t c]
    exact merged_isSome_theirs (column_not_conflict hn t c) hr
  | key t => rw [hu.has_key_iff, merged_columns hm t, Lost, not_not]

private theorem has_iff_ours (hm : Merges base ours theirs m) (hu : m.UniqueKeys)
    {r : Ref} (hr : ours.Has r) : m.Has r ↔ ¬ Lost base ours theirs theirs r := by
  cases r with
  | table t =>
    have ho : (ours.table t).isSome = true := hr
    simp only [SchemaSnapshot.Has, Lost, hm.tables t, ho, merged]
    cases (base.table t).isSome <;> cases (theirs.table t).isSome <;> simp
  | column t c =>
    simp only [SchemaSnapshot.Has, Lost, hm.columns t c]
    exact merged_isSome_ours hr
  | key t => rw [hu.has_key_iff, merged_columns hm t, Lost, not_not]

private theorem noneLost_iff {α : Type} [BEq α] (slot : SchemaSnapshot → Option α)
    (refs : α → List Ref) (hm : Merges base ours theirs m) (hu : m.UniqueKeys)
    (hn : ¬ OtherConflict base ours theirs)
    (hslot : slot m = merged (slot base) (slot ours) (slot theirs))
    (ho : ∀ x, slot ours = some x → ∀ r ∈ refs x, ours.Has r)
    (ht : ∀ x, slot theirs = some x → ∀ r ∈ refs x, theirs.Has r) :
    (∀ x, slot m = some x → ∀ r ∈ refs x, m.Has r) ↔ NoneLost base ours theirs slot refs := by
  unfold NoneLost
  by_cases h : (slot theirs == slot base) = true
  · rw [hslot, merged_of_beq h]
    simp only [h, Bool.true_eq_false, false_imp_iff, implies_true, true_and, true_imp_iff]
    exact forall₄_congr fun x hx r hr => has_iff_ours hm hu (ho x hx r hr)
  · rw [Bool.not_eq_true] at h
    rw [hslot, merged_of_not_beq h]
    simp only [h, Bool.false_eq_true, false_imp_iff, implies_true, and_true, true_imp_iff]
    exact forall₄_congr fun x hx r hr => has_iff_theirs hm hu hn (ht x hx r hr)

end Survival

section Branch
variable {base ours theirs : SchemaSnapshot}
variable (hb : base.UniqueKeys) (ho : ours.UniqueKeys) (ht : theirs.UniqueKeys)
include hb ho ht

private theorem merges_closed_iff (hoc : ours.Closed) (htc : theirs.Closed) {m : SchemaSnapshot}
    (h : mergeBranch ours base theirs = .ok m) :
    m.Closed ↔ NoCrossDrop base ours theirs := by
  have hm := mergeBranch_merges hb ho ht h
  have hu := mergeBranch_uniqueKeys hb ho ht h
  have hn : ¬ OtherConflict base ours theirs := (mergeBranch_ok_iff hb ht).mp ⟨m, h⟩
  have hoa := ho.closed_iff.mp hoc
  have hta := ht.closed_iff.mp htc
  have hcol := fun t c => noneLost_iff (·.columnAt t c) FieldSnapshot.refs hm hu hn (hm.columns t c)
     (hoa.columns t c) (hta.columns t c)
  have hfk := fun t n => noneLost_iff (·.compositeFkAt t n) (CompositeFkSnapshot.refs t) hm hu hn
    (hm.compositeFks t n) (hoa.compositeFks t n)
    (hta.compositeFks t n)
  have hm2m := fun n => noneLost_iff (·.m2mTable n) M2MTableSnapshot.refs hm hu hn (hm.m2mTables n)
    (hoa.m2mTables n) (hta.m2mTables n)
  have hidx := fun n => noneLost_iff (·.index n) IndexSnapshot.refs hm hu hn (hm.indexes n)
    (hoa.indexes n) (hta.indexes n)
  have hchk := fun n => noneLost_iff (·.check n) CheckSnapshot.refs hm hu hn (hm.checks n)
    (hoa.checks n) (hta.checks n)
  have hexc := fun n => noneLost_iff (·.exclude n) ExclusionSnapshot.refs hm hu hn (hm.excludes n)
    (hoa.excludes n) (hta.excludes n)
  rw [hu.closed_iff]
  constructor
  · intro hc
    exact ⟨fun t c => (hcol t c).mp (hc.columns t c),
      fun t n => (hfk t n).mp (hc.compositeFks t n), fun n => (hm2m n).mp (hc.m2mTables n),
      fun n => (hidx n).mp (hc.indexes n), fun n => (hchk n).mp (hc.checks n),
      fun n => (hexc n).mp (hc.excludes n)⟩
  · intro hd
    exact ⟨fun t c => (hcol t c).mpr (hd.columns t c),
      fun t n => (hfk t n).mpr (hd.compositeFks t n), fun n => (hm2m n).mpr (hd.m2mTables n),
      fun n => (hidx n).mpr (hd.indexes n), fun n => (hchk n).mpr (hd.checks n),
      fun n => (hexc n).mpr (hd.excludes n)⟩

/-- Merging closed branches gives a closed snapshot exactly when a conflict refuses the merge or
no object of one branch names what the other branch dropped. -/
theorem mergeBranch_closed_iff (hoc : ours.Closed) (htc : theirs.Closed) :
    (∀ m, mergeBranch ours base theirs = .ok m → m.Closed) ↔
      OtherConflict base ours theirs ∨ NoCrossDrop base ours theirs := by
  by_cases hc : OtherConflict base ours theirs
  · refine iff_of_true (fun m hm => ?_) (Or.inl hc)
    exact absurd hc ((mergeBranch_ok_iff hb ht).mp ⟨m, hm⟩)
  · obtain ⟨m, hm⟩ : ∃ m, mergeBranch ours base theirs = .ok m := (mergeBranch_ok_iff hb ht).mpr hc
    rw [or_iff_right hc, ← merges_closed_iff hb ho ht hoc htc hm]
    constructor
    · exact fun h => h m hm
    · intro h m' hm'
      obtain rfl : m = m' := Except.ok.inj (hm.symm.trans hm')
      exact h

end Branch

section Dangling

private def column (c : String) (fk : Option RelationSnapshot) : FieldSnapshot :=
  ⟨c, c, "i64", false, fk.isNone, none, none, none, none, false, false, false, none, none, fk⟩

private def author : TableSnapshot := ⟨"author", "Author", [column "id" none], [], none⟩

private def book : TableSnapshot :=
  ⟨"book", "Book", [column "id" none, column "author_id" (some ⟨"fk", "author", "id", none⟩)], [],
    none⟩

private def library (tables : List TableSnapshot) : SchemaSnapshot :=
  { SchemaSnapshot.empty with tables := tables }

theorem mergeBranch_closed_iff_author :
    (∀ m, mergeBranch (library [author]) (library [author]) (library [author, book]) = .ok m →
      m.Closed) ↔
    OtherConflict (library [author]) (library [author]) (library [author, book]) ∨
      NoCrossDrop (library [author]) (library [author]) (library [author, book]) :=
  mergeBranch_closed_iff (by decide) (by decide) (by decide) (by decide) (by decide)

/-- Ours drops a table, theirs adds a foreign key to it: the merge keeps the key alone. -/
theorem mergeBranch_dangles :
    (library [author]).UniqueKeys ∧ (library []).UniqueKeys ∧
      (library [author, book]).UniqueKeys ∧ (library [author]).Closed ∧ (library []).Closed ∧
      (library [author, book]).Closed ∧
      ¬ ∀ m, mergeBranch (library []) (library [author]) (library [author, book]) = .ok m →
        m.Closed := by
  refine ⟨by decide, by decide, by decide, by decide, by decide, by decide, fun h => ?_⟩
  have hm : mergeBranch (library []) (library [author]) (library [author, book]) =
      .ok (library [book.sortFields]) := by decide
  exact absurd (h _ hm) (by decide)

end Dangling

end Rustango.Migrate
