import Mathlib.Data.List.Sort
import Rustango.Query.Joins

/-!
# The order of a query

`ORDER BY` is total and transitive, so every list of rows has an arrangement in it. An order that
names no joined table depends on the base rows alone.
-/

namespace Rustango.Query

open Rustango.Firsts

variable {L : Lang}

section Order
variable (m : Meaning L) (table : String) (draw : Env L → Nat)

theorem OrderItem.le_total (i : OrderItem L) (a b : Env L) :
    i.le m table draw a b ∨ i.le m table draw b a := by
  cases i with
  | column c desc nulls => exact m.le_total desc nulls _ _
  | expr x desc nulls => exact m.le_total desc nulls _ _
  | random => exact Nat.le_total _ _

theorem OrderItem.le_trans (i : OrderItem L) {a b c : Env L} (hab : i.le m table draw a b)
    (hbc : i.le m table draw b c) : i.le m table draw a c := by
  cases i with
  | column _ desc nulls => exact m.le_trans desc nulls _ _ _ hab hbc
  | expr x desc nulls => exact m.le_trans desc nulls _ _ _ hab hbc
  | random => exact Nat.le_trans hab hbc

theorem ordered_total (items : List (OrderItem L)) (a b : Env L) :
    ordered m table draw items a b ∨ ordered m table draw items b a := by
  induction items with
  | nil => exact Or.inl trivial
  | cons i is ih =>
    by_cases hab : i.le m table draw a b
    · by_cases hba : i.le m table draw b a
      · rcases ih with h | h
        · exact Or.inl ⟨hab, fun _ => h⟩
        · exact Or.inr ⟨hba, fun _ => h⟩
      · exact Or.inl ⟨hab, fun h => absurd h hba⟩
    · have hba := (i.le_total m table draw a b).resolve_left hab
      exact Or.inr ⟨hba, fun h => absurd h hab⟩

theorem ordered_trans (items : List (OrderItem L)) (a b c : Env L)
    (hab : ordered m table draw items a b) (hbc : ordered m table draw items b c) :
    ordered m table draw items a c := by
  induction items with
  | nil => trivial
  | cons i is ih =>
    refine ⟨i.le_trans m table draw hab.1 hbc.1, fun hca => ?_⟩
    have hba := i.le_trans m table draw hbc.1 hca
    have hcb := i.le_trans m table draw hca hab.1
    exact ih (hab.2 hba) (hbc.2 hcb)

theorem exists_arrangement (items : List (OrderItem L)) (l : List (Env L)) :
    ∃ l', l.Perm l' ∧ l'.Pairwise (ordered m table draw items) := by
  classical
  have : Std.Total (ordered m table draw items) := ⟨ordered_total m table draw items⟩
  have : IsTrans (Env L) (ordered m table draw items) := ⟨ordered_trans m table draw items⟩
  exact ⟨l.insertionSort (ordered m table draw items), (List.perm_insertionSort _ l).symm,
    List.pairwise_insertionSort _ l⟩

variable {m table draw}

theorem ordered_append {items more : List (OrderItem L)} {a b : Env L}
    (h : ordered m table draw (items ++ more) a b) : ordered m table draw items a b := by
  induction items with
  | nil => trivial
  | cons i is ih => exact ⟨h.1, fun hba => ih (h.2 hba)⟩

theorem ordered_breakTies {pk : String} {items : List (OrderItem L)} {a b : Env L}
    (h : ordered m table draw (breakTies pk items) a b) : ordered m table draw items a b := by
  unfold breakTies at h
  split at h
  · exact h
  · exact ordered_append h

theorem Expr.value_base {x : Expr L} (h : x.reads m table = []) (e : Env L) :
    x.value m table e = x.value m table ⟨e.main, []⟩ := by
  cases x with
  | literal v => rfl
  | column c => rfl
  | aliasedColumn a c =>
    have ha : a = table := by
      by_contra hne
      simp [Expr.reads, hne] at h
    simp [Expr.value, Env.row, ha]
  | scalar x => exact m.scalar_base x e h

/-- The base row of a row, without the joined ones. -/
def Env.alone (e : Env L) : Env L := ⟨e.main, []⟩

theorem ordered_alone {items : List (OrderItem L)} (hreads : ∀ i ∈ items, i.reads m table = [])
    (a b : Env L) : ordered m table (fun e => draw e.alone) items a b ↔
      ordered m table draw items a.alone b.alone := by
  induction items with
  | nil => exact Iff.rfl
  | cons i is ih =>
    have hitem : ∀ a b : Env L, i.le m table (fun e => draw e.alone) a b ↔
        i.le m table draw a.alone b.alone := by
      intro a b
      cases i with
      | column c desc nulls => exact Iff.rfl
      | expr x desc nulls =>
        have hx : x.reads m table = [] := hreads _ List.mem_cons_self
        rw [OrderItem.le, OrderItem.le, Expr.value_base hx a, Expr.value_base hx b]
        rfl
      | random => exact Iff.rfl
    have htail := ih fun j hj => hreads j (List.mem_cons_of_mem i hj)
    rw [ordered, ordered, hitem a b, hitem b a, htail]

private theorem isColumn_eq_true {i : OrderItem L} {c : String} (h : isColumn i c = true) :
    ∃ desc nulls, i = .column c desc nulls := by
  cases i with
  | column c' desc nulls =>
    obtain rfl := of_decide_eq_true h
    exact ⟨desc, nulls, rfl⟩
  | expr x desc nulls => cases h
  | random => cases h

/-- The order of a query that passed the check of `distinct_on` starts with its columns. -/
theorem leading_of_check {model : ModelSchema L} {items : List (OrderItem L)} {cols : List String}
    (h : checkDistinct model items (some (.on_ cols)) = .ok ()) :
    ∃ lead rest, items = lead ++ rest ∧ List.Forall₂ (fun c i => isColumn i c = true) cols lead := by
  rw [checkDistinct] at h
  split at h
  · cases h
  split at h
  · cases h
  split at h
  · cases h
  rename_i hcheck
  rw [not_or, not_lt, not_not] at hcheck
  obtain ⟨hlen, hall⟩ := hcheck
  refine ⟨items.take cols.length, items.drop cols.length, (List.take_append_drop _ _).symm, ?_⟩
  clear * - hlen hall
  induction cols generalizing items with
  | nil => exact List.Forall₂.nil
  | cons c cs ih =>
    cases items with
    | nil => simp at hlen
    | cons i is =>
      rw [List.length_cons, List.length_cons, Nat.add_le_add_iff_right] at hlen
      rw [List.zip_cons_cons, List.all_cons, Bool.and_eq_true] at hall
      exact List.Forall₂.cons hall.1 (ih hlen hall.2)

/-- Two rows agree on the leading columns when neither comes before the other by them. -/
theorem agree_iff_ordered {cols : List String} {lead : List (OrderItem L)}
    (h : List.Forall₂ (fun c i => isColumn i c = true) cols lead) (a b : Env L) :
    agree m cols a b = true ↔ ordered m table draw lead a b ∧ ordered m table draw lead b a := by
  induction h with
  | nil => simp [agree, ordered]
  | @cons c i cs is hc _ ih =>
    obtain ⟨desc, nulls, rfl⟩ := isColumn_eq_true hc
    have htie := m.tied_iff desc nulls (columnOf m a.main c) (columnOf m b.main c)
    rw [agree, List.all_cons, Bool.and_eq_true, htie]
    constructor
    · intro ⟨⟨hab, hba⟩, hrest⟩
      obtain ⟨hab', hba'⟩ := ih.mp hrest
      exact ⟨⟨hab, fun _ => hab'⟩, ⟨hba, fun _ => hba'⟩⟩
    · intro ⟨⟨hab, hab'⟩, ⟨hba, hba'⟩⟩
      exact ⟨⟨hab, hba⟩, ih.mpr ⟨hab' hba, hba' hab⟩⟩

theorem ordered_columns {cols : List String} {lead : List (OrderItem L)} {draw' : Env L → Nat}
    (h : List.Forall₂ (fun c i => isColumn i c = true) cols lead) {a b a' b' : Env L}
    (ha : a.main = a'.main) (hb : b.main = b'.main) (hab : ordered m table draw lead a b) :
    ordered m table draw' lead a' b' := by
  induction h with
  | nil => trivial
  | cons hc _ ih =>
    obtain ⟨desc, nulls, rfl⟩ := isColumn_eq_true hc
    simp only [ordered, OrderItem.le, ha, hb] at hab ⊢
    exact ⟨hab.1, fun hba => ih (hab.2 hba)⟩

end Order

end Rustango.Query
