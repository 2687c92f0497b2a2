import Mathlib

/-!
# Pages of a list

`Paginator` and `Page` of `pagination.rs`. The additions, subtractions and products that the source leaves
unchecked are `none` where they overflow.
-/

namespace Rustango.Pagination

def usizeMax : Nat := 2 ^ 64 - 1

def checkedAdd (a b : Nat) : Option Nat := if a + b ≤ usizeMax then some (a + b) else none

def checkedSub (a b : Nat) : Option Nat := if b ≤ a then some (a - b) else none

def checkedMul (a b : Nat) : Option Nat := if a * b ≤ usizeMax then some (a * b) else none

def saturatingAdd (a b : Nat) : Nat := min (a + b) usizeMax

structure Paginator where
  count : Nat
  perPage : Nat
  orphans : Nat := 0
  allowEmptyFirstPage : Bool := true
  count_le : count ≤ usizeMax
  perPage_pos : 0 < perPage
  perPage_le : perPage ≤ usizeMax

namespace Paginator

/-- `per_page` is clamped to at least 1. -/
def new (count perPage : Nat) (hcount : count ≤ usizeMax) (hperPage : perPage ≤ usizeMax) : Paginator where
  count := count
  perPage := max perPage 1
  count_le := hcount
  perPage_pos := by omega
  perPage_le := by
    have hmax : 1 ≤ usizeMax := by decide
    omega

def numPages (p : Paginator) : Nat :=
  if p.count = 0 then p.allowEmptyFirstPage.toNat
  else (max (p.count - p.orphans) 1 + p.perPage - 1) / p.perPage

end Paginator

structure Page where
  number : Nat
  paginator : Paginator

inductive PaginatorError
  | pageNotAnInteger
  | emptyPage (number : Nat)
  | outOfRange (requested last : Nat)

namespace Paginator

def validateNumber (p : Paginator) (number : Nat) : Except PaginatorError Nat :=
  if number < 1 then .error .pageNotAnInteger
  else if p.numPages = 0 then .error (.emptyPage number)
  else if p.numPages < number then .error (.outOfRange number p.numPages)
  else .ok number

def page (p : Paginator) (number : Nat) : Except PaginatorError Page :=
  (p.validateNumber number).map fun number => ⟨number, p⟩

/-- A number too small is the first page, one too large the last. -/
def getPage (p : Paginator) (number : Int) : Page where
  number := if number < 1 then 1 else min number.toNat (max p.numPages 1)
  paginator := p

end Paginator

namespace Page

def offset (page : Page) : Option Nat := do
  checkedMul (← checkedSub page.number 1) page.paginator.perPage

def startIndex (page : Page) : Option Nat := do
  if page.paginator.count = 0 then return 0
  checkedAdd (← checkedMul (← checkedSub page.number 1) page.paginator.perPage) 1

def endIndex (page : Page) : Option Nat :=
  if page.paginator.count = 0 then some 0
  else if page.number = page.paginator.numPages then some page.paginator.count
  else checkedMul page.number page.paginator.perPage

def limit (page : Page) : Option Nat := do
  if 0 < page.paginator.count ∧ page.number = page.paginator.numPages then
    checkedSub page.paginator.count (← page.offset)
  else return page.paginator.perPage

/-- `&items[start..end]`, which is no slice where the bounds are out of order. -/
def slice {α : Type} (page : Page) (items : List α) : Option (List α) := do
  let start := min (← page.offset) items.length
  let stop := min (← checkedAdd start (← page.limit)) items.length
  if start ≤ stop then return (items.take stop).drop start else none

end Page

namespace Paginator
variable (p : Paginator)

/-- The rows of a page: the last one takes what is left. -/
def pageSize (k : Nat) : Nat :=
  if p.count = 0 then 0 else if k = p.numPages then p.count - (p.numPages - 1) * p.perPage else p.perPage

theorem numPages_bounds (h : 0 < p.count) : 1 ≤ p.numPages ∧ (p.numPages - 1) * p.perPage < p.count ∧
    p.count ≤ p.numPages * p.perPage + p.orphans := by
  have hpos := p.perPage_pos
  unfold numPages
  rw [if_neg (by omega)]
  generalize hhits : max (p.count - p.orphans) 1 = hits
  have hbound : 1 ≤ hits ∧ hits ≤ p.count ∧ p.count ≤ hits + p.orphans := by omega
  have hdiv := Nat.div_add_mod (hits + p.perPage - 1) p.perPage
  have hmod := Nat.mod_lt (hits + p.perPage - 1) hpos
  generalize (hits + p.perPage - 1) / p.perPage = pages at hdiv ⊢
  rw [Nat.mul_comm] at hdiv
  cases pages with
  | zero => omega
  | succ pages =>
    rw [Nat.succ_mul] at hdiv ⊢
    simp only [Nat.add_sub_cancel]
    omega

theorem numPages_le : p.numPages ≤ max p.count 1 := by
  by_cases h : p.count = 0
  · unfold numPages
    rw [if_pos h]
    cases p.allowEmptyFirstPage <;> simp
  · have hbounds := p.numPages_bounds (by omega)
    have hpos := p.perPage_pos
    have hle : p.numPages - 1 ≤ (p.numPages - 1) * p.perPage := Nat.le_mul_of_pos_right _ hpos
    omega

theorem before_last (h : 0 < p.count) (k : Nat) (hk : k < p.numPages) : k * p.perPage < p.count := by
  have hbounds := p.numPages_bounds h
  have hle : k * p.perPage ≤ (p.numPages - 1) * p.perPage := Nat.mul_le_mul_right _ (by omega)
  omega

section Numbered
variable (k : Nat) (hk : 1 ≤ k) (hlast : k ≤ p.numPages)
include hk hlast

theorem offset_eq : (Page.mk k p).offset = some ((k - 1) * p.perPage) := by
  have hmax := p.count_le
  have hsmall : (k - 1) * p.perPage ≤ usizeMax := by
    by_cases h : p.count = 0
    · have hpages := p.numPages_le
      have hfirst : k - 1 = 0 := by omega
      simp [hfirst]
    · have hbefore := p.before_last (by omega) (k - 1) (by omega)
      omega
  simp [Page.offset, checkedSub, checkedMul, hk, hsmall]

theorem startIndex_eq : (Page.mk k p).startIndex =
    some (if p.count = 0 then 0 else (k - 1) * p.perPage + 1) := by
  have hmax := p.count_le
  by_cases h : p.count = 0
  · simp [Page.startIndex, h]
  · have hbefore := p.before_last (by omega) (k - 1) (by omega)
    have hsmall : (k - 1) * p.perPage ≤ usizeMax := by omega
    have hnext : (k - 1) * p.perPage < usizeMax := by omega
    simp [Page.startIndex, checkedSub, checkedMul, checkedAdd, h, hk, hsmall, hnext]

theorem endIndex_eq : (Page.mk k p).endIndex =
    some (if p.count = 0 then 0 else (k - 1) * p.perPage + p.pageSize k) := by
  have hmax := p.count_le
  unfold Page.endIndex pageSize
  by_cases h : p.count = 0
  · simp [h]
  · by_cases hend : k = p.numPages
    · have hbounds := p.numPages_bounds (by omega)
      simp only [h, hend, if_false, if_true]
      congr 1
      omega
    · have hbefore := p.before_last (by omega) k (by omega)
      have hsmall : k * p.perPage ≤ usizeMax := by omega
      have hstep : (k - 1) * p.perPage + p.perPage = k * p.perPage := by
        rw [← Nat.succ_mul, Nat.succ_eq_add_one, Nat.sub_add_cancel hk]
      simp only [h, hend, if_false, checkedMul, hsmall, if_true, hstep]

theorem limit_eq : (Page.mk k p).limit = some (if p.count = 0 then p.perPage else p.pageSize k) := by
  unfold Page.limit pageSize
  by_cases h : p.count = 0
  · simp [h]
  · by_cases hend : k = p.numPages
    · have hbounds := p.numPages_bounds (by omega)
      have hoffset := p.offset_eq k hk hlast
      have hpos : 0 < p.count := by omega
      have hbefore : (k - 1) * p.perPage ≤ p.count := by
        rw [hend]
        omega
      rw [if_pos ⟨hpos, hend⟩, hoffset, if_neg h, if_neg h, if_pos hend, ← hend]
      simp [checkedSub, hbefore]
    · simp [h, hend]

theorem rows_le (h : 0 < p.count) : (k - 1) * p.perPage + p.pageSize k ≤ p.count := by
  have hbounds := p.numPages_bounds h
  unfold pageSize
  rw [if_neg (by omega)]
  split
  · rename_i hend
    rw [hend]
    omega
  · have hbefore := p.before_last h k (by omega)
    have hstep : (k - 1) * p.perPage + p.perPage = k * p.perPage := by
      rw [← Nat.succ_mul, Nat.succ_eq_add_one, Nat.sub_add_cancel hk]
    omega

theorem slice_eq {α : Type} (items : List α) (hitems : items.length = p.count) :
    (Page.mk k p).slice items = some ((items.drop ((k - 1) * p.perPage)).take (p.pageSize k)) := by
  have hmax := p.count_le
  have hperPage := p.perPage_le
  unfold Page.slice
  rw [p.offset_eq k hk hlast, p.limit_eq k hk hlast]
  by_cases h : p.count = 0
  · have hnil : items = [] := List.eq_nil_of_length_eq_zero (by omega)
    simp [hnil, h, checkedAdd, hperPage]
  · have hrows := p.rows_le k hk hlast (by omega)
    have hstart : min ((k - 1) * p.perPage) p.count = (k - 1) * p.perPage := by omega
    have hsum : (k - 1) * p.perPage + p.pageSize k ≤ usizeMax := by omega
    have hstop : min ((k - 1) * p.perPage + p.pageSize k) p.count = (k - 1) * p.perPage + p.pageSize k := by omega
    simp [h, hitems, hstart, checkedAdd, hsum, hstop, List.take_add]

end Numbered

/-- What the rows of the pages are. -/
def rowsOf {α : Type} (items : List α) (k : Nat) : List α := (items.drop ((k - 1) * p.perPage)).take (p.pageSize k)

theorem flatMap_rowsOf {α : Type} (items : List α) (pages : Nat) (hpages : pages < p.numPages)
    (hcount : 0 < p.count) :
    (List.range' 1 pages).flatMap (p.rowsOf items) = items.take (pages * p.perPage) := by
  induction pages with
  | zero => simp
  | succ pages ih =>
    have hsize : p.pageSize (1 + pages) = p.perPage := by
      unfold pageSize
      rw [if_neg (by omega), if_neg (by omega)]
    have hfirst : 1 + pages - 1 = pages := by omega
    rw [List.range'_1_concat, List.flatMap_append, ih (by omega), Nat.add_mul, Nat.one_mul, List.take_add,
      List.flatMap_singleton, rowsOf, hsize, hfirst]

theorem flatMap_rowsOf_all {α : Type} (items : List α) (hitems : items.length = p.count) :
    (List.range' 1 p.numPages).flatMap (p.rowsOf items) = items := by
  by_cases h : p.count = 0
  · have hnil : items = [] := List.eq_nil_of_length_eq_zero (by omega)
    simp [hnil, rowsOf]
  · have hbounds := p.numPages_bounds (by omega)
    have hpages : p.numPages = p.numPages - 1 + 1 := by omega
    have hlast : 1 + (p.numPages - 1) = p.numPages := by omega
    have hsize : p.pageSize p.numPages = p.count - (p.numPages - 1) * p.perPage := by simp [pageSize, h]
    rw [hpages, List.range'_1_concat, List.flatMap_append, p.flatMap_rowsOf items _ (by omega) (by omega),
      List.flatMap_singleton, hlast, rowsOf, hsize, ← hitems, ← List.length_drop, List.take_length,
      List.take_append_drop]

/-- The pages part the rows, and the numbers of each page say which rows it has. -/
structure Parts : Prop where
  pages : ∀ k, p.page k = .ok ⟨k, p⟩ ↔ 1 ≤ k ∧ k ≤ p.numPages
  clamped : ∀ n : Int, 1 ≤ (p.getPage n).number ∧ (p.getPage n).number ≤ max p.numPages 1
  whole : ∀ (α : Type) (items : List α), items.length = p.count →
    ∃ rows, (List.range' 1 p.numPages).mapM (fun k => (Page.mk k p).slice items) = some rows ∧ rows.flatten = items
  described : ∀ k, 1 ≤ k → k ≤ p.numPages → ∃ offset limit size, (Page.mk k p).offset = some offset ∧
    (Page.mk k p).limit = some limit ∧
    (Page.mk k p).startIndex = some (if p.count = 0 then 0 else offset + 1) ∧
    (Page.mk k p).endIndex = some (if p.count = 0 then 0 else offset + size) ∧
    (∀ (α : Type) (items : List α), items.length = p.count →
      (Page.mk k p).slice items = some ((items.drop offset).take limit) ∧
        ((items.drop offset).take limit).length = size) ∧
    (k < p.numPages → size = p.perPage) ∧
    (k = p.numPages → 0 < p.count → 1 ≤ size ∧ size ≤ p.perPage + p.orphans)

theorem mapM_some {α β : Type} (f : α → Option β) (g : α → β) (l : List α) (h : ∀ a ∈ l, f a = some (g a)) :
    l.mapM f = some (l.map g) := by
  induction l with
  | nil => rfl
  | cons a l ih =>
    rw [List.mapM_cons, h a List.mem_cons_self, ih fun b hb => h b (List.mem_cons_of_mem _ hb)]
    rfl

theorem page_eq_ok (k : Nat) : p.page k = .ok ⟨k, p⟩ ↔ 1 ≤ k ∧ k ≤ p.numPages := by
  unfold page validateNumber
  constructor
  · intro h
    split at h
    · cases h
    split at h
    · cases h
    split at h
    · cases h
    · omega
  · intro h
    rw [if_neg (by omega), if_neg (by omega), if_neg (by omega)]
    rfl

theorem parts : p.Parts := by
  constructor
  · exact p.page_eq_ok
  · intro n
    simp only [getPage]
    split <;> omega
  · intro α items hitems
    refine ⟨(List.range' 1 p.numPages).map (p.rowsOf items), ?_, ?_⟩
    · apply mapM_some
      intro k hk
      have hrange := List.mem_range'_1.1 hk
      exact p.slice_eq k (by omega) (by omega) items hitems
    · rw [← List.flatMap_def]
      exact p.flatMap_rowsOf_all items hitems
  · intro k hk hlast
    refine ⟨(k - 1) * p.perPage, _, p.pageSize k, p.offset_eq k hk hlast, p.limit_eq k hk hlast,
      p.startIndex_eq k hk hlast, p.endIndex_eq k hk hlast, ?_, ?_, ?_⟩
    · intro α items hitems
      rw [p.slice_eq k hk hlast items hitems]
      by_cases h : p.count = 0
      · have hnil : items = [] := List.eq_nil_of_length_eq_zero (by omega)
        simp [hnil, pageSize, h]
      · have hrows := p.rows_le k hk hlast (by omega)
        rw [if_neg h]
        refine ⟨rfl, ?_⟩
        rw [List.length_take, List.length_drop, hitems]
        omega
    · intro hbefore
      have hcount : p.count ≠ 0 := by
        intro h
        have hpages := p.numPages_le
        omega
      simp only [pageSize, if_neg hcount, if_neg (Nat.ne_of_lt hbefore)]
    · intro hend hcount
      have hbounds := p.numPages_bounds hcount
      have hstep : (p.numPages - 1) * p.perPage + p.perPage = p.numPages * p.perPage := by
        rw [← Nat.succ_mul, Nat.succ_eq_add_one, Nat.sub_add_cancel hbounds.1]
      simp only [pageSize, if_neg (Nat.ne_of_gt hcount), if_pos hend]
      omega

end Paginator

end Rustango.Pagination
