import Rustango.Query.Page

/-!
# The total of a page

The total is the number of rows of the queryset without its outermost slice, apart from what
`TotalHolds` names.
-/

namespace Rustango.Query

open Rustango.Firsts

variable {L : Lang} {m : Meaning L} {db : Database L} {q : SelectQuery L}

private theorem offsetCount_eq_zero (h : ¬ q.pastFirst) : offsetCount q.outerOffset = 0 := by
  rw [SelectQuery.pastFirst] at h
  rw [offsetCount]
  omega

theorem unsliced_compound : q.unsliced.compound = q.compound := by
  unfold SelectQuery.unsliced
  split <;> rfl

private theorem rowCount_plain (hc : q.compound = []) {n : Nat} : q.RowCount m db n ↔
    q.InScope m ∧ n = (q.dedupFetched m (q.matching m db)).length := by
  have hunsliced : q.unsliced = { q with limit := none, offset := none } := by
    rw [SelectQuery.unsliced, hc]
    rfl
  have hfetch : ∀ all, q.unsliced.Fetches m db all ↔ q.InScope m ∧ ∃ draw l,
      (q.matching m db).Perm l ∧ l.Pairwise (ordered m q.model.table draw q.orderBy) ∧
        all = (q.dedupFetched m l).map (q.output m) := by
    intro all
    have hplain : q.unsliced.compound = [] := unsliced_compound.trans hc
    rw [fetches_plain hplain, hunsliced]
    exact Iff.rfl
  constructor
  · rintro ⟨all, hall, rfl⟩
    obtain ⟨hscope, draw, l, hl, -, rfl⟩ := (hfetch all).mp hall
    exact ⟨hscope, by rw [List.length_map, length_dedupFetched_perm hl]⟩
  · rintro ⟨hscope, rfl⟩
    obtain ⟨l, hl, hsorted⟩ := exists_arrangement m q.model.table (fun _ => 0) q.orderBy
      (q.matching m db)
    refine ⟨_, (hfetch _).mpr ⟨hscope, fun _ => 0, l, hl, hsorted, rfl⟩, ?_⟩
    rw [List.length_map, length_dedupFetched_perm hl]

section Totals
variable (m db) (d : Dialect) (again : Bool) (q)

/-- The total that a page with rows carries. -/
def ColumnTotal (all : List (List (String × L.Value))) (total : Nat) : Prop :=
  if q.compound.isEmpty && q.distinctTotal d then (CountQuery.fromSelect q.counted).Counts m db total
  else total = all.length

/-- The total of an empty page. -/
def EmptyTotal (total : Nat) : Prop :=
  if again = true ∧ q.pastFirst then (CountQuery.fromSelect q.bare).Counts m db total else total = 0

/-- A page of the query may have the total. -/
def PageHasTotal (total : Nat) : Prop := ∃ all, q.unsliced.Fetches m db all ∧
  (slice q.outerLimit q.outerOffset all ≠ [] ∧ ColumnTotal m db q d all total ∨
    slice q.outerLimit q.outerOffset all = [] ∧ EmptyTotal m db q again total)

end Totals

section Totals
variable {core : Core L} {d : Dialect} {again : Bool} {qs : QuerySet L}

private theorem inScope_of_fetches (hc : q.compound = []) {all : List (List (String × L.Value))}
    (h : q.unsliced.Fetches m db all) : q.InScope m :=
  ((rowCount_plain hc).mp ⟨all, h, rfl⟩).1

private theorem exists_columnTotal {all : List (List (String × L.Value))}
    (h : q.unsliced.Fetches m db all) : ∃ total, ColumnTotal m db q d all total := by
  unfold ColumnTotal
  split
  · rename_i hcount
    have hc : q.compound = [] := by
      rw [Bool.and_eq_true, List.isEmpty_iff] at hcount
      exact hcount.1
    have hscope : q.InScope m := inScope_of_fetches hc h
    exact ⟨_, (counts_unsliced (q := q.counted) hc rfl rfl hscope).mpr rfl⟩
  · exact ⟨_, rfl⟩

private theorem counted_iff {rows : List (List (String × L.Value) × Nat)} {total : Option Nat} :
    q.Counted m db again rows total ↔ if (again = true ∧ q.pastFirst) ∧ rows.isEmpty = true then
      ∃ n, (CountQuery.fromSelect q.bare).Counts m db n ∧ total = some n else total = none := by
  rw [SelectQuery.Counted, SelectQuery.totalStatement]
  by_cases hpast : q.pastFirst
  · have hoffset := hpast
    rw [SelectQuery.pastFirst] at hoffset
    rw [if_neg (by omega)]
    cases again <;> cases rows <;> simp [hpast]
  · have hoffset := hpast
    rw [SelectQuery.pastFirst] at hoffset
    rw [if_pos (by omega)]
    simp [hpast]

/-- The totals that a page of the queryset may have. -/
private theorem exists_page_iff (hq : qs.compile core = .ok q) {total : Nat} :
    (∃ page, qs.FetchPaginated core m db d again page ∧ page.total = total) ↔
      PageHasTotal m db q d again total := by
  constructor
  · rintro ⟨page, ⟨q', hq', rows, ⟨all, t, hall, hrows, ht⟩, counted, hcounted, rfl⟩, rfl⟩
    obtain rfl := Except.ok.inj (hq.symm.trans hq')
    refine ⟨all, hall, ?_⟩
    rw [counted_iff] at hcounted
    cases hslice : slice q.outerLimit q.outerOffset all with
    | nil =>
      have hempty : rows = [] := by rw [hrows, hslice, List.map_nil]
      right
      refine ⟨rfl, ?_⟩
      rw [hempty] at hcounted ⊢
      simp only [List.isEmpty_nil, and_true] at hcounted
      unfold EmptyTotal
      split at hcounted
      · rename_i h
        obtain ⟨n, hn, rfl⟩ := hcounted
        rw [if_pos h]
        exact hn
      · rename_i h
        rw [if_neg h, hcounted]
        rfl
    | cons row rest =>
      left
      refine ⟨by simp, ?_⟩
      have hhead : (intoPage rows counted).total = t := by
        rw [hrows, hslice]
        rfl
      rw [hhead]
      exact ht
  · rintro ⟨all, hall, h⟩
    rcases h with ⟨hslice, htotal⟩ | ⟨hslice, htotal⟩
    · let rows := (slice q.outerLimit q.outerOffset all).map fun row => (row, total)
      have hrows : ¬ rows.isEmpty = true := by simpa [rows] using hslice
      refine ⟨intoPage rows none, ⟨q, hq, rows, ⟨all, total, hall, rfl, htotal⟩, none, ?_, rfl⟩, ?_⟩
      · rw [counted_iff, if_neg (fun h => hrows h.2)]
      · obtain ⟨row, rest, hcons⟩ := List.exists_cons_of_ne_nil hslice
        simp [intoPage, rows, hcons]
    · obtain ⟨t, ht⟩ := exists_columnTotal (d := d) hall
      have hrows : (slice q.outerLimit q.outerOffset all).map (fun row => (row, t)) = [] := by
        rw [hslice, List.map_nil]
      unfold EmptyTotal at htotal
      split at htotal
      · rename_i h
        refine ⟨_, ⟨q, hq, _, ⟨all, t, hall, rfl, ht⟩, some total, ?_, rfl⟩, ?_⟩
        · rw [counted_iff, if_pos ⟨h, by rw [hrows]; rfl⟩]
          exact ⟨total, htotal, rfl⟩
        · rw [hrows]
          rfl
      · rename_i h
        refine ⟨_, ⟨q, hq, _, ⟨all, t, hall, rfl, ht⟩, none, ?_, rfl⟩, ?_⟩
        · rw [counted_iff, if_neg (fun h' => h h'.1)]
        · rw [hrows, htotal]
          rfl

private theorem bare_unsliced : q.bare.unsliced = q.bare := by
  unfold SelectQuery.unsliced
  split <;> rfl

private theorem rowCount_bare (hc : q.compound ≠ []) (hlimit : q.limit = none) (hoffset : q.offset = none)
    {n : Nat} : q.bare.RowCount m db n ↔ q.RowCount m db n := by
  have hsame : q.bare = q.unsliced := by
    rw [SelectQuery.unsliced, List.isEmpty_eq_false_iff.mpr hc, if_neg Bool.false_ne_true,
      SelectQuery.bare, hlimit, hoffset]
  rw [SelectQuery.RowCount, SelectQuery.RowCount, bare_unsliced, hsame]

private theorem mem_bare_orderBy {i : OrderItem L} (h : i ∈ q.bare.asBranch.orderBy) :
    i ∈ q.asBranch.orderBy := by
  change i ∈ (if q.distinct = some .all then q.bare.writtenOrder false else q.orderBy) at h
  change i ∈ if q.distinct = some .all then q.writtenOrder false else q.orderBy
  split at h
  · rename_i hd
    have hdrops : q.bare.dropsOrder false = q.needsHelpers :=
      (Bool.and_true _).trans ((Bool.and_true _).trans (Bool.and_true _))
    rw [SelectQuery.writtenOrder, hdrops] at h
    rw [if_pos hd, SelectQuery.writtenOrder, SelectQuery.dropsOrder]
    split at h
    · cases h
    · rename_i hneeds
      rw [Bool.not_eq_true] at hneeds
      rw [hneeds]
      exact h
  · rename_i hd
    rwa [if_neg hd]

private theorem counts_bare_combined (hc : q.compound ≠ []) {all : List (List (String × L.Value))}
    (h : q.unsliced.Fetches m db all) {n : Nat} :
    (CountQuery.fromSelect q.bare).Counts m db n ↔ q.bare.RowCount m db n := by
  have hne : q.unsliced.compound ≠ [] := by
    rw [unsliced_compound]
    exact hc
  have hunsliced : q.unsliced = { q with compoundLimit := none, compoundOffset := none } := by
    rw [SelectQuery.unsliced, List.isEmpty_eq_false_iff.mpr hc]
    rfl
  have horders := OrdersInScope.of_fetches hne h
  rw [hunsliced] at horders
  have hscope : OrdersInScope m q.bare :=
    ⟨fun i hi => horders.head i (mem_bare_orderBy (q := { q with compoundLimit := none, compoundOffset := none }) hi),
      horders.combined⟩
  have hbare : q.bare.compound ≠ [] := hc
  rw [counts_combined hbare hscope, SelectQuery.RowCount, bare_unsliced]

private theorem counts_bare_plain (hc : q.compound = []) (hscope : q.InScope m) {n : Nat} :
    (CountQuery.fromSelect q.bare).Counts m db n ↔ n = (q.dedup m (q.matching m db)).length :=
  counts_unsliced (q := q.bare) hc rfl rfl hscope

private theorem bare_rowCount_plain (hc : q.compound = []) (hscope : q.InScope m) {n : Nat} :
    q.bare.RowCount m db n ↔ n = (q.dedupFetched m (q.matching m db)).length := by
  have hbare : q.bare.compound = [] := hc
  rw [rowCount_plain hbare]
  exact and_iff_right hscope

private theorem outerLimit_of_isNone (hq : qs.compile core = .ok q) (hn : qs.isNone = true) :
    q.outerLimit = some 0 := by
  cases hc : qs.compound.isEmpty with
  | true =>
    obtain ⟨hnil, hlimit, -⟩ := QuerySet.compile_head hq hc
    rw [SelectQuery.outerLimit, hnil, List.isEmpty_nil, if_pos rfl, hlimit, hn, if_pos rfl]
  | false =>
    obtain ⟨hne, -, hlimit, -⟩ := QuerySet.compile_combined hq hc
    rw [SelectQuery.outerLimit, List.isEmpty_eq_false_iff.mpr hne, if_neg Bool.false_ne_true, hlimit,
      hn, if_pos rfl]

private theorem total_none_iff (hlimit : q.outerLimit = some 0)
    (hruns : ∃ all, q.unsliced.Fetches m db all) :
    (∀ total, PageHasTotal m db q d again total → total = 0) ↔
      (again = true → q.pastFirst → ∀ n, q.bare.RowCount m db n → n = 0) := by
  have hempty : ∀ all : List (List (String × L.Value)), slice q.outerLimit q.outerOffset all = [] :=
    fun all => slice_eq_nil_iff.mpr (Or.inl hlimit)
  obtain ⟨all, hall⟩ := hruns
  -- The count is zero just when no row is left without the slices.
  have hcounts : (∀ n, (CountQuery.fromSelect q.bare).Counts m db n → n = 0) ↔
      ∀ n, q.bare.RowCount m db n → n = 0 := by
    by_cases hc : q.compound = []
    · have hscope := inScope_of_fetches hc hall
      simp only [counts_bare_plain hc hscope, bare_rowCount_plain hc hscope, forall_eq,
        dedup_length_eq_zero, dedupFetched_length_eq_zero]
    · simp only [counts_bare_combined hc hall]
  constructor
  · intro h hagain hpast
    apply hcounts.mp
    intro n hn
    refine h n ⟨all, hall, Or.inr ⟨hempty all, ?_⟩⟩
    rw [EmptyTotal, if_pos ⟨hagain, hpast⟩]
    exact hn
  · rintro h total ⟨all', -, hcase⟩
    rcases hcase with ⟨hne, -⟩ | ⟨-, htotal⟩
    · exact absurd (hempty all') hne
    · rw [EmptyTotal] at htotal
      split at htotal
      · rename_i hcount
        exact hcounts.mpr (h hcount.1 hcount.2) total htotal
      · exact htotal

private theorem rowCount_zero {all : List (List (String × L.Value))} (h : q.unsliced.Fetches m db all)
    (hlen : all.length ≤ 0) : q.RowCount m db 0 := ⟨all, h, by omega⟩

private theorem rowCount_dedup_iff (hc : q.compound = []) (hscope : q.InScope m) :
    q.RowCount m db (q.dedup m (q.matching m db)).length ↔ (q.distinct = some .all →
      ∀ a ∈ q.matching m db, ∀ b ∈ q.matching m db,
        sameOutput m (q.output m a) (q.output m b) = true → q.helpersTied m a b = true) := by
  rw [rowCount_plain hc, ← length_dedup_eq_iff]
  exact and_iff_right hscope

private theorem distinct_of_total (hc : q.compound = []) (hd : q.distinct = some .all)
    {all : List (List (String × L.Value))} (hall : q.unsliced.Fetches m db all)
    (h : ∀ total, PageHasTotal m db q d again total → q.RowCount m db total) :
    q.RowCount m db (q.dedup m (q.matching m db)).length := by
  have hscope := inScope_of_fetches hc hall
  by_cases hslice : slice q.outerLimit q.outerOffset all = []
  · by_cases hcount : again = true ∧ q.pastFirst
    · refine h _ ⟨all, hall, Or.inr ⟨hslice, ?_⟩⟩
      rw [EmptyTotal, if_pos hcount]
      exact (counts_bare_plain hc hscope).mpr rfl
    · have hzero : q.RowCount m db 0 := by
        refine h 0 ⟨all, hall, Or.inr ⟨hslice, ?_⟩⟩
        rw [EmptyTotal, if_neg hcount]
      have hnone : q.matching m db = [] :=
        dedupFetched_length_eq_zero.mp ((rowCount_plain hc).mp hzero).2.symm
      rwa [hnone, dedup_length_eq_zero.mpr rfl]
  · refine h _ ⟨all, hall, Or.inl ⟨hslice, ?_⟩⟩
    have htotal : (q.compound.isEmpty && q.distinctTotal d) = true := by
      rw [hc, SelectQuery.distinctTotal, hd]
      rfl
    rw [ColumnTotal, if_pos htotal]
    exact (counts_unsliced (q := q.counted) hc rfl rfl hscope).mpr rfl

/-- The total of a queryset that is not `none()`. -/
private theorem total_iff (hruns : ∃ all, q.unsliced.Fetches m db all) :
    (∀ total, PageHasTotal m db q d again total → q.RowCount m db total) ↔
      TotalHolds m db again false q := by
  constructor
  · intro h
    obtain ⟨all, hall⟩ := hruns
    constructor
    case none_ =>
      intro hn
      cases hn
    case limitZero =>
      intro _ hlimit hcount
      refine h 0 ⟨all, hall, Or.inr ⟨slice_eq_nil_iff.mpr (Or.inl hlimit), ?_⟩⟩
      rw [EmptyTotal, if_neg hcount]
    case once =>
      rintro - hagain - ⟨n, hn, all', hall', rfl⟩
      refine h 0 ⟨all', hall', Or.inr ⟨slice_eq_nil_iff.mpr (Or.inr hn), ?_⟩⟩
      rw [EmptyTotal, if_neg (by simp [hagain])]
    case head =>
      intro _ hagain hpast hc _ hor n hn
      obtain ⟨all', hall', hslice⟩ : ∃ all', q.unsliced.Fetches m db all' ∧
          slice q.outerLimit q.outerOffset all' = [] := by
        rcases hor with hlimit | ⟨n', hn', all', hall', rfl⟩
        · exact ⟨all, hall, slice_eq_nil_iff.mpr (Or.inl hlimit)⟩
        · exact ⟨all', hall', slice_eq_nil_iff.mpr (Or.inr hn')⟩
      refine h n ⟨all', hall', Or.inr ⟨hslice, ?_⟩⟩
      rw [EmptyTotal, if_pos ⟨hagain, hpast⟩]
      exact (counts_bare_combined hc hall').mpr hn
    case distinct =>
      intro _ hc hd
      have hscope := inScope_of_fetches hc hall
      exact (rowCount_dedup_iff hc hscope).mp (distinct_of_total hc hd hall h) hd
  · rintro holds total ⟨all, hall, ⟨hslice, htotal⟩ | ⟨hslice, htotal⟩⟩
    · rw [ColumnTotal] at htotal
      split at htotal
      · rename_i hcount
        rw [Bool.and_eq_true, List.isEmpty_iff] at hcount
        have hscope := inScope_of_fetches hcount.1 hall
        rw [(counts_unsliced (q := q.counted) hcount.1 rfl rfl hscope).mp htotal]
        exact (rowCount_dedup_iff hcount.1 hscope).mpr (holds.distinct rfl hcount.1)
      · exact ⟨all, hall, htotal⟩
    · rw [EmptyTotal] at htotal
      split at htotal
      · rename_i hcount
        by_cases hc : q.compound = []
        · have hscope := inScope_of_fetches hc hall
          rw [(counts_bare_plain hc hscope).mp htotal]
          exact (rowCount_dedup_iff hc hscope).mpr (holds.distinct rfl hc)
        · have hbare := (counts_bare_combined hc hall).mp htotal
          by_cases hhead : q.limit = none ∧ q.offset = none
          · exact (rowCount_bare hc hhead.1 hhead.2).mp hbare
          · refine holds.head rfl hcount.1 hcount.2 hc hhead ?_ total hbare
            exact (slice_eq_nil_iff.mp hslice).imp_right fun hlen => ⟨all.length, hlen, all, hall, rfl⟩
      · rename_i hcount
        rw [htotal]
        rcases slice_eq_nil_iff.mp hslice with hlimit | hlen
        · exact holds.limitZero rfl hlimit hcount
        · by_cases hpast : q.pastFirst
          · have hagain : again = false := by
              rw [← Bool.not_eq_true]
              exact fun h => hcount ⟨h, hpast⟩
            exact holds.once rfl hagain hpast ⟨all.length, hlen, all, hall, rfl⟩
          · rw [offsetCount_eq_zero hpast] at hlen
            exact rowCount_zero hall hlen

/-- The total of each page that the database returns is the number of rows of the queryset without its
outermost slice, and 0 for `none()`, if and only if `TotalHolds`. -/
theorem fetch_paginated_total_iff (hq : qs.compile core = .ok q) :
    (∀ page, qs.FetchPaginated core m db d again page → qs.TotalRight m db q page.total) ↔
      ((∃ page, qs.FetchPaginated core m db d again page) → TotalHolds m db again qs.isNone q) := by
  have hpages : (∀ page, qs.FetchPaginated core m db d again page → qs.TotalRight m db q page.total) ↔
      ∀ total, PageHasTotal m db q d again total → qs.TotalRight m db q total := by
    constructor
    · intro h total htotal
      obtain ⟨page, hpage, rfl⟩ := (exists_page_iff hq).mpr htotal
      exact h page hpage
    · intro h page hpage
      exact h _ ((exists_page_iff hq).mp ⟨page, hpage, rfl⟩)
  have hruns : (∃ page, qs.FetchPaginated core m db d again page) →
      ∃ all, q.unsliced.Fetches m db all := by
    rintro ⟨page, hpage⟩
    obtain ⟨all, hall, -⟩ := (exists_page_iff hq).mp ⟨page, hpage, rfl⟩
    exact ⟨all, hall⟩
  have hiff : (∃ page, qs.FetchPaginated core m db d again page) →
      ((∀ total, PageHasTotal m db q d again total → qs.TotalRight m db q total) ↔
        TotalHolds m db again qs.isNone q) := by
    intro hpage
    cases hn : qs.isNone with
    | true =>
      have hnone : (∀ total, PageHasTotal m db q d again total → total = 0) ↔
          (again = true → q.pastFirst → ∀ n, q.bare.RowCount m db n → n = 0) :=
        total_none_iff (outerLimit_of_isNone hq hn) (hruns hpage)
      simp only [QuerySet.TotalRight, hn, if_true]
      refine hnone.trans ⟨fun h => ⟨fun _ => h, ?_, ?_, ?_, ?_⟩, fun h => h.none_ rfl⟩ <;>
        exact fun h => nomatch h
    | false => simpa only [QuerySet.TotalRight, hn, Bool.false_eq_true, if_false] using
        total_iff (hruns hpage)
  rw [hpages]
  constructor
  · exact fun h hpage => (hiff hpage).mp h
  · intro h total htotal
    obtain ⟨page, hpage, -⟩ := (exists_page_iff hq).mpr htotal
    exact (hiff ⟨page, hpage⟩).mpr (h ⟨page, hpage⟩) total htotal

end Totals

/-- The first book. -/
private def firstBook : SelectQuery IntLang := { SelectQuery.new book with limit := some 1 }

private theorem firstBook_compile : ((QuerySet.new book).limit_ 1).compile bookCore = .ok firstBook := rfl

/-- The total of the first page of one book is right. -/
theorem firstBook_total : ((QuerySet.new book).limit_ 1).compile bookCore = .ok firstBook ∧
    ∀ page, ((QuerySet.new book).limit_ 1).FetchPaginated bookCore intMeaning twoBooks .sqlite true page →
      ((QuerySet.new book).limit_ 1).TotalRight intMeaning twoBooks firstBook page.total := by
  constructor
  · exact firstBook_compile
  · apply (fetch_paginated_total_iff firstBook_compile).mpr
    intro _
    constructor
    case none_ =>
      intro h
      cases h
    case limitZero =>
      intro _ h
      cases h
    case once =>
      intro _ h
      cases h
    case head => exact fun _ _ _ h => absurd rfl h
    case distinct =>
      intro _ _ h
      cases h

/-- A second page of no books counts them all. -/
theorem none_total : ∃ q page, ((QuerySet.new book).none_.offset_ 1).compile bookCore = .ok q ∧
    ((QuerySet.new book).none_.offset_ 1).FetchPaginated bookCore intMeaning twoBooks .sqlite true page ∧
      page.total = 2 ∧
        ¬ ((QuerySet.new book).none_.offset_ 1).TotalRight intMeaning twoBooks q page.total := by
  let q : SelectQuery IntLang := { SelectQuery.new book with limit := some 0, offset := some 1 }
  have hq : ((QuerySet.new book).none_.offset_ 1).compile bookCore = .ok q := rfl
  have hscope : q.InScope intMeaning := by
    refine ⟨by decide, ?_, ?_⟩
    · simp [q, SelectQuery.new, WhereExpr.reads, WhereExpr.readsAll]
    · intro i hi
      cases hi
  have hall : q.unsliced.Fetches intMeaning twoBooks _ := (fetches_plain rfl).mpr
    ⟨hscope, fun _ => 0, q.matching intMeaning twoBooks, List.Perm.refl _,
      List.pairwise_of_forall fun _ _ => trivial, rfl⟩
  have hcount : (CountQuery.fromSelect q.bare).Counts intMeaning twoBooks 2 :=
    (counts_bare_plain rfl hscope).mpr rfl
  have htotal : PageHasTotal intMeaning twoBooks q .sqlite true 2 :=
    ⟨_, hall, Or.inr ⟨slice_eq_nil_iff.mpr (Or.inl rfl), hcount⟩⟩
  obtain ⟨page, hpage, hpageTotal⟩ := (exists_page_iff hq).mpr htotal
  refine ⟨q, page, hq, hpage, hpageTotal, fun hright => ?_⟩
  rw [hpageTotal] at hright
  have hzero : (2 : Nat) = 0 := hright
  cases hzero

end Rustango.Query
