import Rustango.Query.Compile
import Rustango.Query.Dedup
import Rustango.Query.Distinct

/-!
# `DISTINCT ON` keeps the first row of each group

The window form always does. The native form does at top level, and in a nested position unless its
order is dropped while the rows of a group differ.
-/

namespace Rustango.Query

open Rustango.Firsts

variable {L : Lang} {m : Meaning L}

namespace SelectQuery
variable {db : Database L} {derivedColumns : L.Derived → List String}
variable {q : SelectQuery L} {cols : List String}

theorem StartsWith.ordered_of_apart (h : q.StartsWith cols) {draw draw' : Env L → Nat} {a b : Env L}
    (hab : agree m cols a b = false) (hle : ordered m q.model.table draw q.orderBy a b) :
    ordered m q.model.table draw' q.orderBy a b := by
  obtain ⟨lead, rest, horder, hlead⟩ := h
  rw [horder] at hle ⊢
  have hdrawn : ordered m q.model.table draw' lead a b :=
    ordered_columns hlead rfl rfl (ordered_append hle)
  have hstrict : ¬ ordered m q.model.table draw' lead b a := by
    intro hba
    rw [(agree_iff_ordered hlead a b).mpr ⟨hdrawn, hba⟩] at hab
    cases hab
  clear hle hlead horder
  induction lead with
  | nil => exact absurd trivial hstrict
  | cons i is ih =>
    refine ⟨hdrawn.1, fun hba => ih (hdrawn.2 hba) ?_⟩
    exact fun hrest => hstrict ⟨hba, fun _ => hrest⟩

theorem StartsWith.pairwise_ordered (h : q.StartsWith cols) {draw draw' : Env L → Nat}
    {l : List (Env L)} (hapart : Apart (agree m cols) l)
    (hl : l.Pairwise (ordered m q.model.table draw q.orderBy)) :
    l.Pairwise (ordered m q.model.table draw' q.orderBy) :=
  (hapart.and hl).imp fun hab => h.ordered_of_apart hab.1 hab.2

theorem leaders_of_sorted {draw : Env L → Nat} {l : List (Env L)} (hl : (q.matching m db).Perm l)
    (hsorted : l.Pairwise fun a b =>
      agree m cols a b = true → ordered m q.model.table draw q.orderBy a b) :
    Leaders (agree m cols) (ordered m q.model.table draw q.orderBy) (q.matching m db)
      (firsts (agree m cols) l) :=
  (leaders_firsts (agree_refl cols) (agree_trans cols)
    (fun e => (ordered_total m q.model.table draw q.orderBy e e).elim id id) hsorted).of_perm hl.symm

theorem exists_leaders (draw : Env L → Nat) : ∃ kept,
    Leaders (agree m cols) (ordered m q.model.table draw q.orderBy) (q.matching m db) kept ∧
      kept.Pairwise (ordered m q.model.table draw q.orderBy) := by
  obtain ⟨l, hl, hsorted⟩ := exists_arrangement m q.model.table draw q.orderBy (q.matching m db)
  exact ⟨_, leaders_of_sorted hl (pairwise_within hsorted), hsorted.sublist (firsts_sublist _ _)⟩

theorem windowRows_iff (hstart : q.StartsWith cols) {rows : List (List L.Value)} :
    q.WindowRows m db cols rows ↔ q.Readable m cols ∧ q.FirstRows m db cols rows := by
  constructor
  · rintro ⟨hread, draw, l, hl, hsorted, draw', l', hl', hsorted', rfl⟩
    rw [map_filter_rowNumbers] at hl'
    have hkept := (leaders_of_sorted hl hsorted).perm_kept (agree_symm cols) hl'
    exact ⟨hread, draw, l', hkept, hstart.pairwise_ordered hkept.apart hsorted', rfl⟩
  · rintro ⟨hread, draw, kept, hleaders, hsorted, rfl⟩
    obtain ⟨l, hl, hgroups, hfirsts⟩ := hleaders.exists_arrangement (agree_refl cols)
      (agree_symm cols) (agree_trans cols) fun l => by
        obtain ⟨l', hl', hsorted'⟩ := exists_arrangement m q.model.table draw q.orderBy l
        exact ⟨l', hl', pairwise_within hsorted'⟩
    refine ⟨hread, draw, l, hl, hgroups, draw, kept, ?_, hsorted, rfl⟩
    rw [map_filter_rowNumbers, hfirsts]

theorem Readable.written {orderHelpers : Bool} (h : q.Readable m cols) :
    (q.written orderHelpers).Readable m cols := by
  refine ⟨h.cols, ⟨h.inScope.1, h.inScope.2.1, fun i hi => h.inScope.2.2 i ?_⟩, h.selectList⟩
  change i ∈ q.writtenOrder orderHelpers at hi
  rw [writtenOrder] at hi
  by_cases hdrop : q.dropsOrder orderHelpers = true
  · rw [if_pos hdrop] at hi
    cases hi
  · rwa [if_neg hdrop] at hi

theorem written_eq {orderHelpers : Bool} (h : q.writtenOrder orderHelpers = q.orderBy) :
    q.written orderHelpers = q := by
  rw [written, h]
  cases q
  rfl

section Native
variable (htotal : q.TotallyOrdered m db)
include htotal

theorem TotallyOrdered.kept_eq (hstart : q.StartsWith cols) {draw draw' : Env L → Nat}
    {kept kept' : List (Env L)}
    (h : Leaders (agree m cols) (ordered m q.model.table draw q.orderBy) (q.matching m db) kept)
    (h' : Leaders (agree m cols) (ordered m q.model.table draw' q.orderBy) (q.matching m db) kept')
    (hl : kept.Pairwise (ordered m q.model.table draw q.orderBy))
    (hl' : kept'.Pairwise (ordered m q.model.table draw' q.orderBy)) : kept = kept' := by
  have hperm : kept.Perm kept' := h.unique (agree_refl cols) (agree_symm cols) (agree_trans cols)
    (htotal draw draw') h'
  have hsorted : kept'.Pairwise (ordered m q.model.table draw q.orderBy) :=
    hstart.pairwise_ordered h'.apart hl'
  exact hperm.eq_of_pairwise (fun a b ha hb hab hba =>
    htotal draw draw a (h.subset ha) b (h'.subset hb) hab hba) hl hsorted

theorem nativeRows_iff (hstart : q.StartsWith cols) {pos : Position}
    (hkept : q.writtenOrder pos.orderHelpers = q.orderBy) {rows : List (List L.Value)} :
    q.NativeRows m db derivedColumns cols pos rows ↔
      (q.Readable m cols ∧ ∀ c ∈ cols, q.BareName derivedColumns c) ∧ q.FirstRows m db cols rows := by
  rw [NativeRows, written_eq hkept, hkept]
  constructor
  · rintro ⟨hread, hnames, draw, l, hl, hsorted, rfl⟩
    exact ⟨⟨hread, hnames⟩, draw, _, leaders_of_sorted hl (pairwise_within hsorted),
      hsorted.sublist (firsts_sublist _ _), rfl⟩
  · rintro ⟨⟨hread, hnames⟩, draw, kept, hleaders, hkept, rfl⟩
    obtain ⟨l, hl, hsorted⟩ := exists_arrangement m q.model.table draw q.orderBy (q.matching m db)
    have heq := htotal.kept_eq hstart hleaders (leaders_of_sorted hl (pairwise_within hsorted)) hkept
      (hsorted.sublist (firsts_sublist _ _))
    exact ⟨hread, hnames, draw, l, hl, hsorted, by rw [heq]⟩

end Native

theorem selects_iff_firstRows (h : q.DistinctOn m db cols) (hscope : q.InScope m)
    {rows : List (List L.Value)} :
    (∃ envs, q.Selects m db envs ∧ rows = envs.map (q.selected m)) ↔ q.FirstRows m db cols rows := by
  have hdedup : ∀ l, q.dedup m l = firsts (agree m cols) l := by
    intro l
    rw [dedup, h.distinct]
  constructor
  · rintro ⟨envs, ⟨-, draw, l, hl, hsorted, rfl⟩, rfl⟩
    rw [hdedup]
    exact ⟨draw, _, leaders_of_sorted hl (pairwise_within hsorted),
      hsorted.sublist (firsts_sublist _ _), rfl⟩
  · rintro ⟨draw, kept, hleaders, hkept, rfl⟩
    obtain ⟨l, hl, hsorted⟩ := exists_arrangement m q.model.table draw q.orderBy (q.matching m db)
    have heq := h.total.kept_eq h.starts hleaders (leaders_of_sorted hl (pairwise_within hsorted)) hkept
      (hsorted.sublist (firsts_sublist _ _))
    exact ⟨_, ⟨hscope, draw, l, hl, hsorted, rfl⟩, by rw [hdedup, heq]⟩

theorem nativeRows_dropped_iff {pos : Position} (hdrop : q.dropsOrder pos.orderHelpers = true)
    {rows : List (List L.Value)} :
    q.NativeRows m db derivedColumns cols pos rows ↔ q.Reads m derivedColumns cols .postgres pos ∧
      ∃ l, (q.matching m db).Perm l ∧ rows = (firsts (agree m cols) l).map (q.selected m) := by
  have hslice : q.limit = none ∧ q.offset = none := by
    simp only [dropsOrder, Bool.and_eq_true, Option.isNone_iff_eq_none] at hdrop
    exact ⟨hdrop.1.2, hdrop.2⟩
  have horder : q.writtenOrder pos.orderHelpers = [] := by
    rw [writtenOrder, hdrop, if_pos rfl]
  rw [NativeRows, horder, hslice.1, hslice.2]
  constructor
  · rintro ⟨hread, hnames, draw, l, hl, -, rfl⟩
    exact ⟨⟨hread, hnames⟩, l, hl, rfl⟩
  · rintro ⟨⟨hread, hnames⟩, l, hl, rfl⟩
    exact ⟨hread, hnames, fun _ => 0, l, hl, List.pairwise_of_forall fun _ _ => trivial, rfl⟩

end SelectQuery

theorem Position.agrees_nested {α : Type} {pos : Position} (h : pos ≠ .top)
    {answers answers' : List α → Prop} : pos.Agrees answers answers' ↔ SameRows answers answers' := by
  cases pos with
  | top => exact absurd rfl h
  | subquery => exact Iff.rfl
  | branch => exact Iff.rfl
  | source => exact Iff.rfl

/-- A form that selects the right rows, when the database reads it, agrees just then. -/
theorem Position.agrees_of_iff {α : Type} {pos : Position} {p : Prop} {answers answers' : List α → Prop}
    (h : ∀ rows, answers rows ↔ p ∧ answers' rows) (hex : ∃ rows, answers' rows) :
    pos.Agrees answers answers' ↔ p := by
  obtain ⟨rows, hrows⟩ := hex
  have hself : p → ∀ rows, answers rows ↔ answers' rows := fun hp rows => by
    rw [h rows]
    exact and_iff_right hp
  by_cases htop : pos = .top
  · subst htop
    constructor
    · intro hagree
      exact ((h rows).mp ((hagree rows).mpr hrows)).1
    · exact hself
  · rw [agrees_nested htop]
    constructor
    · intro hagree
      obtain ⟨rows', hrows', -⟩ := hagree.2 rows hrows
      exact ((h rows').mp hrows').1
    · intro hp
      exact ⟨fun rows hr => ⟨rows, (hself hp rows).mp hr, List.Perm.refl rows⟩,
        fun rows hr => ⟨rows, (hself hp rows).mpr hr, List.Perm.refl rows⟩⟩

namespace SelectQuery
variable {db : Database L} {derivedColumns : L.Derived → List String}
variable {q : SelectQuery L} {cols : List String}

theorem exists_firstRows : ∃ rows, q.FirstRows m db cols rows := by
  let draw : Env L → Nat := fun _ => 0
  obtain ⟨kept, hleaders, hsorted⟩ : ∃ kept,
      Leaders (agree m cols) (ordered m q.model.table draw q.orderBy) (q.matching m db) kept ∧
        kept.Pairwise (ordered m q.model.table draw q.orderBy) := exists_leaders draw
  exact ⟨_, draw, kept, hleaders, hsorted, rfl⟩

theorem choice_perm {le : Env L → Env L → Prop} {kept l : List (Env L)}
    (h : Leaders (agree m cols) le (q.matching m db) kept) (hl : (q.matching m db).Perm l)
    (hsame : ∀ a ∈ q.matching m db, ∀ b ∈ q.matching m db, agree m cols a b = true →
      q.selected m a = q.selected m b) :
    ((firsts (agree m cols) l).map (q.selected m)).Perm (kept.map (q.selected m)) := by
  have hmem : ∀ a ∈ firsts (agree m cols) l, a ∈ q.matching m db := fun a ha =>
    hl.mem_iff.mpr ((firsts_sublist _ l).subset ha)
  apply map_perm_of_classes _ (agree_symm cols) (agree_trans cols) (firsts_apart _ l) h.apart
  · intro a ha
    obtain ⟨k, hk, hka, -⟩ := h.least a (hmem a ha)
    exact ⟨k, hk, hka⟩
  · intro k hk
    exact exists_mem_firsts _ (agree_refl cols) (agree_trans cols) (hl.mem_iff.mp (h.subset hk))
  · intro a ha k hk hka
    exact hsame a (hmem a ha) k (h.subset hk) (agree_symm cols k a hka)

/-- Without its order the native form keeps the right rows just when the rows of a group look alike. -/
theorem dropped_agrees_iff (h : q.DistinctOn m db cols) {pos : Position}
    (hdrop : q.dropsOrder pos.orderHelpers = true) :
    pos.Agrees (q.NativeRows m db derivedColumns cols pos) (q.FirstRows m db cols) ↔
      q.Reads m derivedColumns cols .postgres pos ∧
        ∀ a ∈ q.matching m db, ∀ b ∈ q.matching m db, agree m cols a b = true →
          q.selected m a = q.selected m b := by
  have hnested : pos ≠ .top := by
    rintro rfl
    simp [dropsOrder, Position.orderHelpers] at hdrop
  have hslice : ∀ l : List (Env L), slice q.limit q.offset l = l := by
    simp only [dropsOrder, Bool.and_eq_true, Option.isNone_iff_eq_none] at hdrop
    rw [hdrop.1.2, hdrop.2]
    exact fun _ => rfl
  rw [Position.agrees_nested hnested]
  constructor
  · intro hagree
    obtain ⟨rows, draw, kept, hleaders, hsorted, rfl⟩ := exists_firstRows (m := m) (q := q)
    obtain ⟨rows', hrows', -⟩ := hagree.2 _ ⟨draw, kept, hleaders, hsorted, rfl⟩
    have hread := ((nativeRows_dropped_iff hdrop).mp hrows').1
    refine ⟨hread, fun a ha b hb hab => ?_⟩
    by_contra hne
    obtain ⟨l, hl, hother⟩ := exists_other_choice (agree_refl cols) (agree_symm cols)
      (agree_trans cols) (q.selected m) hleaders ha hb hab hne
    obtain ⟨rows', ⟨draw', kept', hleaders', hsorted', rfl⟩, hperm⟩ :=
      hagree.1 _ ((nativeRows_dropped_iff hdrop).mpr ⟨hread, l, hl, rfl⟩)
    rw [hslice, ← h.total.kept_eq h.starts hleaders hleaders' hsorted hsorted'] at hperm
    exact hother hperm
  · rintro ⟨hread, hsame⟩
    constructor
    · intro rows hrows
      obtain ⟨-, l, hl, rfl⟩ := (nativeRows_dropped_iff hdrop).mp hrows
      obtain ⟨rows', hfirst⟩ := exists_firstRows (m := m) (q := q)
      refine ⟨rows', hfirst, ?_⟩
      obtain ⟨draw, kept, hleaders, -, rfl⟩ := hfirst
      rw [hslice]
      exact choice_perm hleaders hl hsame
    · rintro rows' ⟨draw, kept, hleaders, -, rfl⟩
      refine ⟨_, (nativeRows_dropped_iff hdrop).mpr ⟨hread, _, List.Perm.refl _, rfl⟩, ?_⟩
      rw [hslice]
      exact choice_perm hleaders (List.Perm.refl _) hsame

end SelectQuery

/-- `distinct_on("author")` by author and then the newest, which is named under its table. -/
private def newestBooks : SelectQuery IntLang :=
  { SelectQuery.new book with
    orderBy := [.column "author" false .default, .expr (.aliasedColumn "book" "id") true .default]
    distinct := some (.on_ ["author"]) }

private theorem newestBooks_matching :
    newestBooks.matching intMeaning twoBooks = [Env.base (bookRow 1 7), Env.base (bookRow 2 7)] := rfl

private theorem newestBooks_ordered (draw : Env IntLang → Nat) :
    ¬ ordered intMeaning "book" draw newestBooks.orderBy (Env.base (bookRow 1 7))
      (Env.base (bookRow 2 7)) := by
  simp [newestBooks, ordered, OrderItem.le, Expr.value, Env.row, Env.base, columnOf, bookRow,
    intMeaning, intLe]

private theorem newestBooks_distinctOn : newestBooks.DistinctOn intMeaning twoBooks ["author"] := by
  refine ⟨rfl, ⟨[.column "author" false .default], _, rfl, ?_⟩, ?_⟩
  · exact List.Forall₂.cons rfl List.Forall₂.nil
  · intro draw draw' a ha b hb hab hba
    rw [newestBooks_matching, List.mem_pair] at ha hb
    rcases ha with rfl | rfl
    · rcases hb with rfl | rfl
      · rfl
      · exact absurd hab (newestBooks_ordered draw)
    · rcases hb with rfl | rfl
      · exact absurd hba (newestBooks_ordered draw')
      · rfl

private theorem newestBooks_readable : newestBooks.Readable intMeaning ["author"] := by
  refine ⟨by simp, ⟨by decide, by simp [newestBooks, SelectQuery.new, WhereExpr.reads,
    WhereExpr.readsAll], ?_⟩, ?_⟩
  · intro i hi
    simp only [newestBooks, List.mem_cons, List.not_mem_nil, or_false] at hi
    rcases hi with rfl | rfl
    · simp [OrderItem.reads]
    · simp [OrderItem.reads, Expr.reads, newestBooks, SelectQuery.new, book]
  · intro x hx
    have hlist : newestBooks.selectList = [.column "id", .column "author"] := rfl
    rw [hlist, List.mem_pair] at hx
    rcases hx with rfl | rfl
    · simp [Expr.reads]
    · simp [Expr.reads]

end Rustango.Query
