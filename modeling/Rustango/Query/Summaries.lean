import Rustango.Query.Derived
import Rustango.Query.TextLookup
import Rustango.Query.Where

/-!
# Counts, existence and aggregates

What a count, an existence test and an aggregate read of a query: the rows that a fetch of it
returns, unless a lone `DISTINCT` without a slice is ordered by terms outside its select list. The
fetch adds those to the select list and compares them; the derived table drops the order and does not.
-/

namespace Rustango.Query

open Rustango.Firsts

variable {L : Lang}

/-- A query and its search. -/
structure SearchedQuery (L : Lang) where
  select : SelectQuery L
  search : Option SearchClause

/-- An aggregate: the columns it reads, and what the database makes of their values row by row. -/
structure AggregateExpr (L : Lang) where
  columns : List String
  eval : List (List L.Value) → L.Value

/-- An aggregate without groups. `source` is read instead of the table. -/
structure AggregateQuery (L : Lang) where
  model : ModelSchema L
  whereClause : WhereExpr L Empty
  aggregates : List (String × AggregateExpr L)
  source : Option (SelectQuery L)

section Search
variable (text : String → L.Value)

/-- One pattern for every column; no column matches nothing. -/
def SearchClause.predicate (s : SearchClause) : WhereExpr L Empty :=
  .or (s.columns.map fun c => .predicate ⟨c, .iLikeEscaped, text (wrapLike s.query "%" "%")⟩)

/-- `write_where_with_search`: the filter, then the search; an empty text searches for nothing. -/
def whereWithSearch (w : WhereExpr L Empty) (search : Option SearchClause) : WhereExpr L Empty :=
  match search.filter fun s => s.query ≠ "" with
  | none => w
  | some s => if w.isEmpty then s.predicate text else .and [w, s.predicate text]

namespace SearchedQuery
variable (q : SearchedQuery L)

/-- The query with its search among the filters, where every `SELECT` and count writes it. -/
def filtered : SelectQuery L :=
  { q.select with whereClause := whereWithSearch text q.select.whereClause q.search }

def count : CountQuery L := CountQuery.fromSelect (q.filtered text)

def exists_ : CountQuery L := CountQuery.exists_ (q.filtered text)

/-- An aggregate has no place for a search, so that one takes the derived table too. -/
def overSelect (aggregates : List (String × AggregateExpr L)) : AggregateQuery L :=
  if q.search.isNone && q.select.isPlainFilter then
    ⟨q.select.model, q.select.whereClause, aggregates, none⟩
  else ⟨q.select.model, .and [], aggregates, some (q.filtered text).intoDerived⟩

end SearchedQuery

end Search

section Meaning
variable (m : Meaning L) (db : Database L)

/-- The aggregates of rows that come in this order. -/
def aggregateValues (aggregates : List (String × AggregateExpr L)) (envs : List (Env L)) :
    List (String × L.Value) :=
  aggregates.map fun a => (a.1, a.2.eval (envs.map fun e => a.2.columns.map (columnOf m e.main)))

/-- The aggregate may read these rows, in this order. -/
def AggregateQuery.Reads (a : AggregateQuery L) (envs : List (Env L)) : Prop :=
  match a.source with
  | none => a.whereClause.reads m a.model.table = [] ∧
      (((db a.model.table).map Env.base).filter fun e =>
        a.whereClause.accepts m a.model.table e).Perm envs
  | some source => ∃ rows, source.Fetches m db rows ∧
      ((rows.map (mergedEnv m)).filter fun e => a.whereClause.accepts m a.model.table e).Perm envs

/-- The aggregate may return these values. -/
def AggregateQuery.Returns (a : AggregateQuery L) (values : List (String × L.Value)) : Prop :=
  ∃ envs, a.Reads m db envs ∧ values = aggregateValues m a.aggregates envs

/-- The database runs the query: it finds the tables that it names, and the columns of its order. -/
structure SelectQuery.Runs (q : SelectQuery L) : Prop where
  returns : ∃ rows, q.Fetches m db rows
  known : q.OrderKnown

/-- The summaries of a query are those of the rows that a fetch of it returns. -/
structure SearchedQuery.SummariesRight (text : String → L.Value) (q : SearchedQuery L) : Prop where
  count : ∀ n, (q.count text).Counts m db n ↔ ∃ rows, (q.filtered text).Fetches m db rows ∧
    n = rows.length
  /-- The test says whether there is a row. -/
  exists_ : ∀ found : Bool, (∃ n, (q.exists_ text).Counts m db n ∧ decide (0 < n) = found) ↔
    ∃ rows, (q.filtered text).Fetches m db rows ∧ decide (rows ≠ []) = found
  /-- Aggregates of columns that the rows have; they come in any order. -/
  aggregate : ∀ aggregates : List (String × AggregateExpr L),
    (∀ a ∈ aggregates, a.2.columns ⊆ (q.filtered text).outputColumns.map (·.1)) →
    ∀ values, (q.overSelect text aggregates).Returns m db values ↔
      ∃ rows rows', (q.filtered text).Fetches m db rows ∧ rows.Perm rows' ∧
        values = aggregateValues m aggregates (rows'.map (mergedEnv m))

end Meaning

section Summaries
variable {m : Meaning L} {db : Database L} {q : SelectQuery L}

private theorem derived_sameRows (hruns : q.Runs m db) (hagree : q.HelpersAgree m db) :
    SameRows (q.intoDerived.Fetches m db) (q.Fetches m db) := by
  obtain ⟨rows, hrows⟩ := hruns.returns
  by_cases hc : q.compound = []
  · exact derived_plain hc hruns.known ((fetches_plain hc).mp hrows).1 hagree
  · have horders := OrdersInScope.of_fetches hc hrows
    have hbranch : q.asBranch.compound ≠ [] := hc
    obtain ⟨envs, hselects, -⟩ :=
      (SelectQuery.answers_compound_iff hbranch).mp ((fetches_combined hc).mp hrows)
    exact derived_combined hc hruns.known hselects.1 horders.combined

private theorem count_iff_of_sameRows (h : SameRows (q.intoDerived.Fetches m db) (q.Fetches m db)) (n : Nat) :
    (CountQuery.fromSelect q).Counts m db n ↔ ∃ rows, q.Fetches m db rows ∧ n = rows.length := by
  rw [counts_fromSelect]
  constructor
  · rintro ⟨rows, hrows, rfl⟩
    obtain ⟨rows', hrows', hperm⟩ := h.1 rows hrows
    exact ⟨rows', hrows', hperm.length_eq⟩
  · rintro ⟨rows, hrows, rfl⟩
    obtain ⟨rows', hrows', hperm⟩ := h.2 rows hrows
    exact ⟨rows', hrows', hperm.length_eq.symm⟩

private theorem helpersAgree_of_count (hruns : q.Runs m db)
    (h : ∀ n, (CountQuery.fromSelect q).Counts m db n ↔ ∃ rows, q.Fetches m db rows ∧ n = rows.length) :
    q.HelpersAgree m db := by
  intro hc hd hlimit hoffset
  obtain ⟨rows, hrows⟩ := hruns.returns
  have hscope : q.InScope m := ((fetches_plain hc).mp hrows).1
  have hcount := (h _).mp ((counts_unsliced hc hlimit hoffset hscope).mpr rfl)
  obtain ⟨-, hlen⟩ := (fetches_length hc).mp hcount
  rw [slice_of_unsliced hlimit hoffset] at hlen
  exact length_dedup_eq_iff.mp hlen hd

/-- At most one row of them. -/
def atMostOne (limit : Option Int) : Option Int := some ((limit.map fun n => min n 1).getD 1)

private theorem slice_atMostOne {α : Type} {limit offset : Option Int} {l : List α} :
    slice (atMostOne limit) offset l = [] ↔ slice limit offset l = [] := by
  have hzero : atMostOne limit = some 0 ↔ limit = some 0 := by
    cases limit with
    | none => simp [atMostOne]
    | some n =>
      simp only [atMostOne, Option.map_some, Option.getD_some, Option.some.injEq]
      omega
  rw [slice_eq_nil_iff, slice_eq_nil_iff, hzero]

section Clamped
variable (q)

/-- The query that an existence test counts. -/
def SelectQuery.clamped : SelectQuery L :=
  let select := q.dropUnusedOrder
  if select.compound.isEmpty then { select with limit := atMostOne select.limit }
  else { select with compoundLimit := atMostOne select.compoundLimit }

private theorem exists_eq_fromSelect : CountQuery.exists_ q = CountQuery.fromSelect q.clamped :=
  (apply_ite CountQuery.fromSelect _ _ _).symm

private theorem clamped_plain_derived (hc : q.compound = []) :
    q.clamped.intoDerived = { q.intoDerived with limit := atMostOne q.limit } := by
  have hclamped : q.clamped = { q.dropUnusedOrder with limit := atMostOne q.limit } :=
    if_pos (List.isEmpty_iff.mpr hc)
  rw [hclamped, SelectQuery.intoDerived, SelectQuery.intoDerived]
  unfold SelectQuery.dropUnusedOrder
  simp only [atMostOne, Option.isNone_some, Bool.false_and, Bool.false_eq_true, if_false,
    SelectQuery.mk.injEq, true_and]
  refine ⟨rfl, ?_, trivial⟩
  split <;> rfl

private theorem clamped_combined_derived (hc : q.compound ≠ []) :
    q.clamped.intoDerived = { q.intoDerived with compoundLimit := atMostOne q.compoundLimit } := by
  have hclamped : q.clamped = { q.dropUnusedOrder with compoundLimit := atMostOne q.compoundLimit } :=
    if_neg (mt List.isEmpty_iff.mp hc)
  rw [hclamped, SelectQuery.intoDerived, SelectQuery.intoDerived]
  unfold SelectQuery.dropUnusedOrder
  simp only [atMostOne, Option.isNone_some, Bool.false_and, Bool.false_eq_true, if_false,
    SelectQuery.mk.injEq, true_and, and_true]
  have hon : ∀ (order : List (OrderItem L)) (by_ : List (OrderItem L)) (limit : Option Int) lock,
      ({ q with orderBy := order, compoundOrderBy := by_, compoundLimit := limit, lockMode := lock } :
        SelectQuery L).isDistinctOn = q.isDistinctOn := fun _ _ _ _ => rfl
  simp only [hon]
  split <;> rfl

private theorem clamped_plain (hc : q.compound = []) (found : Bool) :
    (∃ rows, ({ q with limit := atMostOne q.limit } : SelectQuery L).Fetches m db rows ∧
      decide (rows ≠ []) = found) ↔ ∃ rows, q.Fetches m db rows ∧ decide (rows ≠ []) = found := by
  let p : SelectQuery L := { q with limit := atMostOne q.limit }
  have hp : p.compound = [] := hc
  have hempty : ∀ l, (slice p.limit p.offset (p.dedupFetched m l)).map (p.output m) ≠ [] ↔
      (slice q.limit q.offset (q.dedupFetched m l)).map (q.output m) ≠ [] := by
    intro l
    rw [ne_eq, ne_eq, List.map_eq_nil_iff, List.map_eq_nil_iff]
    exact not_congr slice_atMostOne
  constructor
  · rintro ⟨rows, hrows, rfl⟩
    obtain ⟨hscope, draw, l, hl, hsorted, rfl⟩ := (fetches_plain hp).mp hrows
    exact ⟨_, (fetches_plain hc).mpr ⟨hscope, draw, l, hl, hsorted, rfl⟩,
      decide_eq_decide.mpr (hempty l).symm⟩
  · rintro ⟨rows, hrows, rfl⟩
    obtain ⟨hscope, draw, l, hl, hsorted, rfl⟩ := (fetches_plain hc).mp hrows
    exact ⟨_, (fetches_plain hp).mpr ⟨hscope, draw, l, hl, hsorted, rfl⟩,
      decide_eq_decide.mpr (hempty l)⟩

private theorem clamped_combined (hc : q.compound ≠ []) (found : Bool) :
    (∃ rows, ({ q with compoundLimit := atMostOne q.compoundLimit } : SelectQuery L).Fetches m db rows ∧
      decide (rows ≠ []) = found) ↔ ∃ rows, q.Fetches m db rows ∧ decide (rows ≠ []) = found := by
  let p : SelectQuery L := { q with compoundLimit := atMostOne q.compoundLimit }
  have hp : p.compound ≠ [] := hc
  have hempty : ∀ l : List (List (String × L.Value)), slice p.compoundLimit p.compoundOffset l ≠ [] ↔
      slice q.compoundLimit q.compoundOffset l ≠ [] := fun l => not_congr slice_atMostOne
  have hbranch : q.asBranch.compound ≠ [] := hc
  have hpBranch : p.asBranch.compound ≠ [] := hc
  constructor
  · rintro ⟨rows, hrows, rfl⟩
    obtain ⟨envs, henvs, combined, hfolds, hitems, draw, l, hl, hsorted, rfl⟩ :=
      (SelectQuery.answers_compound_iff hpBranch).mp ((fetches_combined hp).mp hrows)
    exact ⟨_, (fetches_combined hc).mpr ((SelectQuery.answers_compound_iff hbranch).mpr ⟨envs, henvs,
      combined, hfolds, hitems, draw, l, hl, hsorted, rfl⟩), decide_eq_decide.mpr (hempty l).symm⟩
  · rintro ⟨rows, hrows, rfl⟩
    obtain ⟨envs, henvs, combined, hfolds, hitems, draw, l, hl, hsorted, rfl⟩ :=
      (SelectQuery.answers_compound_iff hbranch).mp ((fetches_combined hc).mp hrows)
    exact ⟨_, (fetches_combined hp).mpr ((SelectQuery.answers_compound_iff hpBranch).mpr ⟨envs, henvs,
      combined, hfolds, hitems, draw, l, hl, hsorted, rfl⟩), decide_eq_decide.mpr (hempty l)⟩

end Clamped

private theorem found_iff_of_sameRows (h : SameRows (q.intoDerived.Fetches m db) (q.Fetches m db))
    (found : Bool) :
    (∃ n, (CountQuery.exists_ q).Counts m db n ∧ decide (0 < n) = found) ↔
      ∃ rows, q.Fetches m db rows ∧ decide (rows ≠ []) = found := by
  have hclamped : (∃ rows, q.clamped.intoDerived.Fetches m db rows ∧ decide (rows ≠ []) = found) ↔
      ∃ rows, q.intoDerived.Fetches m db rows ∧ decide (rows ≠ []) = found := by
    by_cases hc : q.compound = []
    · rw [clamped_plain_derived q hc]
      exact clamped_plain q.intoDerived hc found
    · rw [clamped_combined_derived q hc]
      exact clamped_combined q.intoDerived hc found
  have hnil : ∀ {a b : List (List (String × L.Value))}, a.Perm b → (a ≠ [] ↔ b ≠ []) := fun hperm => by
    rw [← List.length_pos_iff, ← List.length_pos_iff, hperm.length_eq]
  have hderived : (∃ rows, q.intoDerived.Fetches m db rows ∧ decide (rows ≠ []) = found) ↔
      ∃ rows, q.Fetches m db rows ∧ decide (rows ≠ []) = found := by
    constructor
    · rintro ⟨rows, hrows, rfl⟩
      obtain ⟨rows', hrows', hperm⟩ := h.1 rows hrows
      exact ⟨rows', hrows', decide_eq_decide.mpr (hnil hperm).symm⟩
    · rintro ⟨rows, hrows, rfl⟩
      obtain ⟨rows', hrows', hperm⟩ := h.2 rows hrows
      exact ⟨rows', hrows', decide_eq_decide.mpr (hnil hperm)⟩
  rw [← hderived, ← hclamped, exists_eq_fromSelect]
  simp only [counts_fromSelect]
  constructor
  · rintro ⟨n, ⟨rows, hrows, rfl⟩, rfl⟩
    exact ⟨rows, hrows, decide_eq_decide.mpr List.length_pos_iff.symm⟩
  · rintro ⟨rows, hrows, rfl⟩
    exact ⟨rows.length, ⟨rows, hrows, rfl⟩, decide_eq_decide.mpr List.length_pos_iff⟩

private theorem columnOf_output (hjoins : q.joins = []) (e : Env L) {c : String}
    (hc : c ∈ q.outputColumns.map (·.1)) :
    columnOf m (mergedEnv m (q.output m e)).main c = columnOf m e.main c := by
  have houtput : q.output m e = (q.projection.getD (q.model.fields.map (·.column))).map fun c =>
      (c, columnOf m e.main c) := by
    simp [SelectQuery.output, hjoins]
  have hmem : c ∈ q.projection.getD (q.model.fields.map (·.column)) := by
    simpa [SelectQuery.outputColumns, hjoins] using hc
  rw [houtput]
  generalize q.projection.getD (q.model.fields.map (·.column)) = cols at hmem
  change (((cols.map fun c => (c, columnOf m e.main c)).find? fun p => p.1 = c).map (·.2)).getD m.null = _
  induction cols with
  | nil => cases hmem
  | cons d ds ih =>
    by_cases hd : d = c
    · simp [hd]
    · have hds : c ∈ ds := (List.mem_cons.mp hmem).resolve_left (Ne.symm hd)
      simpa [hd] using ih hds

private theorem derived_returns_iff (h : SameRows (q.intoDerived.Fetches m db) (q.Fetches m db))
    (aggregates : List (String × AggregateExpr L)) (values : List (String × L.Value)) :
    (⟨q.model, .and [], aggregates, some q.intoDerived⟩ : AggregateQuery L).Returns m db values ↔
      ∃ rows rows', q.Fetches m db rows ∧ rows.Perm rows' ∧
        values = aggregateValues m aggregates (rows'.map (mergedEnv m)) := by
  have hall : ∀ envs : List (Env L), (envs.filter fun e =>
      (WhereExpr.and [] : WhereExpr L Empty).accepts m q.model.table e) = envs := fun envs => by
    simp only [accepts_nil, List.filter_true]
  constructor
  · rintro ⟨envs, ⟨rows, hrows, hperm⟩, rfl⟩
    rw [hall] at hperm
    obtain ⟨rows', hrows', rfl⟩ := exists_of_map_perm hperm
    obtain ⟨fetched, hfetched, hsame⟩ := h.1 rows hrows
    exact ⟨fetched, rows', hfetched, hsame.symm.trans hrows', rfl⟩
  · rintro ⟨rows, rows', hrows, hperm, rfl⟩
    obtain ⟨derived, hderived, hsame⟩ := h.2 rows hrows
    refine ⟨_, ⟨derived, hderived, ?_⟩, rfl⟩
    rw [hall]
    exact (hsame.trans hperm).map _

/-- An aggregate over the table. -/
private theorem plain_returns_iff (hplain : q.isPlainFilter = true) (hruns : q.Runs m db)
    {aggregates : List (String × AggregateExpr L)}
    (hcols : ∀ a ∈ aggregates, a.2.columns ⊆ q.outputColumns.map (·.1)) (values : List (String × L.Value)) :
    (⟨q.model, q.whereClause, aggregates, none⟩ : AggregateQuery L).Returns m db values ↔
      ∃ rows rows', q.Fetches m db rows ∧ rows.Perm rows' ∧
        values = aggregateValues m aggregates (rows'.map (mergedEnv m)) := by
  simp only [SelectQuery.isPlainFilter, Bool.and_eq_true, List.isEmpty_iff,
    Option.isNone_iff_eq_none] at hplain
  obtain ⟨⟨⟨⟨⟨hjoins, hsub⟩, hlimit⟩, hoffset⟩, hdistinct⟩, hc⟩ := hplain
  have hmatching : q.matching m db =
      ((db q.model.table).map Env.base).filter fun e => q.whereClause.accepts m q.model.table e := by
    simp [SelectQuery.matching, SelectQuery.sources, hjoins, hsub]
  have hkept : ∀ l, slice q.limit q.offset (q.dedupFetched m l) = l := by
    intro l
    rw [slice_of_unsliced hlimit hoffset, dedupFetched_of_ne (by simp [hdistinct]), SelectQuery.dedup,
      hdistinct]
  obtain ⟨some_, hsome⟩ := hruns.returns
  have hscope : q.InScope m := ((fetches_plain hc).mp hsome).1
  have hwhere : q.whereClause.reads m q.model.table = [] := by
    have haliases : q.aliases = [] := by simp [SelectQuery.aliases, hjoins, hsub]
    have hreads := hscope.2.1
    rw [haliases] at hreads
    exact List.subset_nil.mp hreads
  -- The labels of a fetched row stand for the columns of the table.
  have hvalues : ∀ l, aggregateValues m aggregates ((l.map (q.output m)).map (mergedEnv m)) =
      aggregateValues m aggregates l := by
    intro l
    apply List.map_congr_left
    intro a ha
    have hrows : ((l.map (q.output m)).map (mergedEnv m)).map (fun e => a.2.columns.map (columnOf m e.main)) =
        l.map fun e => a.2.columns.map (columnOf m e.main) := by
      rw [List.map_map, List.map_map]
      apply List.map_congr_left
      intro e _
      exact List.map_congr_left fun c hc => columnOf_output hjoins e (hcols a ha hc)
    rw [hrows]
  constructor
  · rintro ⟨envs, ⟨-, hperm⟩, rfl⟩
    obtain ⟨l, hl, hsorted⟩ := exists_arrangement m q.model.table (fun _ => 0) q.orderBy
      (q.matching m db)
    refine ⟨_, envs.map (q.output m), (fetches_plain hc).mpr ⟨hscope, fun _ => 0, l, hl, hsorted, rfl⟩,
      ?_, (hvalues envs).symm⟩
    rw [hkept]
    exact (hl.symm.trans (hmatching ▸ hperm)).map _
  · rintro ⟨rows, rows', hrows, hperm, rfl⟩
    obtain ⟨-, draw, l, hl, -, rfl⟩ := (fetches_plain hc).mp hrows
    rw [hkept] at hperm
    obtain ⟨envs, henvs, rfl⟩ := exists_of_map_perm hperm
    exact ⟨envs, ⟨hwhere, hmatching ▸ hl.trans henvs⟩, hvalues envs⟩

end Summaries

section Right
variable {m : Meaning L} {db : Database L} {text : String → L.Value} {q : SearchedQuery L}

private theorem overSelect_returns_iff (hruns : (q.filtered text).Runs m db)
    (hagree : (q.filtered text).HelpersAgree m db) {aggregates : List (String × AggregateExpr L)}
    (hcols : ∀ a ∈ aggregates, a.2.columns ⊆ (q.filtered text).outputColumns.map (·.1))
    (values : List (String × L.Value)) :
    (q.overSelect text aggregates).Returns m db values ↔
      ∃ rows rows', (q.filtered text).Fetches m db rows ∧ rows.Perm rows' ∧
        values = aggregateValues m aggregates (rows'.map (mergedEnv m)) := by
  unfold SearchedQuery.overSelect
  split
  · rename_i htable
    rw [Bool.and_eq_true, Option.isNone_iff_eq_none] at htable
    have hfiltered : (q.filtered text).whereClause = q.select.whereClause := by
      change whereWithSearch text q.select.whereClause q.search = _
      rw [htable.1]
      rfl
    rw [← hfiltered]
    exact plain_returns_iff (q := q.filtered text) htable.2 hruns hcols values
  · exact derived_returns_iff (derived_sameRows hruns hagree) aggregates values

end Right

/-- The authors of the books, each once, in the order of the books. -/
private def authorsByBook (limit : Option Int) : SearchedQuery IntLang where
  select := { SelectQuery.new book with
    projection := some ["author"]
    distinct := some .all
    orderBy := [.column "id" false .default]
    limit := limit }
  search := none

private theorem authorsByBook_inScope (limit : Option Int) :
    ((authorsByBook limit).filtered fun _ => none).InScope intMeaning := by
  refine ⟨?_, ?_, ?_⟩
  · simp [authorsByBook, SearchedQuery.filtered, SelectQuery.aliases, SelectQuery.new]
  · simp [authorsByBook, SearchedQuery.filtered, whereWithSearch, SelectQuery.new, WhereExpr.reads,
      WhereExpr.readsAll]
  · simp [authorsByBook, SearchedQuery.filtered, OrderItem.reads]

private theorem authorsByBook_runs (limit : Option Int) :
    ((authorsByBook limit).filtered fun _ => none).Runs intMeaning twoBooks := by
  constructor
  · have hfetch : ∃ rows, ((authorsByBook limit).filtered fun _ => none).Fetches intMeaning twoBooks rows ∧
        _ = rows.length := (fetches_length rfl).mpr ⟨authorsByBook_inScope limit, rfl⟩
    obtain ⟨rows, hrows, -⟩ := hfetch
    exact ⟨rows, hrows⟩
  · intro i hi c hc
    obtain rfl : i = .column "id" false .default := by simpa [authorsByBook, SearchedQuery.filtered] using hi
    obtain rfl : "id" = c := Option.some.inj hc
    exact List.mem_cons_self

end Rustango.Query
