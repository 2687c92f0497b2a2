import Mathlib
import Rustango.Query.Count
import Rustango.Query.DmlFetch
import Rustango.Query.InLists

/-!
# Fetching over batches of keys

A fetch whose keys pass the bind cap sends one statement for each batch. The rows are those of one `IN`
list over all keys when the filter commutes with what the query does after it; a limit or an offset is
refused, `DISTINCT ON` is not.
-/

namespace Rustango.Query

open Rustango.Chunks Rustango.Firsts Rustango.Outcome

variable {L : Lang}

namespace QuerySet

def filterOp (qs : QuerySet L) (field : String) (op : Op) (value : L.Value) : QuerySet L :=
  { qs with pending := qs.pending ++ [.raw field op value] }

def isSliced (qs : QuerySet L) : Bool :=
  qs.limit.isSome || qs.offset.isSome || qs.headLimit.isSome || qs.headOffset.isSome

end QuerySet

section Filter
variable {core : Core L} {model : ModelSchema L}

private theorem lowerRelationSpans_concat {joins joins' : List (Join L)}
    {pending pending' : List (PendingFilter L)}
    {field : String} {op : Op} {value : L.Value}
    (h : lowerRelationSpans core model joins (pending ++ [.raw field op value]) = .ok (pending', joins')) :
    ∃ rest, lowerRelationSpans core model joins pending = .ok (rest, joins') ∧
      pending' = rest ++ [.raw field op value] := by
  induction pending generalizing joins pending' with
  | nil =>
    obtain ⟨rfl, rfl⟩ := Prod.mk.inj (Except.ok.inj h)
    exact ⟨[], rfl, rfl⟩
  | cons pf pending ih =>
    rw [List.cons_append, lowerRelationSpans] at h
    obtain ⟨⟨pf', js⟩, hconvert, h⟩ := bind_eq_ok.mp h
    obtain ⟨⟨more, js'⟩, hmore, h⟩ := bind_eq_ok.mp h
    obtain ⟨rfl, rfl⟩ := Prod.mk.inj (Except.ok.inj h)
    obtain ⟨rest, hrest, rfl⟩ := ih hmore
    refine ⟨pf' :: rest, ?_, rfl⟩
    rw [lowerRelationSpans]
    exact bind_eq_ok.mpr ⟨_, hconvert, bind_eq_ok.mpr ⟨_, hrest, rfl⟩⟩

private theorem resolvePending_concat {pending : List (PendingFilter L)} {w : WhereExpr L Empty}
    {field : String}
    {op : Op} {value : L.Value}
    (h : resolvePending core model (pending ++ [.raw field op value]) = .ok w) :
    ∃ ws f, resolvePending core model pending = .ok (.and ws) ∧ model.field field = some f ∧
      w = .and (ws ++ [.predicate ⟨f.column, op, value⟩]) := by
  obtain ⟨all, hall, rfl⟩ := map_eq_ok.mp h
  rw [List.mapM_append] at hall
  obtain ⟨ws, hws, hall⟩ := bind_eq_ok.mp hall
  obtain ⟨last, hlast, hall⟩ := bind_eq_ok.mp hall
  obtain rfl := Except.ok.inj hall
  obtain ⟨w, hw, hlast⟩ := bind_eq_ok.mp hlast
  obtain rfl := Except.ok.inj hlast
  rw [resolveOnePending] at hw
  obtain ⟨f, hf, hw⟩ := bind_eq_ok.mp hw
  obtain ⟨_, -, hw⟩ := bind_eq_ok.mp hw
  obtain rfl := Except.ok.inj hw
  exact ⟨ws, f, map_eq_ok.mpr ⟨ws, hws, rfl⟩, okOr_eq_ok.mp hf, rfl⟩

namespace QuerySet
variable {qs : QuerySet L} {base q : SelectQuery L} {field : String} {op : Op} {value : L.Value}

theorem prepared_filterOp : (qs.filterOp field op value).prepared =
    { qs.prepared with pending := qs.prepared.pending ++ [.raw field op value] } := by
  unfold prepared filterOp applyGlobalScopes applyReverse
  dsimp only
  by_cases hscopes : qs.disableAllGlobalScopes = true
  · by_cases hreversed : qs.reversed = true <;> simp [hscopes, hreversed, flipOrderBy]
  · by_cases hreversed : qs.reversed = true <;> simp [hscopes, hreversed, flipOrderBy]

/-- One more filter is one more conjunct. -/
theorem compile_filterOp (h : qs.compile core = .ok base)
    (h' : (qs.filterOp field op value).compile core = .ok q) :
    ∃ ws f, base.whereClause = .and ws ∧ qs.model.field field = some f ∧
      q = { base with whereClause := .and (ws ++ [.predicate ⟨f.column, op, value⟩]) } := by
  have hbase := compiled_of_compile h
  have hq := compiled_of_compile h'
  have hhead : (qs.filterOp field op value).headItems = qs.headItems := by
    rw [headItems, prepared_filterOp]
    rfl
  have hcombined : (qs.filterOp field op value).combinedItems = qs.combinedItems := by
    rw [combinedItems, prepared_filterOp]
    rfl
  obtain ⟨pending, spanJoins, related, added, joins, orderJoins, combinedJoins, hpending, hwhere,
    hrelated, hadd, hjoins, horder, hcombine, hmerge⟩ := hbase.lowered
  obtain ⟨pending', spanJoins', related', added', joins', orderJoins', combinedJoins', hpending', hwhere',
    hrelated', hadd', hjoins', horder', hcombine', hmerge'⟩ := hq.lowered
  rw [prepared_filterOp] at hpending'
  obtain ⟨rest, hrest, rfl⟩ := lowerRelationSpans_concat hpending'
  obtain ⟨rfl, rfl⟩ := Prod.mk.inj (Except.ok.inj (hpending.symm.trans hrest))
  obtain ⟨ws, f, hws, hf, hlast⟩ := resolvePending_concat hwhere'
  obtain rfl := Except.ok.inj (hrelated.symm.trans hrelated')
  obtain rfl := Except.ok.inj (hadd.symm.trans hadd')
  obtain rfl := Except.ok.inj (hjoins.symm.trans hjoins')
  rw [hhead] at horder'
  rw [hcombined] at hcombine'
  obtain ⟨horders, rfl⟩ := Prod.mk.inj (Except.ok.inj (horder.symm.trans horder'))
  obtain ⟨hcompounds, rfl⟩ := Prod.mk.inj (Except.ok.inj (hcombine.symm.trans hcombine'))
  have hmerged := Except.ok.inj (hmerge.symm.trans hmerge')
  refine ⟨ws, f, Except.ok.inj (hwhere.symm.trans hws), hf, ?_⟩
  cases q
  simp only [SelectQuery.mk.injEq]
  exact ⟨hq.model.trans hbase.model.symm, hlast, hmerged.symm,
    hq.subqueryJoins.trans hbase.subqueryJoins.symm, horders.symm, hq.limit.trans hbase.limit.symm,
    hq.offset.trans hbase.offset.symm, hq.lockMode.trans hbase.lockMode.symm,
    hq.compound.trans hbase.compound.symm, hq.projection.trans hbase.projection.symm,
    hq.distinct.trans hbase.distinct.symm, hcompounds.symm,
    hq.compoundLimit.trans hbase.compoundLimit.symm, hq.compoundOffset.trans hbase.compoundOffset.symm⟩

end QuerySet

end Filter

section RowSets
variable {m : Meaning L} {db : Database L} {a b rows : List (List (String × L.Value))}

private theorem present_of_same {r r' : List (String × L.Value)} (h : present m rows r)
    (hsame : sameOutput m r r' = true) : present m rows r' := by
  obtain ⟨x, hx, hxr⟩ := h
  exact ⟨x, hx, sameOutput_trans hxr hsame⟩

private theorem present_of_mem {r : List (String × L.Value)} (h : r ∈ rows) : present m rows r :=
  ⟨r, h, sameOutput_refl r⟩

private theorem present_map_iff {q : SelectQuery L} {envs : List (Env L)} {r : List (String × L.Value)} :
    present m (envs.map (q.output m)) r ↔ ∃ e ∈ envs, sameOutput m (q.output m e) r = true := by
  simp [present]

/-- The rows that a set operation keeps, told by whether each side has them. -/
def SetOp.Keeps (op : SetOp) (left right : Prop) : Prop :=
  match op with
  | .unionAll => left ∨ right
  | .union => left ∨ right
  | .intersection => left ∧ right
  | .difference => left ∧ ¬ right

private theorem present_combines {op : SetOp} (h : op.Combines m a b rows) (r : List (String × L.Value)) :
    present m rows r ↔ op.Keeps (present m a r) (present m b r) := by
  have happend : present m (a ++ b) r ↔ present m a r ∨ present m b r := by
    simp [present, or_and_right, exists_or]
  cases op with
  | unionAll =>
    rw [SetOp.Keeps, ← happend]
    constructor
    · exact fun ⟨x, hx, hxr⟩ => ⟨x, h.mem_iff.mpr hx, hxr⟩
    · exact fun ⟨x, hx, hxr⟩ => ⟨x, h.mem_iff.mp hx, hxr⟩
  | union =>
    rw [SetOp.Keeps, ← happend]
    constructor
    · exact fun ⟨x, hx, hxr⟩ => ⟨x, h.1 hx, hxr⟩
    · exact fun ⟨x, hx, hxr⟩ => present_of_same (h.2.2 x hx) hxr
  | intersection =>
    constructor
    · intro ⟨x, hx, hxr⟩
      obtain ⟨hxa, hxb⟩ := h.1 x hx
      exact ⟨⟨x, hxa, hxr⟩, present_of_same hxb hxr⟩
    · intro ⟨⟨x, hx, hxr⟩, hb⟩
      exact present_of_same (h.2.2 x hx (present_of_same hb (sameOutput_symm hxr))) hxr
  | difference =>
    constructor
    · intro ⟨x, hx, hxr⟩
      obtain ⟨hxa, hxb⟩ := h.1 x hx
      exact ⟨⟨x, hxa, hxr⟩, fun hb => hxb (present_of_same hb (sameOutput_symm hxr))⟩
    · intro ⟨⟨x, hx, hxr⟩, hb⟩
      exact present_of_same (h.2.2 x hx fun hxb => hb (present_of_same hxb hxr)) hxr

private theorem exists_combines (op : SetOp) (a b : List (List (String × L.Value))) :
    ∃ rows, op.Combines m a b rows := by
  classical
  have hfirsts : ∀ l : List (List (String × L.Value)), firsts (sameOutput m) l ⊆ l ∧
      Apart (sameOutput m) (firsts (sameOutput m) l) ∧
      ∀ r ∈ l, present m (firsts (sameOutput m) l) r := by
    intro l
    refine ⟨(firsts_sublist _ l).subset, firsts_apart _ l, fun r hr => ?_⟩
    obtain ⟨x, hx, hxr⟩ := exists_mem_firsts (sameOutput m) sameOutput_refl
      (fun _ _ _ => sameOutput_trans) hr
    exact ⟨x, hx, hxr⟩
  cases op with
  | unionAll => exact ⟨a ++ b, List.Perm.refl _⟩
  | union => exact ⟨_, hfirsts (a ++ b)⟩
  | intersection =>
    obtain ⟨hsub, hapart, hall⟩ := hfirsts (a.filter fun r => present m b r)
    refine ⟨_, fun r hr => by simpa using hsub hr, hapart, fun r hr hb => hall r ?_⟩
    simpa using ⟨hr, hb⟩
  | difference =>
    obtain ⟨hsub, hapart, hall⟩ := hfirsts (a.filter fun r => ¬ present m b r)
    refine ⟨_, fun r hr => by simpa using hsub hr, hapart, fun r hr hb => hall r ?_⟩
    simpa using ⟨hr, hb⟩

/-- The query has one row set, whatever its ties and random keys. -/
def Steady (m : Meaning L) (q : SelectQuery L) : Prop :=
  ∀ db rows rows', q.Answers m db rows → q.Answers m db rows' → ∀ r, present m rows r ↔ present m rows' r

variable {ι : Type} [Nonempty ι] {accs combineds : ι → List (List (String × L.Value))}

private theorem folds_union {branches : List (CompoundBranch L)} (hsteady : ∀ b ∈ branches, Steady m b.query)
    (hfolds : ∀ i, SelectQuery.Folds m db branches (accs i) (combineds i))
    (ha : ∀ r, present m a r ↔ ∃ i, present m (accs i) r) :
    ∃ rows, SelectQuery.Folds m db branches a rows ∧
      ∀ r, present m rows r ↔ ∃ i, present m (combineds i) r := by
  induction branches generalizing a accs with
  | nil =>
    refine ⟨a, by rw [SelectQuery.Folds], fun r => ?_⟩
    simp only [SelectQuery.Folds] at hfolds
    simp only [ha, hfolds]
  | cons branch branches ih =>
    obtain ⟨op, query⟩ := branch
    simp only [SelectQuery.Folds] at hfolds
    choose bs cs hbs hcs hrest using hfolds
    have i₀ : ι := Classical.arbitrary ι
    obtain ⟨c, hc⟩ := exists_combines (m := m) op a (bs i₀)
    have hquery : Steady m query := hsteady ⟨op, query⟩ List.mem_cons_self
    have hunion : ∀ r, present m c r ↔ ∃ i, present m (cs i) r := by
      intro r
      have hb : ∀ i, present m (bs i) r ↔ present m (bs i₀) r := fun i =>
        hquery db (bs i) (bs i₀) (hbs i) (hbs i₀) r
      simp only [present_combines hc r, present_combines (hcs _) r, hb, ha]
      cases op with
      | unionAll => simp only [SetOp.Keeps, exists_or, exists_const]
      | union => simp only [SetOp.Keeps, exists_or, exists_const]
      | intersection => simp only [SetOp.Keeps, exists_and_right]
      | difference => simp only [SetOp.Keeps, exists_and_right]
    obtain ⟨rows, hrows, hpresent⟩ := ih (fun b hb => hsteady b (List.mem_cons_of_mem _ hb)) hrest hunion
    refine ⟨rows, ?_, hpresent⟩
    rw [SelectQuery.Folds]
    exact ⟨bs i₀, c, hbs i₀, hc, hrows⟩

private theorem present_firsts {q : SelectQuery L} {s : Env L → Env L → Bool} (hrefl : ∀ e, s e e = true)
    (htrans : ∀ e e' e'', s e e' = true → s e' e'' = true → s e e'' = true)
    (hsame : ∀ e e', s e e' = true → sameOutput m (q.output m e) (q.output m e') = true)
    {l : List (Env L)} {r : List (String × L.Value)} :
    present m ((firsts s l).map (q.output m)) r ↔ present m (l.map (q.output m)) r := by
  rw [present_map_iff, present_map_iff]
  constructor
  · exact fun ⟨e, he, her⟩ => ⟨e, (firsts_sublist s l).subset he, her⟩
  · intro ⟨e, he, her⟩
    obtain ⟨x, hx, hxe⟩ := exists_mem_firsts s hrefl htrans he
    exact ⟨x, hx, sameOutput_trans (hsame x e hxe) her⟩

private theorem present_dedup {q : SelectQuery L} (hon : q.isDistinctOn = false) {l : List (Env L)}
    {r : List (String × L.Value)} :
    present m ((q.dedup m l).map (q.output m)) r ↔ present m (l.map (q.output m)) r := by
  unfold SelectQuery.isDistinctOn at hon
  unfold SelectQuery.dedup
  split
  · exact Iff.rfl
  · exact present_firsts (s := fun e e' => sameOutput m (q.output m e) (q.output m e'))
      (fun _ => sameOutput_refl _) (fun _ _ _ => sameOutput_trans) fun _ _ => id
  · rename_i cols hcols
    rw [hcols] at hon
    cases hon

private theorem present_dedupFetched {q : SelectQuery L} (hon : q.isDistinctOn = false) {l : List (Env L)}
    {r : List (String × L.Value)} :
    present m ((q.dedupFetched m l).map (q.output m)) r ↔ present m (l.map (q.output m)) r := by
  unfold SelectQuery.dedupFetched
  split
  · apply present_firsts wide_refl wide_trans
    intro e e' h
    rw [wide, Bool.and_eq_true] at h
    exact h.1
  · exact present_dedup hon

end RowSets

section Narrowed
variable {m : Meaning L} {v : SqlValues L} {db : Database L} {base : SelectQuery L}
variable {ws : List (WhereExpr L Empty)} {column : String} {keys keys' : List L.Value}

/-- The query with one more `IN` list. -/
def SelectQuery.narrowed (v : SqlValues L) (base : SelectQuery L) (ws : List (WhereExpr L Empty))
    (column : String) (keys : List L.Value) : SelectQuery L :=
  { base with whereClause := .and (ws ++ [.predicate ⟨column, .in_, v.list keys⟩]) }

private theorem accepts_narrowed (hm : ReadsKeys m v) (hbase : base.whereClause = .and ws) (e : Env L) :
    (base.narrowed v ws column keys).whereClause.accepts m base.model.table e = true ↔
      base.whereClause.accepts m base.model.table e = true ∧
        ∃ k ∈ keys, m.compare .eq (columnOf m e.main column) k = some true := by
  have hpred : ∀ sub, (WhereExpr.predicate ⟨column, .in_, v.list keys⟩ : WhereExpr L Empty).holds m
      base.model.table sub e = some true ↔
        ∃ k ∈ keys, m.compare .eq (columnOf m e.main column) k = some true := by
    intro sub
    rw [WhereExpr.holds, hm.in_, or3_eq_true, List.mem_map]
  rw [SelectQuery.narrowed, hbase]
  simp only [WhereExpr.accepts, decide_eq_true_eq, holds_and, List.forall_mem_append,
    List.mem_singleton, forall_eq, hpred]

private theorem mem_matching_narrowed (hm : ReadsKeys m v) (hbase : base.whereClause = .and ws) {e : Env L} :
    e ∈ (base.narrowed v ws column keys).matching m db ↔ e ∈ base.matching m db ∧
      ∃ k ∈ keys, m.compare .eq (columnOf m e.main column) k = some true := by
  rw [SelectQuery.matching, SelectQuery.matching, List.mem_filter, List.mem_filter, and_assoc]
  exact and_congr_right fun _ => accepts_narrowed hm hbase e

private theorem readsAll_concat (table : String) (ws : List (WhereExpr L Empty)) (f : Filter L) :
    WhereExpr.readsAll m table (ws ++ [.predicate f]) = WhereExpr.readsAll m table ws := by
  induction ws with
  | nil => simp [WhereExpr.readsAll, WhereExpr.reads]
  | cons w ws ih => rw [List.cons_append, WhereExpr.readsAll, ih, WhereExpr.readsAll]

private theorem reads_narrowed (hbase : base.whereClause = .and ws) :
    (base.narrowed v ws column keys).whereClause.reads m base.model.table =
      base.whereClause.reads m base.model.table := by
  rw [hbase, SelectQuery.narrowed, WhereExpr.reads, WhereExpr.reads, readsAll_concat]

private theorem inScope_narrowed (hbase : base.whereClause = .and ws) :
    (base.narrowed v ws column keys).InScope m ↔ base.InScope m := by
  change (_ ∧ (base.narrowed v ws column keys).whereClause.reads m base.model.table ⊆ base.aliases ∧ _) ↔ _
  rw [reads_narrowed hbase]
  exact Iff.rfl

private theorem inScope_asBranch (hbase : base.whereClause = .and ws) :
    (base.narrowed v ws column keys).asBranch.InScope m ↔ base.asBranch.InScope m := by
  have hbranch : base.asBranch.whereClause = .and ws := hbase
  exact inScope_narrowed hbranch

private theorem fetches_of_matching {q : SelectQuery L} {w w' : WhereExpr L Empty}
    (hreads : w.reads m q.model.table = w'.reads m q.model.table)
    (hmatching : ({ q with whereClause := w } : SelectQuery L).matching m db =
      ({ q with whereClause := w' } : SelectQuery L).matching m db)
    {rows : List (List (String × L.Value))}
    (h : ({ q with whereClause := w } : SelectQuery L).Fetches m db rows) :
    ({ q with whereClause := w' } : SelectQuery L).Fetches m db rows := by
  by_cases hc : q.compound = []
  · obtain ⟨hscope, draw, l, hl, hsorted, hrows⟩ := (fetches_plain (by exact hc)).mp h
    refine (fetches_plain (by exact hc)).mpr ⟨⟨hscope.1, ?_, hscope.2.2⟩, draw, l, ?_, hsorted, hrows⟩
    · exact hreads ▸ hscope.2.1
    · exact hmatching ▸ hl
  · obtain ⟨envs, ⟨hscope, draw, l, hl, hsorted, henvs⟩, hrest⟩ :=
      (SelectQuery.answers_compound_iff (by exact hc)).mp ((fetches_combined (by exact hc)).mp h)
    refine (fetches_combined (by exact hc)).mpr ((SelectQuery.answers_compound_iff (by exact hc)).mpr
      ⟨envs, ⟨⟨hscope.1, ?_, hscope.2.2⟩, draw, l, ?_, hsorted, henvs⟩, hrest⟩)
    · exact hreads ▸ hscope.2.1
    · exact hmatching ▸ hl

private theorem fetches_of_found (hm : ReadsKeys m v) (hbase : base.whereClause = .and ws)
    (hfound : ∀ x, (∃ k ∈ keys, m.compare .eq x k = some true) ↔
      ∃ k ∈ keys', m.compare .eq x k = some true) {rows : List (List (String × L.Value))}
    (h : (base.narrowed v ws column keys).Fetches m db rows) :
    (base.narrowed v ws column keys').Fetches m db rows := by
  refine fetches_of_matching ?_ ?_ h
  · exact (reads_narrowed hbase).trans (reads_narrowed hbase).symm
  · apply List.filter_congr
    intro e _
    rw [Bool.eq_iff_iff]
    refine (accepts_narrowed hm hbase e).trans (Iff.trans ?_ (accepts_narrowed hm hbase e).symm)
    exact and_congr_right fun _ => hfound _

/-- No limit or offset cuts the rows, unless the query is empty anyway. -/
structure Unsliced (q : SelectQuery L) : Prop where
  head : q.compound ≠ [] → q.limit = none
  limit : q.limit = none ∨ q.limit = some 0
  offset : q.offset = none
  compoundLimit : q.compoundLimit = none ∨ q.compoundLimit = some 0
  compoundOffset : q.compoundOffset = none

private theorem slice_none {α : Type} (l : List α) : slice none none l = l := rfl

private theorem slice_zero {α : Type} (offset : Option Int) (l : List α) : slice (some 0) offset l = [] :=
  window_some_zero _ _

variable {ι : Type} {batch : ι → List L.Value}
variable {rowsOf : ι → List (List (String × L.Value))}

section Union
variable (hm : ReadsKeys m v) (hbase : base.whereClause = .and ws) (hunsliced : Unsliced base)
variable (hon : base.isDistinctOn = false)
variable (hfound : ∀ x, (∃ k ∈ keys, m.compare .eq x k = some true) ↔
  ∃ i, ∃ k ∈ batch i, m.compare .eq x k = some true)
variable (hfetches : ∀ i, (base.narrowed v ws column (batch i)).Fetches m db (rowsOf i))
include hm hbase hfound

private theorem present_matching {ls : ι → List (Env L)} {l : List (Env L)}
    (hls : ∀ i, ((base.narrowed v ws column (batch i)).matching m db).Perm (ls i))
    (hl : ((base.narrowed v ws column keys).matching m db).Perm l) (r : List (String × L.Value)) :
    present m (l.map (base.output m)) r ↔ ∃ i, present m ((ls i).map (base.output m)) r := by
  simp only [present_map_iff, ← hl.mem_iff, ← (hls _).mem_iff, mem_matching_narrowed hm hbase, hfound]
  constructor
  · intro ⟨e, ⟨he, i, hk⟩, hr⟩
    exact ⟨i, e, ⟨he, hk⟩, hr⟩
  · intro ⟨i, e, ⟨he, hk⟩, hr⟩
    exact ⟨e, ⟨he, i, hk⟩, hr⟩

variable [Nonempty ι]
include hunsliced hon hfetches

private theorem fetches_union_plain (hc : base.compound = []) :
    ∃ rows, (base.narrowed v ws column keys).Fetches m db rows ∧
      ∀ r, present m rows r ↔ ∃ i, present m (rowsOf i) r := by
  have hrows := fun i => (fetches_plain (by exact hc)).mp (hfetches i)
  choose hscopes draws ls hls hsorted hrowsOf using hrows
  obtain ⟨i₀⟩ := ‹Nonempty ι›
  obtain ⟨l, hl, hlsorted⟩ := exists_arrangement m base.model.table (fun _ => 0) base.orderBy
    ((base.narrowed v ws column keys).matching m db)
  have hscope : (base.narrowed v ws column keys).InScope m :=
    (inScope_narrowed hbase).mpr ((inScope_narrowed hbase).mp (hscopes i₀))
  refine ⟨_, (fetches_plain (by exact hc)).mpr ⟨hscope, fun _ => 0, l, hl, hlsorted, rfl⟩, fun r => ?_⟩
  have hlimits : ∀ keys, (base.narrowed v ws column keys).limit = base.limit := fun _ => rfl
  have hoffsets : ∀ keys, (base.narrowed v ws column keys).offset = none := fun _ => hunsliced.offset
  rcases hunsliced.limit with hlimit | hlimit
  · rw [hlimits, hlimit, hoffsets, slice_none]
    refine (present_dedupFetched hon).trans ((present_matching hm hbase hfound hls hl r).trans ?_)
    apply exists_congr
    intro i
    rw [hrowsOf i, hlimits, hlimit, hoffsets, slice_none]
    exact (present_dedupFetched hon).symm
  · simp [hrowsOf, hlimits, hlimit, slice_zero, present]

/-- With set operations the batches narrow the head, and the branches are folded onto each. -/
private theorem fetches_union_combined (hc : base.compound ≠ [])
    (hsteady : ∀ b ∈ base.compound, Steady m b.query) :
    ∃ rows, (base.narrowed v ws column keys).Fetches m db rows ∧
      ∀ r, present m rows r ↔ ∃ i, present m (rowsOf i) r := by
  have hrows := fun i =>
    (SelectQuery.answers_compound_iff (by exact hc)).mp ((fetches_combined (by exact hc)).mp (hfetches i))
  choose envs hselects combineds hfolds hwindows using hrows
  choose hscopes draws ls hls hsorted henvs using hselects
  choose hitems draws' ms hms hsorted' hrowsOf using hwindows
  obtain ⟨i₀⟩ := ‹Nonempty ι›
  have hhead := hunsliced.head hc
  have hoffset := hunsliced.offset
  obtain ⟨l, hl, hlsorted⟩ := exists_arrangement m base.model.table (fun _ => 0) base.asBranch.orderBy
    ((base.narrowed v ws column keys).matching m db)
  have hunion : ∀ r, present m ((base.dedup m l).map (base.output m)) r ↔
      ∃ i, present m ((envs i).map (base.output m)) r := by
    intro r
    refine (present_dedup hon).trans ((present_matching hm hbase hfound hls hl r).trans ?_)
    apply exists_congr
    intro i
    have henv : envs i = base.dedup m (ls i) := by
      refine (henvs i).trans ?_
      change slice base.limit base.offset (base.dedup m (ls i)) = _
      rw [hhead, hoffset, slice_none]
    rw [henv]
    exact (present_dedup hon).symm
  obtain ⟨combined, hcombined, hpresent⟩ := folds_union hsteady hfolds hunion
  obtain ⟨k, hk, hksorted⟩ := exists_arrangement m base.model.table (fun _ => 0) base.compoundOrderBy
    (combined.map (mergedEnv m))
  obtain ⟨sorted, hsortedPerm, rfl⟩ := exists_of_map_perm hk
  have hscope : (base.narrowed v ws column keys).asBranch.InScope m :=
    (inScope_asBranch hbase).mpr
      ((inScope_asBranch hbase).mp (hscopes i₀))
  refine ⟨slice base.compoundLimit base.compoundOffset sorted, (fetches_combined (by exact hc)).mpr
    ((SelectQuery.answers_compound_iff (by exact hc)).mpr ⟨base.dedup m l,
      ⟨hscope, fun _ => 0, l, hl, hlsorted, ?_⟩, combined, hcombined, hitems i₀, fun _ => 0, sorted,
      hsortedPerm, hksorted, rfl⟩), fun r => ?_⟩
  · change _ = slice base.limit base.offset (base.dedup m l)
    rw [hhead, hoffset, slice_none]
  · have hrows : ∀ i, rowsOf i = slice base.compoundLimit base.compoundOffset (ms i) := hrowsOf
    rcases hunsliced.compoundLimit with hlimit | hlimit
    · rw [hlimit, hunsliced.compoundOffset, slice_none]
      have hperm : present m sorted r ↔ present m combined r := by
        simp only [present, hsortedPerm.mem_iff]
      rw [hperm, hpresent]
      apply exists_congr
      intro i
      rw [hrows i, hlimit, hunsliced.compoundOffset, slice_none]
      simp only [present, (hms i).mem_iff]
    · simp [hrows, hlimit, slice_zero, present]

end Union

end Narrowed

section Fetch
variable (core : Core L) (m : Meaning L) (v : SqlValues L) (d : Driver L)

/-- The rows depend on an order: a slice or `DISTINCT ON` picks them by it, or those of a branch are not
determined. -/
def OrderDependent (qs : QuerySet L) : Prop :=
  qs.isSliced = true ∨ (∃ cols, qs.distinct = some (.on_ cols)) ∨
    ∃ branch ∈ qs.compound, ¬ Steady m branch.query

/-- The rows kept are those of the fetch; a row that two batches returned is told by its key. -/
structure SameRowSet (key : List (String × L.Value) → L.Value) (batches : List (List L.Value))
    (kept rows : List (List (String × L.Value))) : Prop where
  sound : ∀ r ∈ kept, present m rows r
  complete : ∀ r ∈ rows, ∃ r' ∈ kept, ∃ r'', sameKey v (key r') (key r'') = true ∧
    sameOutput m r'' r = true
  once : 1 < batches.length → kept.Pairwise fun r r' => sameKey v (key r) (key r') = false

/-- What a split of keys owes: batches that fit, each key in one of them, the rows of one `IN` list, a
refusal where a split would show, and no other one. -/
structure InBatchesRight (qs : QuerySet L) (base : SelectQuery L) (carried : Nat) (field : String)
    (key : List (String × L.Value) → L.Value) (keys : List L.Value) : Prop where
  fits : ∀ batches, inBatches v d base qs.isSliced keys = .ok batches →
    ∀ batch ∈ batches, ∀ op, carried + (writeIn v d op batch).binds ≤ d.maxBindParams
  once : ∀ batches, inBatches v d base qs.isSliced keys = .ok batches →
    ∀ k ∈ keys, (batches.countP fun batch => batch.any fun k' => sameKey v k' k) = 1
  known : ∀ batches, inBatches v d base qs.isSliced keys = .ok batches →
    ∀ batch ∈ batches, ∀ k ∈ batch, k ∈ keys
  rows : ∀ batches, inBatches v d base qs.isSliced keys = .ok batches →
    ∀ whole, (qs.filterOp field .in_ (v.list keys)).compile core = .ok whole → ∀ db results,
      List.Forall₂ (fun batch rows => ∃ q, (qs.filterOp field .in_ (v.list batch)).compile core = .ok q ∧
        q.Fetches m db rows) batches results →
      ∃ rows, whole.Fetches m db rows ∧
        SameRowSet m v key batches (distinctRows v key batches results.flatten) rows
  refused : (d.maxBindParams - carried = 0 ∧ keys ≠ []) ∨
    (OrderDependent m qs ∧ d.maxBindParams - carried < inListBinds v d (distinctKeys v keys)) →
    ∃ e, inBatches v d base qs.isSliced keys = .error e
  accepted : 0 < d.maxBindParams - carried →
    (OrderDependent m qs → inListBinds v d (distinctKeys v keys) ≤ d.maxBindParams - carried) →
    ∃ batches, inBatches v d base qs.isSliced keys = .ok batches
  array : ∀ op elements, bindsAsArray v d elements = true → ∀ x,
    (writeInList v d op elements).holds m x = (InText.list (op = .notIn) elements : InText L).holds m x

end Fetch

section Right
variable {core : Core L} {m : Meaning L} {v : SqlValues L} {d : Driver L} {qs : QuerySet L}
variable {base : SelectQuery L} {field : String} {key : List (String × L.Value) → L.Value}
variable {keys : List L.Value} {batches : List (List L.Value)}
variable {rows kept : List (List (String × L.Value))}

private theorem unsliced_of_compile (h : qs.compile core = .ok base) (hsliced : qs.isSliced = false) :
    Unsliced base := by
  have hq := QuerySet.compiled_of_compile h
  simp only [QuerySet.isSliced, Bool.or_eq_false_iff, Option.isSome_eq_false_iff,
    Option.isNone_iff_eq_none] at hsliced
  obtain ⟨⟨⟨hlimit, hoffset⟩, hheadLimit⟩, hheadOffset⟩ := hsliced
  constructor
  · intro hc
    rw [hq.compound] at hc
    rw [hq.limit, if_neg (by simpa using hc), hheadLimit]
  · rw [hq.limit, hlimit, hheadLimit]
    cases qs.compound.isEmpty <;> cases qs.isNone <;> simp
  · rw [hq.offset, hoffset, hheadOffset]
    cases qs.compound.isEmpty <;> rfl
  · rw [hq.compoundLimit, hlimit]
    cases qs.compound.isEmpty <;> cases qs.isNone <;> simp
  · rw [hq.compoundOffset, hoffset]
    cases qs.compound.isEmpty <;> rfl

private theorem sameRowSet_distinct {found : List (List (String × L.Value))}
    (h : ∀ r, present m rows r ↔ present m found r) :
    SameRowSet m v key batches (distinctRows v key batches found) rows := by
  have hsub : distinctRows v key batches found ⊆ found := by
    unfold distinctRows
    split
    · exact (firsts_sublist _ found).subset
    · exact fun _ => id
  have hkept : ∀ r ∈ found, ∃ r' ∈ distinctRows v key batches found,
      sameKey v (key r') (key r) = true := by
    intro r hr
    unfold distinctRows
    split
    · exact exists_mem_firsts (fun r r' => sameKey v (key r) (key r')) (fun _ => sameKey_refl _)
        (fun _ _ _ => sameKey_trans _ _ _) hr
    · exact ⟨r, hr, sameKey_refl _⟩
  constructor
  · exact fun r hr => (h r).mpr (present_of_mem (hsub hr))
  · intro r hr
    obtain ⟨r'', hr'', hsame⟩ := (h r).mp (present_of_mem hr)
    obtain ⟨r', hr', hkey⟩ := hkept r'' hr''
    exact ⟨r', hr', r'', hkey, hsame⟩
  · intro hsplit
    rw [distinctRows, if_pos hsplit]
    exact firsts_apart (fun r r' => sameKey v (key r) (key r')) found

private theorem narrowed_of_compile (h : qs.compile core = .ok base) {ks : List L.Value} {q : SelectQuery L}
    (hq : (qs.filterOp field .in_ (v.list ks)).compile core = .ok q) {ws : List (WhereExpr L Empty)}
    {f : FieldSchema} (hbase : base.whereClause = .and ws) (hf : qs.model.field field = some f) :
    q = base.narrowed v ws f.column ks := by
  obtain ⟨ws', f', hbase', hf', rfl⟩ := QuerySet.compile_filterOp h hq
  obtain rfl := WhereExpr.and.inj (hbase.symm.trans hbase')
  obtain rfl := Option.some.inj (hf.symm.trans hf')
  rfl

/-- The rows that the batches return are those of one list over all keys. -/
private theorem rows_of_batched (hm : ReadsKeys m v) (h : qs.compile core = .ok base) {room : Nat}
    (hbatched : Batched v d qs.isSliced keys room batches)
    (hsteady : room < inListBinds v d (distinctKeys v keys) → ¬ OrderDependent m qs)
    {whole : SelectQuery L} (hwhole : (qs.filterOp field .in_ (v.list keys)).compile core = .ok whole)
    {db : Database L} {results : List (List (List (String × L.Value)))}
    (hresults : List.Forall₂ (fun batch rows =>
      ∃ q, (qs.filterOp field .in_ (v.list batch)).compile core = .ok q ∧ q.Fetches m db rows)
      batches results) :
    ∃ rows, whole.Fetches m db rows ∧ ∀ r, present m rows r ↔ present m results.flatten r := by
  obtain ⟨ws, f, hbase, hf, rfl⟩ := QuerySet.compile_filterOp h hwhole
  have hfetches : List.Forall₂ (fun batch rows => (base.narrowed v ws f.column batch).Fetches m db rows)
      batches results := by
    apply hresults.imp
    intro batch rows h
    obtain ⟨q, hq, hrows⟩ := h
    rwa [narrowed_of_compile h hq hbase hf] at hrows
  have hfound := hbatched.found hm
  rcases hbatched.pieces with ⟨ks, -, rfl, -⟩ | ⟨hsliced, hlong, hchunks⟩
  · cases hfetches with
    | cons hone hnil =>
      cases hnil
      refine ⟨_, fetches_of_found hm hbase (fun x => ?_) hone, fun r => by simp⟩
      simpa using (hfound x).symm
  · have hdependent := hsteady hlong
    simp only [OrderDependent, not_or, not_exists, not_and, not_not] at hdependent
    obtain ⟨-, hon, hbranches⟩ := hdependent
    have hq := QuerySet.compiled_of_compile h
    have hunsliced := unsliced_of_compile h hsliced
    have hdistinct : base.isDistinctOn = false := by
      rw [SelectQuery.isDistinctOn, hq.distinct]
      split
      · rename_i cols hcols
        exact absurd hcols (hon cols)
      · rfl
    obtain ⟨hlength, hzip⟩ := List.forall₂_iff_zip.mp hfetches
    -- The batches, each with the rows it returned.
    let ι := {p : List L.Value × List (List (String × L.Value)) // p ∈ batches.zip results}
    have hbatchOf : ∀ batch ∈ batches, ∃ i : ι, i.1.1 = batch := by
      intro batch hbatch
      rw [← List.map_fst_zip hlength.le] at hbatch
      obtain ⟨p, hp, hfst⟩ := List.mem_map.mp hbatch
      exact ⟨⟨p, hp⟩, hfst⟩
    have hresultOf : ∀ l ∈ results, ∃ i : ι, i.1.2 = l := by
      intro l hl
      rw [← List.map_snd_zip hlength.ge] at hl
      obtain ⟨p, hp, hsnd⟩ := List.mem_map.mp hl
      exact ⟨⟨p, hp⟩, hsnd⟩
    have hne : Nonempty ι := by
      have hlist : batches ≠ [] := by
        intro hnil
        have hflat := flatten_sliceChunks hbatched.pos (distinctKeys v keys)
        rw [← hchunks, hnil, List.flatten_nil] at hflat
        rw [← hflat] at hlong
        have hle : inListBinds v d ([] : List L.Value) ≤ 0 := inListBinds_le
        omega
      obtain ⟨batch, hbatch⟩ := List.exists_mem_of_ne_nil batches hlist
      obtain ⟨i, -⟩ := hbatchOf batch hbatch
      exact ⟨i⟩
    have hfoundBy : ∀ x, (∃ k ∈ keys, m.compare .eq x k = some true) ↔
        ∃ i : ι, ∃ k ∈ i.1.1, m.compare .eq x k = some true := by
      intro x
      refine (hfound x).trans ?_
      constructor
      · intro hk
        obtain ⟨batch, hbatch, hk⟩ := hk
        obtain ⟨i, rfl⟩ := hbatchOf batch hbatch
        exact ⟨i, hk⟩
      · intro hk
        obtain ⟨i, hk⟩ := hk
        exact ⟨i.1.1, (List.of_mem_zip i.2).1, hk⟩
    have hfetched : ∀ i : ι, (base.narrowed v ws f.column i.1.1).Fetches m db i.1.2 := fun i => hzip i.2
    have hunion : ∃ rows, (base.narrowed v ws f.column keys).Fetches m db rows ∧
        ∀ r, present m rows r ↔ ∃ i : ι, present m i.1.2 r := by
      by_cases hc : base.compound = []
      · exact fetches_union_plain hm hbase hunsliced hdistinct hfoundBy hfetched hc
      · apply fetches_union_combined hm hbase hunsliced hdistinct hfoundBy hfetched hc
        rw [hq.compound]
        exact hbranches
    obtain ⟨rows, hrows, hpresent⟩ := hunion
    refine ⟨rows, hrows, fun r => (hpresent r).trans ?_⟩
    constructor
    · intro h
      obtain ⟨i, x, hx, hxr⟩ := h
      exact ⟨x, List.mem_flatten.mpr ⟨i.1.2, (List.of_mem_zip i.2).2, hx⟩, hxr⟩
    · intro h
      obtain ⟨x, hx, hxr⟩ := h
      obtain ⟨l, hl, hxl⟩ := List.mem_flatten.mp hx
      obtain ⟨i, rfl⟩ := hresultOf l hl
      exact ⟨i, x, hxl, hxr⟩

/-- A split is right exactly unless it splits a query whose rows depend on an order, and which the code
takes for one that can be split: it looks for a limit or an offset alone. -/
theorem in_batches_right_iff (core : Core L) (m : Meaning L) (v : SqlValues L) (hm : ReadsKeys m v)
    (d : Driver L) (qs : QuerySet L) (base : SelectQuery L) (hbase : qs.compile core = .ok base)
    (carried : Nat) (hcarried : d.carried base = .ok carried) (field : String)
    (key : List (String × L.Value) → L.Value) (keys : List L.Value) :
    InBatchesRight core m v d qs base carried field key keys ↔
      ¬ (qs.isSliced = false ∧ OrderDependent m qs ∧ 0 < d.maxBindParams - carried ∧
        d.maxBindParams - carried < inListBinds v d (distinctKeys v keys)) := by
  have herror : (∃ e, inBatches v d base qs.isSliced keys = .error e) ↔
      d.maxBindParams - carried = 0 ∨ (qs.isSliced = true ∧
        d.maxBindParams - carried < inListBinds v d (distinctKeys v keys)) := inBatches_error hcarried
  constructor
  · intro hright ⟨hsliced, hdependent, hroom, hlong⟩
    rcases herror.mp (hright.refused (Or.inr ⟨hdependent, hlong⟩)) with hnone | ⟨hsplit, -⟩
    · omega
    · rw [hsliced] at hsplit
      cases hsplit
  · intro hcond
    constructor
    · intro batches h batch hbatch op
      rw [← inListBinds_eq]
      exact (batched_of_inBatches hcarried h).fits hbatch
    · exact fun batches h k hk => (batched_of_inBatches hcarried h).once hk
    · exact fun batches h batch hbatch k hk => (batched_of_inBatches hcarried h).known hbatch hk
    · intro batches h whole hwhole db results hresults
      have hbatched := batched_of_inBatches hcarried h
      obtain ⟨rows, hrows, hpresent⟩ := rows_of_batched hm hbase hbatched (fun hlong hdependent => by
        rcases hbatched.pieces with ⟨ks, hks, -, hfits⟩ | ⟨hsliced, -, -⟩
        · have hle : inListBinds v d (distinctKeys v keys) ≤ inListBinds v d ks := by
            rcases hks with rfl | rfl
            · exact inListBinds_sublist (firsts_sublist (sameKey v) ks)
            · exact le_refl _
          omega
        · exact hcond ⟨hsliced, hdependent, hbatched.pos, hlong⟩) hwhole hresults
      exact ⟨rows, hrows, sameRowSet_distinct hpresent⟩
    · rintro (⟨hnone, -⟩ | ⟨hdependent, hlong⟩)
      · exact herror.mpr (Or.inl hnone)
      · by_cases hroom : d.maxBindParams - carried = 0
        · exact herror.mpr (Or.inl hroom)
        · cases hsliced : qs.isSliced with
          | true => rw [hsliced] at herror; exact herror.mpr (Or.inr ⟨rfl, hlong⟩)
          | false => exact absurd ⟨hsliced, hdependent, Nat.pos_of_ne_zero hroom, hlong⟩ hcond
    · intro hroom hfits
      cases hok : inBatches v d base qs.isSliced keys with
      | ok batches => exact ⟨batches, rfl⟩
      | error e =>
        rcases herror.mp ⟨e, hok⟩ with hnone | ⟨hsliced, hlong⟩
        · omega
        · have hle := hfits (Or.inl hsliced)
          omega
    · exact fun op elements harray x => holds_writeInList hm op harray x

end Right

/-- A list of keys, as one number. -/
private def packKeys (ks : List (Option Int)) : Option Int := some (Encodable.encode ks : Nat)

private def unpackKeys (v : Option Int) : List (Option Int) :=
  (v.bind fun n => (Encodable.decode n.toNat : Option (List (Option Int)))).getD []

private theorem unpackKeys_packKeys (ks : List (Option Int)) : unpackKeys (packKeys ks) = ks := by
  simp [unpackKeys, packKeys]

/-- Integers with `IN` lists. -/
private def listMeaning : Meaning IntLang :=
  { intMeaning with
    compare op v w :=
      match op with
      | .in_ => or3 ((unpackKeys w).map (intCompare .eq v))
      | op => intCompare op v w
    isNull_true := intMeaning.isNull_true
    eq_true := intMeaning.eq_true }

private def intValues : SqlValues IntLang where
  kind v := v.elim .null fun _ => .i64
  debug v := v.elim "Null" fun n => "I64(" ++ n.repr ++ ")"
  toI64 v := v
  list := packKeys

private theorem debug_intValues {k k' : Option Int} (h : intValues.debug k = intValues.debug k') : k = k' := by
  cases k with
  | none =>
    cases k' with
    | none => rfl
    | some b =>
      have hchars := congrArg String.toList h
      simp [intValues] at hchars
  | some a =>
    cases k' with
    | none =>
      have hchars := congrArg String.toList h
      simp [intValues] at hchars
    | some b =>
      have hrepr : a.repr = b.repr := by simpa [intValues] using h
      rw [Int.repr_injective hrepr]

private theorem readsKeys_intValues : ReadsKeys listMeaning intValues where
  in_ x ks := by
    change or3 ((unpackKeys (packKeys ks)).map _) = _
    rw [unpackKeys_packKeys]
    rfl
  ne x k := by cases x <;> cases k <;> simp [listMeaning, intCompare]
  toI64 x k := rfl
  debug k k' h x := by rw [debug_intValues h]

/-- One bind to a statement, and no arrays. -/
private def oneBind : Driver IntLang where
  maxBindParams := 1
  bindsPgOnlyValues := false
  carried _ := .ok 0

private def bookId (row : List (String × Option Int)) : Option Int := (row.lookup "id").getD none

private theorem inBatches_books (qs : QuerySet IntLang) (base : SelectQuery IntLang) (h : qs.isSliced = false) :
    inBatches intValues oneBind base qs.isSliced [some 1, some 2] = .ok [[some 1], [some 2]] := by
  have hdistinct : distinctKeys intValues [some 1, some 2] = [some 1, some 2] := by decide
  simp [inBatches, bindRoom, oneBind, hdistinct, inListBinds, bindsAsArray, inChunkSize, h, sliceChunks]

/-- Two keys over two statements. -/
theorem in_batches_right_books :
    inBatches intValues oneBind (SelectQuery.new book) (QuerySet.new book).isSliced [some 1, some 2] =
      .ok [[some 1], [some 2]] ∧
    InBatchesRight bookCore listMeaning intValues oneBind (QuerySet.new book) (SelectQuery.new book) 0 "id"
      bookId [some 1, some 2] := by
  refine ⟨inBatches_books _ _ rfl, (in_batches_right_iff bookCore listMeaning intValues readsKeys_intValues
    oneBind (QuerySet.new book) (SelectQuery.new book) rfl 0 rfl "id" bookId [some 1, some 2]).mpr ?_⟩
  intro ⟨_, hdependent, _⟩
  simp [OrderDependent, QuerySet.isSliced, QuerySet.new] at hdependent

/-- The first book of each author among those with these keys. -/
private def firstBooksBy (keys : List (Option Int)) : SelectQuery IntLang :=
  firstBooksFetch.narrowed intValues [] "id" keys

private theorem compile_firstBooksBy (keys : List (Option Int)) :
    (firstBooks.filterOp "id" .in_ (packKeys keys)).compile bookCore = .ok (firstBooksBy keys) := rfl

private theorem matching_firstBooksBy (keys : List (Option Int)) :
    (firstBooksBy keys).matching listMeaning twoBooks =
      [Env.base (bookRow 1 7), Env.base (bookRow 2 7)].filter fun e =>
        keys.any fun k => intCompare .eq (columnOf listMeaning e.main "id") k = some true := by
  have hbase : firstBooksFetch.whereClause = .and [] := rfl
  apply List.filter_congr
  intro e _
  rw [Bool.eq_iff_iff]
  refine (accepts_narrowed readsKeys_intValues hbase e).trans ?_
  rw [hbase, List.any_eq_true]
  simp only [decide_eq_true_eq]
  exact and_iff_right (accepts_nil _ e)

private theorem fetches_firstBooksBy {keys : List (Option Int)} {rows : List (List (String × Option Int))} :
    (firstBooksBy keys).Fetches listMeaning twoBooks rows ↔ ∃ draw l,
      ((firstBooksBy keys).matching listMeaning twoBooks).Perm l ∧
      l.Pairwise (ordered listMeaning "book" draw [.column "author" false .default]) ∧
      rows = (firsts (agree listMeaning ["author"]) l).map ((SelectQuery.new book).output listMeaning) := by
  have hscope : (firstBooksBy keys).InScope listMeaning := by
    refine (inScope_narrowed (by rfl)).mpr ⟨List.nodup_singleton _, List.nil_subset _, fun i hi => ?_⟩
    obtain rfl := List.mem_singleton.mp hi
    exact List.nil_subset _
  exact (fetches_plain rfl).trans (and_iff_right hscope)

private theorem row_firstBooksBy (n : Int) (e : Env IntLang)
    (h : (firstBooksBy [some n]).matching listMeaning twoBooks = [e]) :
    (firstBooksBy [some n]).Fetches listMeaning twoBooks [(SelectQuery.new book).output listMeaning e] := by
  refine fetches_firstBooksBy.mpr ⟨fun _ => 0, [e], ?_, List.pairwise_singleton _ _, rfl⟩
  rw [h]

/-- With one key to a statement both books of the author come back; one list returns the first. -/
theorem in_batches_splits_distinctOn :
    firstBooks.compile bookCore = .ok firstBooksFetch ∧
    inBatches intValues oneBind firstBooksFetch firstBooks.isSliced [some 1, some 2] =
      .ok [[some 1], [some 2]] ∧
    ¬ InBatchesRight bookCore listMeaning intValues oneBind firstBooks firstBooksFetch 0 "id" bookId
      [some 1, some 2] := by
  have hbatches := inBatches_books firstBooks firstBooksFetch rfl
  refine ⟨firstBooks_compile, hbatches, fun hright => ?_⟩
  obtain ⟨rows, hrows, hsame⟩ := hright.rows _ hbatches _ (compile_firstBooksBy [some 1, some 2]) twoBooks
    [[[("id", some 1), ("author", some 7)]], [[("id", some 2), ("author", some 7)]]]
    (.cons ⟨_, compile_firstBooksBy [some 1], row_firstBooksBy 1 _ (matching_firstBooksBy [some 1])⟩
      (.cons ⟨_, compile_firstBooksBy [some 2], row_firstBooksBy 2 _ (matching_firstBooksBy [some 2])⟩ .nil))
  have hfirst := hsame.sound [("id", some 1), ("author", some 7)] (by decide)
  have hsecond := hsame.sound [("id", some 2), ("author", some 7)] (by decide)
  obtain ⟨-, l, hl, -, rfl⟩ := fetches_firstBooksBy.mp hrows
  rw [matching_firstBooksBy] at hl
  have hpair : l = [Env.base (bookRow 1 7), Env.base (bookRow 2 7)] ∨
      l = [Env.base (bookRow 2 7), Env.base (bookRow 1 7)] := by
    have hperm : [Env.base (bookRow 1 7), Env.base (bookRow 2 7)].Perm l := hl
    obtain ⟨x, y, rfl⟩ := List.length_eq_two.mp hperm.length_eq.symm
    have hx : x ∈ [Env.base (bookRow 1 7), Env.base (bookRow 2 7)] := hperm.mem_iff.mpr (by simp)
    rcases List.mem_pair.mp hx with rfl | rfl
    · left
      rw [List.perm_singleton.mp ((List.perm_cons _).mp hperm).symm]
    · right
      rw [List.perm_singleton.mp ((List.perm_cons _).mp ((List.Perm.swap _ _ _).trans hperm)).symm]
  rcases hpair with rfl | rfl
  · obtain ⟨r, hr, htied⟩ := hsecond
    obtain rfl : r = [("id", some 1), ("author", some 7)] := List.mem_singleton.mp hr
    revert htied
    decide
  · obtain ⟨r, hr, htied⟩ := hfirst
    obtain rfl : r = [("id", some 2), ("author", some 7)] := List.mem_singleton.mp hr
    revert htied
    decide

end Rustango.Query
