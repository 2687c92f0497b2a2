import Rustango.Query.Dedup
import Rustango.Query.Dml

/-!
# Bulk writes against fetches

The rows that a `DELETE` or an `UPDATE` of a queryset matches are the base rows that a fetch of the
queryset selects, as long as its `DISTINCT` drops none of them: a write carries no `DISTINCT`.
-/

namespace Rustango.Query

open Rustango.Firsts Rustango.Outcome

variable {L : Lang}

section Spec
variable (core : Core L) (m : Meaning L) (db : Database L)

/-- Whatever rows the write matches, a fetch may select exactly these. -/
def AgreesWith (q : SelectQuery L) (model : ModelSchema L) (w : WhereExpr L (SelectQuery L)) : Prop :=
  ∀ rows, Matches m db model w rows →
    ∃ envs, q.Selects m db envs ∧ ∀ r, r ∈ rows ↔ some r ∈ envs.map (·.main)

namespace QuerySet
variable (qs : QuerySet L)

/-- The rows that the filters of the queryset accept. -/
def accepted : List (Row L) :=
  match resolvePending core qs.model qs.prepared.pending with
  | .ok w => acceptedRows m db qs.model.table w
  | .error _ => []

/-- The order that a sliced write takes its rows in. -/
def sliceOrder : List (OrderItem L) :=
  if qs.limit.isNone && qs.offset.isNone then []
  else match qs.model.fields.filter (·.primaryKey), lowerOrderItems core qs.model qs.prepared.orderBy with
    | [pk], .ok (order, _) => breakTies pk.column order
    | _, _ => []

/-- Up to the end of the slice no two rows agree on the `distinct_on` columns. -/
def GroupsApart : Prop :=
  ∀ cols, qs.distinct = some (.on_ cols) → qs.isNone = false → ∀ draw k,
    (qs.accepted core m db).Perm k →
    (k.map Env.base).Pairwise (ordered m qs.model.table draw (qs.sliceOrder core)) →
    slice qs.limit qs.offset k = [] ∨
      Apart (fun r r' => agree m cols (Env.base r) (Env.base r'))
        (reach (offsetCount qs.offset) (limitCount qs.limit) k)

/-- The `DISTINCT` of the queryset drops no row of its slice. A plain `distinct()` can only drop one
where no primary key tells the rows apart. -/
def KeepsRows (q : SelectQuery L) : Prop :=
  qs.GroupsApart core m db ∧ (qs.distinct = some .all → qs.model.primaryKey = none →
    Apart (fun a b => sameOutput m (q.output m a) (q.output m b)) (q.matching m db))

end QuerySet

end Spec

section Fetch
variable {m : Meaning L} {db : Database L} {core : Core L} {qs : QuerySet L} {q : SelectQuery L}

private theorem apart_perm {ext : Row L → Env L} {l l' : List (Row L)} (hperm : l.Perm l')
    (h : Apart (fun r r' => q.same m (ext r) (ext r')) l) :
    Apart (fun r r' => q.same m (ext r) (ext r')) l' := by
  refine h.perm hperm fun {a b} hab => ?_
  rw [Bool.eq_false_iff] at hab ⊢
  exact fun hba => hab (same_symm hba)

private theorem tied_of_sameOutput (hproj : q.projection = none) {a b : Env L}
    (h : sameOutput m (q.output m a) (q.output m b) = true) {f : FieldSchema}
    (hf : f ∈ q.model.fields) :
    m.tied (columnOf m a.main f.column) (columnOf m b.main f.column) = true := by
  rw [sameOutput, decide_eq_true_eq] at h
  have hall := h.2
  rw [SelectQuery.output, SelectQuery.output, hproj, Option.getD_none, List.map_map, List.map_map,
    List.zip_append (by simp), List.all_append, Bool.and_eq_true] at hall
  have hcolumns := hall.1
  rw [List.zip_map', List.all_map, List.all_eq_true] at hcolumns
  exact hcolumns f hf

variable {w : WhereExpr L Empty} (hp : qs.Plain core q)
include hp

private theorem plain_where (hw : resolvePending core qs.model qs.prepared.pending = .ok w) :
    q.whereClause = w := by
  obtain ⟨pending, spanJoins, hspans, hwhere, -⟩ := hp.filters
  rw [lowerRelationSpans_of_resolve hw] at hspans
  obtain ⟨rfl, -⟩ := Prod.mk.inj (Except.ok.inj hspans)
  exact Except.ok.inj (hwhere.symm.trans hw)

private theorem plain_joins (hdb : Fits m core db qs.model)
    (hw : resolvePending core qs.model qs.prepared.pending = .ok w) :
    ∀ j ∈ q.joins, ToOne m db qs.model.table j := by
  obtain ⟨pending, spanJoins, hspans, -, related, joins, orderJoins, hrelated, hjoins, horder, hall⟩ :=
    hp.filters
  rw [lowerRelationSpans_of_resolve hw] at hspans
  obtain ⟨-, rfl⟩ := Prod.mk.inj (Except.ok.inj hspans)
  obtain rfl := Except.ok.inj hjoins
  exact mergeRelationJoin_all (lowerSelectRelated_toOne hdb hrelated)
    (lowerOrderItems_toOne hdb horder) hall

private theorem exists_selects_iff (hdb : Fits m core db qs.model) (hscope : q.InScope m)
    (hw : resolvePending core qs.model qs.prepared.pending = .ok w)
    (hreads : w.reads m qs.model.table = []) :
    ∃ ext : Row L → Env L, (∀ r, (ext r).main = some r) ∧
      q.matching m db = (acceptedRows m db qs.model.table w).map ext ∧
      ∀ envs, q.Selects m db envs ↔ ∃ draw k, (acceptedRows m db qs.model.table w).Perm k ∧
        (k.map ext).Pairwise (ordered m qs.model.table draw q.orderBy) ∧
        envs = (slice q.limit q.offset (firsts (fun r r' => q.same m (ext r) (ext r')) k)).map ext := by
  have hj := plain_joins hp hdb hw
  rw [← hp.model] at hj
  obtain ⟨ext, hsources, hmain⟩ := sources_toOne db hscope.1 hj hp.subqueryJoins
  have hmatching : q.matching m db = (acceptedRows m db qs.model.table w).map ext := by
    rw [SelectQuery.matching, hsources, acceptedRows, List.filter_map, hp.model]
    congr 1
    apply List.filter_congr
    intro r _
    rw [Function.comp_apply, plain_where hp hw, WhereExpr.accepts_base hreads, hmain]
    rfl
  have hdedup : ∀ k : List (Row L), slice q.limit q.offset (q.dedup m (k.map ext)) =
      (slice q.limit q.offset (firsts (fun r r' => q.same m (ext r) (ext r')) k)).map ext := by
    intro k
    rw [dedup_eq_firsts, firsts_map, slice, window_map, slice]
  refine ⟨ext, hmain, hmatching, fun envs => ⟨?_, ?_⟩⟩
  · rintro ⟨_, draw, l, hperm, hsorted, henvs⟩
    rw [hmatching] at hperm
    obtain ⟨k, hk, rfl⟩ := exists_of_map_perm hperm
    rw [hp.model] at hsorted
    exact ⟨draw, k, hk, hsorted, by rw [henvs, hdedup]⟩
  · rintro ⟨draw, k, hk, hsorted, henvs⟩
    refine ⟨hscope, draw, k.map ext, ?_, ?_, by rw [henvs, hdedup]⟩
    · rw [hmatching]
      exact hk.map ext
    · rw [hp.model]
      exact hsorted

end Fetch

section Compare
variable {m : Meaning L} {db : Database L} {core : Core L} {qs : QuerySet L} {q : SelectQuery L}
variable {w : WhereExpr L Empty} {ext : Row L → Env L}

/-- A fetch that selects from the accepted rows, each under `ext`. -/
structure FetchedBy (m : Meaning L) (db : Database L) (qs : QuerySet L) (q : SelectQuery L)
    (w : WhereExpr L Empty) (ext : Row L → Env L) : Prop where
  main : ∀ r, (ext r).main = some r
  matching : q.matching m db = (acceptedRows m db qs.model.table w).map ext
  selects : ∀ envs, q.Selects m db envs ↔ ∃ draw k, (acceptedRows m db qs.model.table w).Perm k ∧
    (k.map ext).Pairwise (ordered m qs.model.table draw q.orderBy) ∧
    envs = (slice q.limit q.offset (firsts (fun r r' => q.same m (ext r) (ext r')) k)).map ext

theorem FetchedBy.mem_main (h : FetchedBy m db qs q w ext) (rows : List (Row L)) (r : Row L) :
    some r ∈ (rows.map ext).map (·.main) ↔ r ∈ rows := by
  have hmap : (rows.map ext).map (·.main) = rows.map some := by
    rw [List.map_map]
    exact List.map_congr_left fun r _ => h.main r
  rw [hmap]
  simp

theorem FetchedBy.agree_base (h : FetchedBy m db qs q w ext) (cols : List String) (r r' : Row L) :
    agree m cols (ext r) (ext r') = agree m cols (Env.base r) (Env.base r') := by
  rw [agree, agree, h.main, h.main]
  rfl

theorem FetchedBy.same_on (h : FetchedBy m db qs q w ext) {cols : List String}
    (hcols : q.distinct = some (.on_ cols)) : (fun r r' => q.same m (ext r) (ext r')) =
      fun r r' => agree m cols (Env.base r) (Env.base r') := by
  funext r r'
  rw [SelectQuery.same, hcols]
  exact h.agree_base cols r r'

private theorem agreesWith_of_none (hp : qs.Plain core q) (hscope : q.InScope m) (hnone : qs.isNone = true)
    {model : ModelSchema L} {w' : WhereExpr L (SelectQuery L)}
    (hempty : ∀ rows, Matches m db model w' rows → rows = []) : AgreesWith m db q model w' := by
  intro rows hrows
  obtain ⟨l, hperm, hsorted⟩ := exists_arrangement m q.model.table (fun _ => 0) q.orderBy
    (q.matching m db)
  have hlimit : q.limit = some 0 := by rw [hp.limit, if_pos hnone]
  refine ⟨[], ⟨hscope, fun _ => 0, l, hperm, hsorted, ?_⟩, fun r => ?_⟩
  · rw [hlimit, slice]
    exact (window_some_zero _ _).symm
  · rw [hempty rows hrows]
    simp

variable (hf : FetchedBy m db qs q w ext)
include hf

private theorem agreesWith_lift (hdb : Fits m core db qs.model) (hlimit : q.limit = none)
    (hoffset : q.offset = none) (hreads : w.reads m qs.model.table = []) :
    AgreesWith m db q qs.model w.lift ↔
      Apart (fun r r' => q.same m (ext r) (ext r')) (acceptedRows m db qs.model.table w) := by
  have hslice : ∀ k : List (Row L), slice q.limit q.offset k = k := by
    intro k
    rw [hlimit, hoffset]
    rfl
  constructor
  · intro h
    obtain ⟨envs, hselects, hmem⟩ := h _ (matches_lift.mpr ⟨hreads, rfl⟩)
    obtain ⟨draw, k, hk, -, rfl⟩ := (hf.selects envs).mp hselects
    by_cases hdistinct : q.distinct = none
    · exact List.pairwise_of_forall fun r r' => by simp only [SelectQuery.same, hdistinct]
    · have hsame : ∀ r, r ∈ acceptedRows m db qs.model.table w ↔
          r ∈ firsts (fun r r' => q.same m (ext r) (ext r')) k := by
        intro r
        rw [hmem r, hf.mem_main, hslice]
      apply apart_of_mem_firsts _ (fun r => same_refl hdistinct (ext r)) (fun _ _ => same_symm)
        (hdb.nodup.filter _) hsame
  · intro hapart rows hrows
    obtain ⟨-, rfl⟩ := matches_lift.mp hrows
    obtain ⟨l, hperm, hsorted⟩ := exists_arrangement m qs.model.table (fun _ => 0) q.orderBy
      ((acceptedRows m db qs.model.table w).map ext)
    obtain ⟨k, hk, rfl⟩ := exists_of_map_perm hperm
    refine ⟨_, (hf.selects _).mpr ⟨_, k, hk, hsorted, rfl⟩, fun r => ?_⟩
    rw [hf.mem_main, hslice, firsts_eq_self _ (apart_perm hk hapart), hk.mem_iff]

section Sliced
variable {pk : FieldSchema} {order : List (OrderItem L)}
variable (horder : q.orderBy = order) (hlimit : q.limit = qs.limit) (hoffset : q.offset = qs.offset)
variable (hdb : Fits m core db qs.model) (hpk : qs.model.fields.filter (·.primaryKey) = [pk])
include horder hlimit hoffset hdb hpk

private theorem agreesWith_sliced (hapart : ∀ draw k, SliceOrder m db qs.model w pk.column order draw k →
      slice qs.limit qs.offset k = [] ∨ Apart (fun r r' => q.same m (ext r) (ext r'))
        (reach (offsetCount qs.offset) (limitCount qs.limit) k)) :
    AgreesWith m db q qs.model (slicedWhere qs.model w pk order qs.limit qs.offset) := by
  intro rows hrows
  obtain ⟨-, hscope, draw, k, hk, hmem⟩ := mem_of_matches hdb hpk hrows
  have hreads : ∀ i ∈ order, i.reads m qs.model.table = [] := by
    intro i hi
    have hbreak : i ∈ breakTies pk.column order := by
      unfold breakTies
      split
      · exact hi
      · exact List.mem_append_left _ hi
    exact List.subset_nil.mp (hscope.2.2 i hbreak)
  -- The fetch draws for each row what the slice drew.
  have hsorted : (k.map ext).Pairwise
      (ordered m qs.model.table (fun e => draw e.alone) q.orderBy) := by
    rw [List.pairwise_map]
    refine (List.pairwise_map.mp hk.2).imp fun {a b} hab => ?_
    rw [horder, ordered_alone hreads, Env.alone, Env.alone, hf.main, hf.main]
    exact ordered_breakTies hab
  refine ⟨_, (hf.selects _).mpr ⟨_, k, hk.1, hsorted, rfl⟩, fun r => ?_⟩
  rw [hf.mem_main, hmem, hlimit, hoffset]
  rcases hapart draw k hk with hnil | hapart
  · rw [hnil, slice, window_firsts_eq_nil _ hnil]
  · rw [slice, slice, window_firsts _ hapart]

private theorem apart_of_agreesWith_sliced {cols : List String} (hcols : q.distinct = some (.on_ cols))
    (hcheck : checkDistinct qs.model q.orderBy (some (.on_ cols)) = .ok ())
    (hreads : w.reads m qs.model.table = [])
    (hscope : (sliceQuery qs.model w pk.column order qs.limit qs.offset).InScope m)
    (h : AgreesWith m db q qs.model (slicedWhere qs.model w pk order qs.limit qs.offset))
    {draw : Env L → Nat} {k : List (Row L)} (hk : SliceOrder m db qs.model w pk.column order draw k)
    (hne : slice qs.limit qs.offset k ≠ []) :
    Apart (fun r r' => agree m cols (Env.base r) (Env.base r'))
      (reach (offsetCount qs.offset) (limitCount qs.limit) k) := by
  obtain ⟨rows, hrows, hmem⟩ := exists_matches hdb hpk hreads hscope hk
  obtain ⟨envs, hselects, henvs⟩ := h rows hrows
  obtain ⟨draw', k', hk', hsorted', rfl⟩ := (hf.selects envs).mp hselects
  obtain ⟨lead, rest, hlead, hcolumns⟩ := leading_of_check hcheck
  let le (r r' : Row L) : Prop :=
    ordered m qs.model.table (fun _ => 0) lead (Env.base r) (Env.base r')
  have hle : ∀ r r', le r r' ∨ le r' r := fun r r' => ordered_total m _ _ lead _ _
  have htrans : ∀ r r' r'', le r r' → le r' r'' → le r r'' :=
    fun r r' r'' => ordered_trans m _ _ lead _ _ _
  have htie : ∀ r r', agree m cols (Env.base r) (Env.base r') = true ↔ le r r' ∧ le r' r :=
    fun r r' => agree_iff_ordered hcolumns _ _
  have hl : k.Pairwise le := by
    refine (List.pairwise_map.mp hk.2).imp fun {a b} hab => ?_
    have hfull := ordered_breakTies hab
    rw [← horder, hlead] at hfull
    exact ordered_columns hcolumns rfl rfl (ordered_append hfull)
  have hl' : k'.Pairwise le := by
    refine (List.pairwise_map.mp hsorted').imp fun {a b} hab => ?_
    rw [hlead] at hab
    exact ordered_columns hcolumns (hf.main a) (hf.main b) (ordered_append hab)
  have hn : k.Nodup := hk.1.nodup_iff.mp (hdb.nodup.filter _)
  refine apart_of_window_firsts _ hle htrans htie hl hl' (hk.1.symm.trans hk') hn hne fun r => ?_
  have hr := henvs r
  rw [hf.mem_main, hmem, hlimit, hoffset, hf.same_on hcols] at hr
  exact hr

end Sliced

end Compare

section Writes
variable {m : Meaning L} {db : Database L} {core : Core L} {qs : QuerySet L} {q : SelectQuery L}
variable {w : WhereExpr L Empty} {ext : Row L → Env L} {w' : WhereExpr L (SelectQuery L)}

private theorem apart_of_key (hdb : Fits m core db qs.model) (hp : qs.Plain core q)
    (hf : FetchedBy m db qs q w ext) (hkey : qs.model.primaryKey.isSome)
    (hdistinct : q.distinct = none ∨ q.distinct = some .all) :
    Apart (fun r r' => q.same m (ext r) (ext r')) (acceptedRows m db qs.model.table w) := by
  refine ((hdb.unique hkey).sublist List.filter_sublist).imp fun {a b} hab => ?_
  obtain ⟨f, hmem, -, hne⟩ := hab
  rcases hdistinct with hd | hd
  · simp only [SelectQuery.same, hd]
  · simp only [SelectQuery.same, hd]
    rw [Bool.eq_false_iff]
    intro hsame
    have htied := tied_of_sameOutput hp.projection hsame (hp.model ▸ hmem)
    rw [hf.main, hf.main] at htied
    exact Bool.eq_false_iff.mp hne htied

private theorem dmlWhere_cases (h : qs.prepared.dmlWhere core m.ofBool = .ok w') :
    ∃ w w₁, resolvePending core qs.model qs.prepared.pending = .ok w ∧
      (if qs.isNone then neverMatchClause m.ofBool qs.model w else .ok w) = .ok w₁ ∧
      boundDmlWhere core qs.model w₁ qs.prepared.orderBy qs.limit qs.offset = .ok w' := by
  obtain ⟨w, hw, h⟩ := bind_eq_ok.mp h
  obtain ⟨w₁, hw₁, h⟩ := bind_eq_ok.mp h
  rw [QuerySet.prepared_eq] at hw hw₁ h
  exact ⟨w, w₁, hw, hw₁, h⟩

private theorem matches_none {w₁ : WhereExpr L Empty} (hdb : Fits m core db qs.model)
    (hnever : neverMatchClause m.ofBool qs.model w = .ok w₁)
    (hbound : boundDmlWhere core qs.model w₁ qs.prepared.orderBy qs.limit qs.offset = .ok w')
    {rows : List (Row L)} (h : Matches m db qs.model w' rows) : rows = [] := by
  have hnil : acceptedRows m db qs.model.table w₁ = [] := by
    rw [acceptedRows, List.filter_eq_nil_iff]
    intro r hr
    simp [neverMatch_refuses hdb hnever hr]
  rcases boundDmlWhere_cases hbound with ⟨-, -, rfl⟩ | ⟨pk, order, hpk, -, -, rfl⟩
  · rw [(matches_lift.mp h).2, hnil]
  · obtain ⟨-, -, draw, k, hk, hmem⟩ := mem_of_matches hdb hpk h
    have hk' : k = [] := by
      have hperm := hk.1
      rw [hnil] at hperm
      exact hperm.nil_eq.symm
    subst hk'
    apply List.eq_nil_iff_forall_not_mem.mpr
    intro r hr
    have hin := (window_sublist _ _ []).subset ((hmem r).mp hr)
    cases hin

section Bounded
variable (hdb : Fits m core db qs.model) (hp : qs.Plain core q) (hf : FetchedBy m db qs q w ext)
variable (hw : resolvePending core qs.model qs.prepared.pending = .ok w) (hnone : qs.isNone = false)
variable (hreads : w.reads m qs.model.table = [])
include hdb hp hf hw hnone hreads

private theorem agreesWith_lift_iff (hlimit : qs.limit = none) (hoffset : qs.offset = none) :
    AgreesWith m db q qs.model w.lift ↔ qs.KeepsRows core m db q := by
  have hqlimit : q.limit = none := by rw [hp.limit, if_neg (by simp [hnone]), hlimit]
  have hqoffset : q.offset = none := by rw [hp.offset, hoffset]
  have haccepted : qs.accepted core m db = acceptedRows m db qs.model.table w := by
    rw [QuerySet.accepted, hw]
  have horder : qs.sliceOrder core = [] := by simp [QuerySet.sliceOrder, hlimit, hoffset]
  rw [agreesWith_lift hf hdb hqlimit hqoffset hreads, QuerySet.KeepsRows, QuerySet.GroupsApart,
    haccepted, horder]
  constructor
  · intro h
    constructor
    · intro cols hcols _ draw k hk _
      right
      have hapart := apart_perm hk h
      rw [hf.same_on (hp.distinct.trans hcols)] at hapart
      rw [hlimit, hoffset]
      exact hapart
    · intro hall _
      rw [hf.matching, Apart, List.pairwise_map]
      refine h.imp fun {a b} hab => ?_
      simpa only [SelectQuery.same, hp.distinct, hall] using hab
  · rintro ⟨hgroups, hall⟩
    cases hd : qs.distinct with
    | none => exact List.pairwise_of_forall fun r r' => by simp only [SelectQuery.same, hp.distinct, hd]
    | some mode =>
      cases mode with
      | all =>
        cases hkey : qs.model.primaryKey with
        | some pk => exact apart_of_key hdb hp hf (by simp [hkey]) (Or.inr (hp.distinct.trans hd))
        | none =>
          have hrows := hall hd hkey
          rw [hf.matching, Apart, List.pairwise_map] at hrows
          refine hrows.imp fun {a b} hab => ?_
          simpa only [SelectQuery.same, hp.distinct, hd] using hab
      | on_ cols =>
        rw [hf.same_on (hp.distinct.trans hd)]
        rcases hgroups cols hd hnone (fun _ => 0) _ (List.Perm.refl _)
          (List.pairwise_of_forall fun _ _ => trivial) with hnil | hrows
        · rw [hlimit, hoffset] at hnil
          rw [show acceptedRows m db qs.model.table w = [] from hnil]
          exact List.Pairwise.nil
        · rw [hlimit, hoffset] at hrows
          exact hrows

private theorem agreesWith_sliced_iff {pk : FieldSchema} {order : List (OrderItem L)}
    (hpk : qs.model.fields.filter (·.primaryKey) = [pk])
    (horder : lowerOrderItems core qs.model qs.prepared.orderBy = .ok (order, []))
    (hsliced : qs.limit.isSome ∨ qs.offset.isSome)
    (hscope : (sliceQuery qs.model w pk.column order qs.limit qs.offset).InScope m) :
    AgreesWith m db q qs.model (slicedWhere qs.model w pk order qs.limit qs.offset) ↔
      qs.KeepsRows core m db q := by
  have hlimit : q.limit = qs.limit := by rw [hp.limit, if_neg (by simp [hnone])]
  have haccepted : qs.accepted core m db = acceptedRows m db qs.model.table w := by
    rw [QuerySet.accepted, hw]
  have hslice : qs.sliceOrder core = breakTies pk.column order := by
    have hcond : (qs.limit.isNone && qs.offset.isNone) = false := by
      cases hl : qs.limit <;> cases ho : qs.offset <;> simp_all
    rw [QuerySet.sliceOrder, hcond, hpk, horder]
    rfl
  have hqorder : q.orderBy = order := by
    obtain ⟨_, _, _, _, _, _, orderJoins, _, _, hlower, _⟩ := hp.filters
    rw [horder] at hlower
    exact (Prod.mk.inj (Except.ok.inj hlower)).1.symm
  have hkey : qs.model.primaryKey.isSome := by
    have hin : pk ∈ qs.model.fields.filter (·.primaryKey) := by
      rw [hpk]
      exact List.mem_cons_self
    obtain ⟨hmem, hprimary⟩ := List.mem_filter.mp hin
    exact List.find?_isSome.mpr ⟨pk, hmem, hprimary⟩
  rw [QuerySet.KeepsRows, QuerySet.GroupsApart, haccepted, hslice]
  constructor
  · intro h
    constructor
    · intro cols hcols _ draw k hk hsorted
      rw [or_iff_not_imp_left]
      intro hne
      have hcheck := hp.ordered
      rw [hcols] at hcheck
      exact apart_of_agreesWith_sliced hf hqorder hlimit hp.offset hdb hpk (hp.distinct.trans hcols)
        hcheck hreads hscope h ⟨hk, hsorted⟩ hne
    · intro _ hnokey
      rw [hnokey] at hkey
      cases hkey
  · rintro ⟨hgroups, _⟩
    refine agreesWith_sliced hf hqorder hlimit hp.offset hdb hpk fun draw k hk => ?_
    by_cases hd : q.distinct = none ∨ q.distinct = some .all
    · right
      have hall := apart_of_key hdb hp hf hkey hd
      exact (apart_perm hk.1 hall).sublist (reach_sublist _ _ k)
    · obtain ⟨cols, hcols⟩ : ∃ cols, qs.distinct = some (.on_ cols) := by
        rw [hp.distinct] at hd
        cases hq : qs.distinct with
        | none => exact absurd (Or.inl hq) hd
        | some mode =>
          cases mode with
          | all => exact absurd (Or.inr hq) hd
          | on_ cols => exact ⟨cols, rfl⟩
      rw [hf.same_on (hp.distinct.trans hcols)]
      exact hgroups cols hcols hnone draw k hk.1 hk.2

end Bounded

/-- A write agrees with the fetch of its queryset exactly when the `DISTINCT` keeps the rows. -/
private theorem agreesWith_iff (hq : qs.compile core = .ok q) (hdb : Fits m core db qs.model)
    (hscope : q.InScope m) (hshape : qs.prepared.refuseUnwritableShape = .ok ())
    (hdml : qs.prepared.dmlWhere core m.ofBool = .ok w')
    (hruns : ∃ rows, Matches m db qs.model w' rows) :
    AgreesWith m db q qs.model w' ↔ qs.KeepsRows core m db q := by
  have hp : qs.Plain core q := by
    rw [QuerySet.prepared_eq] at hshape
    unfold QuerySet.refuseUnwritableShape at hshape
    split at hshape
    · cases hshape
    split at hshape
    · cases hshape
    rename_i hcompound hjoins
    simp only [Bool.or_eq_true, Bool.not_eq_true', not_or, Bool.not_eq_false,
      List.isEmpty_iff] at hcompound hjoins
    exact QuerySet.plain_of_compile hq hcompound hjoins.1 hjoins.2
  obtain ⟨w, w₁, hw, hw₁, hbound⟩ := dmlWhere_cases hdml
  cases hnone : qs.isNone with
  | true =>
    rw [hnone, if_pos rfl] at hw₁
    refine iff_of_true (agreesWith_of_none hp hscope hnone fun rows hrows =>
      matches_none hdb hw₁ hbound hrows) ⟨fun cols _ h => ?_, fun _ hkey => ?_⟩
    · rw [hnone] at h
      cases h
    · obtain ⟨pk, hpk, -⟩ := bind_eq_ok.mp hw₁
      rw [okOr_eq_ok, hkey] at hpk
      cases hpk
  | false =>
    rw [hnone, if_neg (by simp)] at hw₁
    obtain rfl := Except.ok.inj hw₁
    obtain ⟨rows, hrows⟩ := hruns
    have hfetch : w.reads m qs.model.table = [] → ∃ ext, FetchedBy m db qs q w ext := by
      intro hreads
      obtain ⟨ext, hmain, hmatching, hselects⟩ := exists_selects_iff hp hdb hscope hw hreads
      exact ⟨ext, hmain, hmatching, hselects⟩
    rcases boundDmlWhere_cases hbound with ⟨hlimit, hoffset, rfl⟩ | ⟨pk, order, hpk, horder, hsome, rfl⟩
    · have hreads := (matches_lift.mp hrows).1
      obtain ⟨ext, hf⟩ := hfetch hreads
      exact agreesWith_lift_iff hdb hp hf hw hnone hreads hlimit hoffset
    · obtain ⟨hreads, hinner, -⟩ := mem_of_matches hdb hpk hrows
      obtain ⟨ext, hf⟩ := hfetch hreads
      exact agreesWith_sliced_iff hdb hp hf hw hnone hreads hpk horder hsome hinner

end Writes

/-- A `DELETE` and an `UPDATE` match the rows that a fetch selects exactly when the `DISTINCT` of the
queryset keeps them. -/
theorem dml_agrees_with_fetch (m : Meaning L) (db : Database L) (core : Core L) (qs : QuerySet L)
    (q : SelectQuery L) (hq : qs.compile core = .ok q) (hdb : Fits m core db qs.model)
    (hscope : q.InScope m) :
    (∀ dq, qs.compileDelete core m.ofBool = .ok dq →
      (∃ rows, Matches m db dq.model dq.whereClause rows) →
      (AgreesWith m db q dq.model dq.whereClause ↔ qs.KeepsRows core m db q)) ∧
    (∀ set uq, UpdateBuilder.compile core m.ofBool ⟨qs, set⟩ = .ok uq →
      (∃ rows, Matches m db uq.model uq.whereClause rows) →
      (AgreesWith m db q uq.model uq.whereClause ↔ qs.KeepsRows core m db q)) := by
  have hmodel : qs.prepared.model = qs.model := by rw [QuerySet.prepared_eq]
  constructor
  · intro dq h hruns
    obtain ⟨_, hshape, h⟩ := bind_eq_ok.mp h
    obtain ⟨w', hdml, h⟩ := bind_eq_ok.mp h
    obtain rfl := Except.ok.inj h
    change AgreesWith m db q qs.prepared.model w' ↔ _
    change ∃ rows, Matches m db qs.prepared.model w' rows at hruns
    rw [hmodel] at hruns ⊢
    exact agreesWith_iff hq hdb hscope hshape hdml hruns
  · intro set uq h hruns
    obtain ⟨_, hshape, h⟩ := bind_eq_ok.mp h
    obtain ⟨_, -, h⟩ := bind_eq_ok.mp h
    obtain ⟨w', hdml, h⟩ := bind_eq_ok.mp h
    obtain rfl := Except.ok.inj h
    change AgreesWith m db q qs.prepared.model w' ↔ _
    change ∃ rows, Matches m db qs.prepared.model w' rows at hruns
    rw [hmodel] at hruns ⊢
    exact agreesWith_iff hq hdb hscope hshape hdml hruns

section Books

/-- One book of each author, in the order of the authors. -/
def firstBooks : QuerySet IntLang :=
  ((QuerySet.new book).orderBy_ [("author", false)]).distinctOn ["author"]

def firstBooksFetch : SelectQuery IntLang :=
  { SelectQuery.new book with
    orderBy := [.column "author" false .default]
    distinct := some (.on_ ["author"]) }

theorem firstBooks_compile : firstBooks.compile bookCore = .ok firstBooksFetch := rfl

private theorem firstBooks_delete :
    firstBooks.compileDelete bookCore intMeaning.ofBool = .ok ⟨book, .and []⟩ := rfl

private theorem firstBooks_inScope : firstBooksFetch.InScope intMeaning := by
  refine ⟨List.nodup_singleton _, List.nil_subset _, fun i hi => ?_⟩
  obtain rfl := List.mem_singleton.mp hi
  exact List.nil_subset _

/-- Two books, with these authors. -/
private def books (a b : Int) : Database IntLang := fun _ => [bookRow 1 a, bookRow 2 b]

private theorem book_fits (a b : Int) :
    Fits intMeaning bookCore (books a b) book where
  nodup := by
    have hne : bookRow 1 a ≠ bookRow 2 b := fun h => by
      have hid := congrFun h "id"
      simp [bookRow] at hid
    simp [books, hne]
  notNull := by simp [books, book, bookRow, intMeaning]
  unique _ := by simp [books, book, bookRow, intMeaning]
  relations s hs f hf rel hrel := by
    have hsbook : s = book := by
      rcases hs with hs | ⟨t, ht⟩
      · exact hs
      · simp only [bookCore] at ht
        split at ht
        · exact (Option.some.inj ht).symm
        · cases ht
    subst hsbook
    simp only [book, List.mem_cons, List.not_mem_nil, or_false] at hf
    rcases hf with rfl | rfl <;> cases hrel

private theorem firstBooks_matches (a b : Int) :
    Matches intMeaning (books a b) book (.and []) [bookRow 1 a, bookRow 2 b] :=
  (matches_lift (w := .and [])).mpr ⟨rfl, rfl⟩

/-- A delete of the first book of each author deletes every book. -/
theorem compileDelete_ignores_distinctOn :
    firstBooks.compile bookCore = .ok firstBooksFetch ∧
    firstBooks.compileDelete bookCore intMeaning.ofBool = .ok ⟨book, .and []⟩ ∧
    Fits intMeaning bookCore (books 7 7) book ∧ firstBooksFetch.InScope intMeaning ∧
    (∃ rows, Matches intMeaning (books 7 7) book (.and []) rows) ∧
    ¬ AgreesWith intMeaning (books 7 7) firstBooksFetch book (.and []) := by
  refine ⟨firstBooks_compile, firstBooks_delete, book_fits 7 7, firstBooks_inScope,
    ⟨_, firstBooks_matches 7 7⟩, fun hagrees => ?_⟩
  have hkeeps := (agreesWith_iff firstBooks_compile (book_fits 7 7) firstBooks_inScope rfl rfl
    ⟨_, firstBooks_matches 7 7⟩).mp hagrees
  have hgroups := hkeeps.1 ["author"] rfl rfl (fun _ => 0) _ (List.Perm.refl _)
    (List.pairwise_of_forall fun _ _ => trivial)
  rcases hgroups with hnil | hapart
  · cases hnil
  · have hne := (List.pairwise_cons.mp hapart).1 (bookRow 2 7) (List.mem_singleton.mpr rfl)
    revert hne
    decide

/-- With one book of each author the delete takes what the fetch selects. -/
theorem delete_firstBooks : AgreesWith intMeaning (books 7 8) firstBooksFetch book (.and []) := by
  refine ((dml_agrees_with_fetch intMeaning (books 7 8) bookCore firstBooks firstBooksFetch
    firstBooks_compile (book_fits 7 8) firstBooks_inScope).1 _ firstBooks_delete
      ⟨_, firstBooks_matches 7 8⟩).mpr ⟨?_, by simp [firstBooks, QuerySet.distinctOn]⟩
  intro cols hcols _ draw k hk _
  obtain rfl : ["author"] = cols := by simpa [firstBooks, QuerySet.distinctOn] using hcols
  right
  have hapart : Apart (fun r r' => agree intMeaning ["author"] (Env.base r) (Env.base r'))
      (firstBooks.accepted bookCore intMeaning (books 7 8)) := by
    change List.Pairwise _ [bookRow 1 7, bookRow 2 8]
    simp [agree, columnOf, Env.base, bookRow, intMeaning]
  refine hapart.perm hk fun {a b} hab => ?_
  simp only [agree, intMeaning] at hab ⊢
  simpa [eq_comm] using hab

end Books

end Rustango.Query
