import Rustango.Query.Count

/-!
# A query as a derived table

A count or an aggregate reads a query as a derived table, which has the rows of the query in no
order. It drops an order that picks no rows; what picks a row among alike ones is then left to the
database, as it was before.
-/

namespace Rustango.Query

open Rustango.Firsts

variable {L : Lang} {m : Meaning L} {db : Database L} {q : SelectQuery L}

/-- The item has `a` before `b` or level with it, unless it is random. -/
def OrderItem.Levels (m : Meaning L) (table : String) (i : OrderItem L) (a b : Env L) : Prop :=
  i = .random ∨ ∀ draw, i.le m table draw a b

private theorem draw_le_of_levels {table : String} {draw : Env L → Nat} {items : List (OrderItem L)}
    {a b : Env L} (hlevels : ∀ i ∈ items, i.Levels m table b a)
    (h : ordered m table draw (items ++ [.random]) a b) : draw a ≤ draw b := by
  induction items with
  | nil => exact h.1
  | cons i is ih =>
    rcases hlevels i List.mem_cons_self with rfl | hle
    · exact h.1
    · exact ih (fun j hj => hlevels j (List.mem_cons_of_mem i hj)) (h.2 (hle draw))

private theorem exists_sorted_firsts {r : Env L → Env L → Bool} (hrefl : ∀ e, r e e = true)
    (hsymm : ∀ e e', r e e' = true → r e' e = true)
    (htrans : ∀ e e' e'', r e e' = true → r e' e'' = true → r e e'' = true) (table : String)
    {items : List (OrderItem L)} {l : List (Env L)}
    (hlevels : ∀ a ∈ l, ∀ b ∈ l, r a b = true → ∀ i ∈ items, i.Levels m table a b) :
    ∃ draw l', l.Perm l' ∧ l'.Pairwise (ordered m table draw items) ∧
      (firsts r l).Perm (firsts r l') := by
  classical
  let draw : Env L → Nat := fun e => if e ∈ firsts r l then 0 else 1
  obtain ⟨l', hl', hsorted⟩ := exists_arrangement m table draw (items ++ [.random]) l
  refine ⟨draw, l', hl', hsorted.imp ordered_append, ?_⟩
  have hleast := leaders_firsts hrefl htrans
    (fun e => (ordered_total m table draw (items ++ [.random]) e e).elim id id)
    (pairwise_within (r := r) hsorted)
  have hsub : firsts r l' ⊆ firsts r l := by
    intro y hy
    have hyl : y ∈ l := hl'.mem_iff.mpr ((firsts_sublist r l').subset hy)
    obtain ⟨t, ht, hty⟩ := exists_mem_firsts r hrefl htrans hyl
    have htl : t ∈ l := (firsts_sublist r l).subset ht
    obtain ⟨y', hy', hyt, hle⟩ := hleast.least t (hl'.mem_iff.mp htl)
    -- The first row of the class in `l'` is before the one that `l` keeps.
    obtain rfl : y' = y := eq_of_apart hsymm (firsts_apart r l') hy' hy (htrans _ _ _ hyt hty)
    have hdraw : draw y' ≤ draw t := draw_le_of_levels (hlevels t htl y' hyl hty) hle
    have hzero : draw t = 0 := if_pos ht
    by_contra hnot
    have hone : draw y' = 1 := if_neg hnot
    omega
  have hnodup : (firsts r l').Nodup := nodup_of_apart hrefl (firsts_apart r l')
  have hlen := length_firsts_perm hrefl hsymm htrans hl'
  exact ((List.subperm_of_subset hnodup hsub).perm_of_length_le (by omega)).symm

namespace SelectQuery
variable (q : SelectQuery L)

/-- The labels and expressions of a result row. -/
def outputColumns : List (String × Expr L) :=
  (q.projection.getD (q.model.fields.map (·.column))).map (fun c => (c, .column c)) ++
    q.joins.flatMap fun j => j.project.map fun c => (j.alias_ ++ "__" ++ c, .aliasedColumn j.alias_ c)

/-- The bare column that an item sorts by. -/
def bareColumn : OrderItem L → Option String
  | .column c _ _ => some c
  | .expr (.column c) _ _ => some c
  | _ => none

/-- The bare columns of the order are columns of the model, as the database wants them. -/
def OrderKnown : Prop :=
  ∀ i ∈ q.orderBy, ∀ c, bareColumn i = some c → c ∈ q.model.fields.map (·.column)

end SelectQuery

private theorem output_eq (e : Env L) :
    q.output m e = q.outputColumns.map fun p => (p.1, p.2.value m q.model.table e) := by
  simp only [SelectQuery.output, SelectQuery.outputColumns, List.map_append, List.map_flatMap,
    List.map_map]
  rfl

private theorem narrow_iff {a b : Env L} : narrow m q a b = true ↔ ∀ p ∈ q.outputColumns,
    m.tied (p.2.value m q.model.table a) (p.2.value m q.model.table b) = true := by
  rw [narrow, output_eq, output_eq, sameOutput_iff, List.forall₂_map_left_iff,
    List.forall₂_map_right_iff, List.forall₂_same]

private theorem orderTerm_cases (hknown : q.OrderKnown) {i : OrderItem L} (hi : i ∈ q.orderBy) :
    i = .random ∨ ∃ x : Expr L, (∀ table draw a b, m.tied (x.value m table a) (x.value m table b) = true →
      i.le m table draw a b) ∧ (x ∈ q.distinctOrderHelpers ∨ ∃ label, (label, x) ∈ q.outputColumns) := by
  have hcolumn : ∀ c, q.projects c = true → c ∈ q.model.fields.map (·.column) →
      (c, Expr.column c) ∈ q.outputColumns := by
    intro c hc hmem
    refine List.mem_append_left _ (List.mem_map.mpr ⟨c, ?_, rfl⟩)
    rw [SelectQuery.projects] at hc
    cases hp : q.projection with
    | none => simpa using hmem
    | some cols => simpa [hp] using hc
  have hhelper : ∀ x, q.distinctOrderHelper i = some x → x ∈ q.distinctOrderHelpers := fun x hx =>
    List.mem_filterMap.mpr ⟨i, hi, hx⟩
  cases i with
  | random => exact Or.inl rfl
  | column c desc nulls =>
    refine Or.inr ⟨.column c, fun _ _ a b h => ((m.tied_iff desc nulls _ _).mp h).1, ?_⟩
    by_cases hc : q.projects c = true
    · exact Or.inr ⟨c, hcolumn c hc (hknown _ hi c rfl)⟩
    · exact Or.inl (hhelper _ (if_neg hc))
  | expr x desc nulls =>
    refine Or.inr ⟨x, fun _ _ a b h => ((m.tied_iff desc nulls _ _).mp h).1, ?_⟩
    cases x with
    | literal v => exact Or.inl (hhelper _ rfl)
    | scalar s => exact Or.inl (hhelper _ rfl)
    | column c =>
      by_cases hc : q.projects c = true
      · exact Or.inr ⟨c, hcolumn c hc (hknown _ hi c rfl)⟩
      · exact Or.inl (hhelper _ (if_neg hc))
    | aliasedColumn alias_ c =>
      by_cases hj : (q.joins.any fun j => j.alias_ = alias_ && j.project.contains c) = true
      · obtain ⟨j, hjoin, hshown⟩ := List.any_eq_true.mp hj
        simp only [Bool.and_eq_true, decide_eq_true_eq, List.contains_iff_mem] at hshown
        refine Or.inr ⟨j.alias_ ++ "__" ++ c, List.mem_append_right _ ?_⟩
        rw [← hshown.1]
        exact List.mem_flatMap.mpr ⟨j, hjoin, List.mem_map.mpr ⟨c, hshown.2, rfl⟩⟩
      · exact Or.inl (hhelper _ (if_neg hj))

private theorem levels_of_wide (hknown : q.OrderKnown) {a b : Env L} (h : wide m q a b = true) :
    ∀ i ∈ q.orderBy, i.Levels m q.model.table a b := by
  intro i hi
  rw [wide, Bool.and_eq_true] at h
  rcases orderTerm_cases (m := m) hknown hi with rfl | ⟨x, hle, hx | ⟨label, hx⟩⟩
  · exact Or.inl rfl
  · exact Or.inr fun draw => hle _ draw a b (List.all_eq_true.mp h.2 x hx)
  · exact Or.inr fun draw => hle _ draw a b (narrow_iff.mp h.1 _ hx)

private theorem dedup_sorted (items : List (OrderItem L)) (hon : q.isDistinctOn = false)
    (hlevels : q.distinct = some .all → ∀ a ∈ q.matching m db, ∀ b ∈ q.matching m db,
      narrow m q a b = true → ∀ i ∈ items, i.Levels m q.model.table a b)
    {l : List (Env L)} (hl : (q.matching m db).Perm l) :
    ∃ draw l', (q.matching m db).Perm l' ∧ l'.Pairwise (ordered m q.model.table draw items) ∧
      (q.dedup m l).Perm (q.dedup m l') := by
  cases hd : q.distinct with
  | none =>
    obtain ⟨l', hl', hsorted⟩ := exists_arrangement m q.model.table (fun _ => 0) items
      (q.matching m db)
    refine ⟨fun _ => 0, l', hl', hsorted, ?_⟩
    simpa [SelectQuery.dedup, hd] using hl.symm.trans hl'
  | some mode =>
    cases mode with
    | on_ cols => simp [SelectQuery.isDistinctOn, hd] at hon
    | all =>
      obtain ⟨draw, l', hl', hsorted, hfirsts⟩ := exists_sorted_firsts (r := narrow m q) (l := l)
        (fun _ => sameOutput_refl _) (fun _ _ => sameOutput_symm) (fun _ _ _ => sameOutput_trans)
        q.model.table fun a ha b hb => hlevels hd a (hl.mem_iff.mpr ha) b (hl.mem_iff.mpr hb)
      refine ⟨draw, l', hl.trans hl', hsorted, ?_⟩
      simp only [SelectQuery.dedup, hd]
      exact hfirsts

theorem SameRows.refl {α : Type} (answers : List α → Prop) : SameRows answers answers :=
  ⟨fun rows h => ⟨rows, h, List.Perm.refl _⟩, fun rows h => ⟨rows, h, List.Perm.refl _⟩⟩

section Unsliced
variable (hlimit : q.limit = none) (hoffset : q.offset = none)
include hlimit hoffset

theorem slice_of_unsliced {α : Type} (l : List α) : slice q.limit q.offset l = l := by
  rw [hlimit, hoffset]
  rfl

private theorem levels_of_branch (hknown : q.OrderKnown) (hd : q.distinct = some .all) {a b : Env L}
    (hab : narrow m q a b = true) : ∀ i ∈ q.asBranch.orderBy, i.Levels m q.model.table a b := by
  have horder : q.asBranch.orderBy = if q.needsHelpers = true then [] else q.orderBy := by
    change (if q.distinct = some .all then q.writtenOrder false else q.orderBy) = _
    simp [hd, SelectQuery.writtenOrder, SelectQuery.dropsOrder, hlimit, hoffset]
  intro i hi
  rw [horder] at hi
  split at hi
  · cases hi
  · rename_i hneeds
    have hhelpers : q.distinctOrderHelpers = [] := by
      simpa [SelectQuery.needsHelpers, hd] using hneeds
    have hwide : wide m q a b = true := by
      rw [wide, SelectQuery.helpersTied, hhelpers, Bool.and_eq_true]
      exact ⟨hab, rfl⟩
    exact levels_of_wide hknown hwide i hi

end Unsliced

private theorem head_sameRows (db : Database L) (hknown : q.OrderKnown) (hscope : q.asBranch.InScope m) :
    SameRows (q.intoDerived.asBranch.Selects m db) (q.asBranch.Selects m db) := by
  rcases intoDerived_asBranch_orderBy (q := q) with horder | ⟨horder, hlimit, hoffset, hon⟩
  · have hsame : q.intoDerived.asBranch.Selects m db = q.asBranch.Selects m db := by
      funext envs
      rw [SelectQuery.Selects, SelectQuery.Selects, SelectQuery.InScope, SelectQuery.InScope, horder]
      rfl
    rw [hsame]
    exact SameRows.refl _
  · have hderived : q.intoDerived.asBranch.InScope m := by
      refine ⟨hscope.1, hscope.2.1, fun i hi => ?_⟩
      rw [horder] at hi
      cases hi
    have hslice : ∀ l : List (Env L), slice q.limit q.offset l = l :=
      slice_of_unsliced hlimit hoffset
    constructor
    · rintro envs ⟨-, draw, l, hl, -, rfl⟩
      obtain ⟨draw', l', hl', hsorted, hkept⟩ := dedup_sorted q.asBranch.orderBy hon
        (fun hd a _ b _ hab => levels_of_branch hlimit hoffset hknown hd hab) hl
      refine ⟨_, ⟨hscope, draw', l', hl', hsorted, rfl⟩, ?_⟩
      change (slice q.limit q.offset (q.dedup m l)).Perm (slice q.limit q.offset (q.dedup m l'))
      rw [hslice, hslice]
      exact hkept
    · rintro envs ⟨-, draw, l, hl, -, rfl⟩
      have hunordered : l.Pairwise (ordered m q.model.table draw q.intoDerived.asBranch.orderBy) := by
        rw [horder]
        exact List.pairwise_of_forall fun _ _ => trivial
      exact ⟨_, ⟨hderived, draw, l, hl, hunordered, rfl⟩, List.Perm.refl _⟩

/-- Where a lone `DISTINCT` has no slice, the rows that look alike agree in its helper columns. -/
def SelectQuery.HelpersAgree (m : Meaning L) (db : Database L) (q : SelectQuery L) : Prop :=
  q.compound = [] → q.distinct = some .all → q.limit = none → q.offset = none →
    ∀ a ∈ q.matching m db, ∀ b ∈ q.matching m db, narrow m q a b = true → q.helpersTied m a b = true

theorem SelectQuery.HelpersAgree.dedupFetched (h : q.HelpersAgree m db) (hc : q.compound = [])
    (hlimit : q.limit = none) (hoffset : q.offset = none) {l : List (Env L)}
    (hl : (q.matching m db).Perm l) : q.dedupFetched m l = q.dedup m l := by
  by_cases hd : q.distinct = some .all
  · simp only [SelectQuery.dedupFetched, SelectQuery.dedup, hd]
    apply firsts_congr
    intro a ha b hb
    have hagree := h hc hd hlimit hoffset a (hl.mem_iff.mpr ha) b (hl.mem_iff.mpr hb)
    rw [Bool.eq_iff_iff, Bool.and_eq_true]
    exact ⟨fun hab => hab.1, fun hab => ⟨hab, hagree hab⟩⟩
  · exact dedupFetched_of_ne hd l

/-- A lone query as a derived table. -/
theorem derived_plain (hc : q.compound = []) (hknown : q.OrderKnown) (hscope : q.InScope m)
    (hagree : q.HelpersAgree m db) : SameRows (q.intoDerived.Fetches m db) (q.Fetches m db) := by
  have hderivedCompound : q.intoDerived.compound = [] := hc
  rcases intoDerived_orderBy (q := q) with horder | ⟨horder, hlimit, hoffset, hon⟩
  · have hsame : q.intoDerived.Fetches m db = q.Fetches m db := by
      funext rows
      have hdedup : q.intoDerived.dedupFetched m = q.dedupFetched m := by
        funext l
        unfold SelectQuery.dedupFetched SelectQuery.helpersTied SelectQuery.distinctOrderHelpers
        rw [horder]
        rfl
      rw [propext (fetches_plain hc), propext (fetches_plain hderivedCompound), SelectQuery.InScope,
        SelectQuery.InScope, horder, hdedup]
      rfl
    rw [hsame]
    exact SameRows.refl _
  · have hderived : q.intoDerived.InScope m := by
      refine ⟨hscope.1, hscope.2.1, fun i hi => ?_⟩
      rw [horder] at hi
      cases hi
    have hfetched : ∀ {l}, (q.matching m db).Perm l → q.dedupFetched m l = q.dedup m l := fun hl =>
      hagree.dedupFetched hc hlimit hoffset hl
    have hread : ∀ l, q.intoDerived.dedupFetched m l = q.dedup m l := fun l =>
      dedupFetched_of_unordered horder l
    have hslice : ∀ l : List (Env L), slice q.limit q.offset l = l :=
      slice_of_unsliced hlimit hoffset
    constructor
    · rintro rows hrows
      obtain ⟨-, draw, l, hl, -, rfl⟩ := (fetches_plain hderivedCompound).mp hrows
      have hlevels : q.distinct = some .all → ∀ a ∈ q.matching m db, ∀ b ∈ q.matching m db,
          narrow m q a b = true → ∀ i ∈ q.orderBy, i.Levels m q.model.table a b := by
        intro hd a ha b hb hab
        refine levels_of_wide hknown ?_
        rw [wide, Bool.and_eq_true]
        exact ⟨hab, hagree hc hd hlimit hoffset a ha b hb hab⟩
      obtain ⟨draw', l', hl', hsorted, hkept⟩ := dedup_sorted q.orderBy hon hlevels hl
      refine ⟨_, (fetches_plain hc).mpr ⟨hscope, draw', l', hl', hsorted, rfl⟩, ?_⟩
      change ((slice q.limit q.offset (q.intoDerived.dedupFetched m l)).map (q.output m)).Perm
        ((slice q.limit q.offset (q.dedupFetched m l')).map (q.output m))
      rw [hslice, hslice, hread, hfetched hl']
      exact hkept.map _
    · rintro rows hrows
      obtain ⟨-, draw, l, hl, -, rfl⟩ := (fetches_plain hc).mp hrows
      have hunordered : l.Pairwise (ordered m q.model.table draw q.intoDerived.orderBy) := by
        rw [horder]
        exact List.pairwise_of_forall fun _ _ => trivial
      refine ⟨_, (fetches_plain hderivedCompound).mpr ⟨hderived, draw, l, hl, hunordered, rfl⟩, ?_⟩
      change ((slice q.limit q.offset (q.intoDerived.dedupFetched m l)).map (q.output m)).Perm
        ((slice q.limit q.offset (q.dedupFetched m l)).map (q.output m))
      rw [hslice, hslice, hread, hfetched hl]

private theorem folds_perm {branches : List (CompoundBranch L)} {a a' rows : List (List (String × L.Value))}
    (ha : a.Perm a') (h : SelectQuery.Folds m db branches a rows) :
    ∃ rows', SelectQuery.Folds m db branches a' rows' ∧ rows.Perm rows' := by
  cases branches with
  | nil =>
    rw [SelectQuery.Folds] at h
    exact ⟨a', by rw [SelectQuery.Folds], h ▸ ha⟩
  | cons branch branches =>
    obtain ⟨op, query⟩ := branch
    rw [SelectQuery.Folds] at h
    obtain ⟨b, combined, hb, hcombined, hrest⟩ := h
    refine ⟨rows, ?_, List.Perm.refl _⟩
    rw [SelectQuery.Folds]
    exact ⟨b, combined, hb, QuerySet.combines_perm ha (List.Perm.refl _) hcombined, hrest⟩

private theorem windowed_sameRows {table : String} {items : List (OrderItem L)} {limit offset : Option Int}
    {combined combined' : List (List (String × L.Value))} (hitems : ∀ i ∈ items, i.Unqualified m)
    (hperm : combined.Perm combined') :
    SameRows (Windowed m table (if limit.isNone && offset.isNone then [] else items) limit offset combined)
      (Windowed m table items limit offset combined') := by
  by_cases hslice : (limit.isNone && offset.isNone) = true
  · rw [if_pos hslice]
    rw [Bool.and_eq_true, Option.isNone_iff_eq_none, Option.isNone_iff_eq_none] at hslice
    obtain ⟨rfl, rfl⟩ := hslice
    constructor
    · rintro rows ⟨-, draw, l, hl, -, rfl⟩
      obtain ⟨k, hk, hsorted⟩ := exists_arrangement m table draw items (combined'.map (mergedEnv m))
      obtain ⟨l', hl', rfl⟩ := exists_of_map_perm hk
      exact ⟨_, ⟨hitems, draw, l', hl', hsorted, rfl⟩, hl.symm.trans (hperm.trans hl')⟩
    · intro rows h
      obtain ⟨-, draw, l, hl, -, hrows⟩ := h
      refine ⟨rows, ⟨fun i hi => ?_, draw, l, hperm.trans hl, List.pairwise_of_forall fun _ _ => trivial,
        hrows⟩, List.Perm.refl _⟩
      cases hi
  · rw [if_neg hslice]
    constructor
    · exact fun rows h => ⟨rows, QuerySet.windowed_perm hperm.symm h, List.Perm.refl _⟩
    · exact fun rows h => ⟨rows, QuerySet.windowed_perm hperm h, List.Perm.refl _⟩

/-- A set operation as a derived table. -/
theorem derived_combined (hc : q.compound ≠ []) (hknown : q.OrderKnown) (hscope : q.asBranch.InScope m)
    (hitems : ∀ i ∈ q.compoundOrderBy, i.Unqualified m) :
    SameRows (q.intoDerived.Fetches m db) (q.Fetches m db) := by
  have hderived : q.intoDerived.compound ≠ [] := hc
  have hbranch : q.asBranch.compound ≠ [] := hc
  have hboth : q.intoDerived.asBranch.compound ≠ [] := hc
  have hheads := head_sameRows db hknown hscope
  constructor
  · intro rows hrows
    obtain ⟨envs, henvs, combined, hfolds, hwindow⟩ :=
      (SelectQuery.answers_compound_iff hboth).mp ((fetches_combined hderived).mp hrows)
    obtain ⟨envs', henvs', hperm⟩ := hheads.1 envs henvs
    obtain ⟨combined', hfolds', hsame⟩ := folds_perm (hperm.map (q.output m)) hfolds
    obtain ⟨rows', hrows', hpermRows⟩ := (windowed_sameRows hitems hsame).1 rows hwindow
    exact ⟨rows', (fetches_combined hc).mpr ((SelectQuery.answers_compound_iff hbranch).mpr
      ⟨envs', henvs', combined', hfolds', hrows'⟩), hpermRows⟩
  · intro rows hrows
    obtain ⟨envs, henvs, combined, hfolds, hwindow⟩ :=
      (SelectQuery.answers_compound_iff hbranch).mp ((fetches_combined hc).mp hrows)
    obtain ⟨envs', henvs', hperm⟩ := hheads.2 envs henvs
    obtain ⟨combined', hfolds', hsame⟩ := folds_perm (hperm.symm.map (q.output m)) hfolds
    obtain ⟨rows', hrows', hpermRows⟩ := (windowed_sameRows hitems hsame.symm).2 rows hwindow
    exact ⟨rows', (fetches_combined hderived).mpr ((SelectQuery.answers_compound_iff hboth).mpr
      ⟨envs', henvs', combined', hfolds', hrows'⟩), hpermRows⟩

end Rustango.Query
