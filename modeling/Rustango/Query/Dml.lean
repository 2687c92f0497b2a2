import Mathlib.Data.List.Pairwise
import Rustango.Query.Compile
import Rustango.Query.Order

/-!
# What a bulk write matches

The `WHERE` of a `DELETE` or an `UPDATE` of a queryset: its filters, and the keys of its slice.
-/

namespace Rustango.Query

open Rustango.Firsts Rustango.Outcome

variable {L : Lang}

section Where
variable {m : Meaning L} {table : String}

mutual

theorem WhereExpr.holds_lift {Q : Type} (sub : Q → List L.Value) (sub' : Empty → List L.Value)
    (e : Env L) : ∀ w : WhereExpr L Empty, w.lift.holds m table sub e = w.holds m table sub' e
  | .predicate _ => rfl
  | .exprCompare _ _ _ => rfl
  | .leaf _ => rfl
  | .and items => congrArg and3 (WhereExpr.holdsAll_lift sub sub' e items)
  | .or items => congrArg or3 (WhereExpr.holdsAll_lift sub sub' e items)
  | .not child => congrArg (Option.map (!·)) (child.holds_lift sub sub' e)
  | .xor items => congrArg xor3 (WhereExpr.holdsAll_lift sub sub' e items)

theorem WhereExpr.holdsAll_lift {Q : Type} (sub : Q → List L.Value) (sub' : Empty → List L.Value)
    (e : Env L) : ∀ ws : List (WhereExpr L Empty),
      WhereExpr.holdsAll m table sub e (WhereExpr.liftAll ws) = WhereExpr.holdsAll m table sub' e ws
  | [] => rfl
  | w :: ws => by
    rw [WhereExpr.liftAll, WhereExpr.holdsAll, WhereExpr.holdsAll, w.holds_lift sub sub' e,
      WhereExpr.holdsAll_lift sub sub' e ws]

end

mutual

theorem WhereExpr.reads_lift {Q : Type} :
    ∀ w : WhereExpr L Empty, (w.lift : WhereExpr L Q).reads m table = w.reads m table
  | .predicate _ => rfl
  | .exprCompare _ _ _ => rfl
  | .leaf _ => rfl
  | .and items => WhereExpr.readsAll_lift items
  | .or items => WhereExpr.readsAll_lift items
  | .not child => child.reads_lift
  | .xor items => WhereExpr.readsAll_lift items

theorem WhereExpr.readsAll_lift {Q : Type} : ∀ ws : List (WhereExpr L Empty),
    WhereExpr.readsAll m table (WhereExpr.liftAll ws : List (WhereExpr L Q)) =
      WhereExpr.readsAll m table ws
  | [] => rfl
  | w :: ws => by
    rw [WhereExpr.liftAll, WhereExpr.readsAll, WhereExpr.readsAll, w.reads_lift,
      WhereExpr.readsAll_lift ws]

end

mutual

theorem WhereExpr.subqueries_lift {Q : Type} :
    ∀ w : WhereExpr L Empty, (w.lift : WhereExpr L Q).subqueries = []
  | .predicate _ => rfl
  | .exprCompare _ _ _ => rfl
  | .leaf _ => rfl
  | .and items => WhereExpr.subqueriesAll_lift items
  | .or items => WhereExpr.subqueriesAll_lift items
  | .not child => child.subqueries_lift
  | .xor items => WhereExpr.subqueriesAll_lift items

theorem WhereExpr.subqueriesAll_lift {Q : Type} : ∀ ws : List (WhereExpr L Empty),
    WhereExpr.subqueriesAll (WhereExpr.liftAll ws : List (WhereExpr L Q)) = []
  | [] => rfl
  | w :: ws => by
    rw [WhereExpr.liftAll, WhereExpr.subqueriesAll, w.subqueries_lift,
      WhereExpr.subqueriesAll_lift ws, List.append_nil]

end

mutual

theorem WhereExpr.holds_base {Q : Type} (sub : Q → List L.Value) (e : Env L) : ∀ w : WhereExpr L Q,
    w.reads m table = [] → w.holds m table sub e = w.holds m table sub ⟨e.main, []⟩
  | .predicate _, _ => rfl
  | .exprCompare _ _ _, h => by
    rw [WhereExpr.reads, List.append_eq_nil_iff] at h
    rw [WhereExpr.holds, WhereExpr.holds, Expr.value_base h.1, Expr.value_base h.2]
  | .leaf p, h => m.leaf_base p e h
  | .and items, h => congrArg and3 (WhereExpr.holdsAll_base sub e items h)
  | .or items, h => congrArg or3 (WhereExpr.holdsAll_base sub e items h)
  | .not child, h => congrArg (Option.map (!·)) (child.holds_base sub e h)
  | .xor items, h => congrArg xor3 (WhereExpr.holdsAll_base sub e items h)
  | .inSubquery _ _ _, _ => rfl

theorem WhereExpr.holdsAll_base {Q : Type} (sub : Q → List L.Value) (e : Env L) :
    ∀ ws : List (WhereExpr L Q), WhereExpr.readsAll m table ws = [] →
      WhereExpr.holdsAll m table sub e ws = WhereExpr.holdsAll m table sub ⟨e.main, []⟩ ws
  | [], _ => rfl
  | w :: ws, h => by
    rw [WhereExpr.readsAll, List.append_eq_nil_iff] at h
    rw [WhereExpr.holdsAll, WhereExpr.holdsAll, w.holds_base sub e h.1,
      WhereExpr.holdsAll_base sub e ws h.2]

end

theorem WhereExpr.accepts_base {w : WhereExpr L Empty} (h : w.reads m table = []) (e : Env L) :
    w.accepts m table e = w.accepts m table ⟨e.main, []⟩ :=
  congrArg (fun b => decide (b = some true)) (w.holds_base _ e h)

private theorem holdsAll_eq_map {Q : Type} (sub : Q → List L.Value) (e : Env L) (ws : List (WhereExpr L Q)) :
    WhereExpr.holdsAll m table sub e ws = ws.map fun w => w.holds m table sub e := by
  induction ws with
  | nil => rfl
  | cons w ws ih => rw [WhereExpr.holdsAll, ih, List.map_cons]

theorem holds_and {Q : Type} {sub : Q → List L.Value} {e : Env L} {ws : List (WhereExpr L Q)} :
    (WhereExpr.and ws).holds m table sub e = some true ↔
      ∀ w ∈ ws, w.holds m table sub e = some true := by
  rw [WhereExpr.holds, and3_eq_true, holdsAll_eq_map]
  simp

end Where

section Resolve
variable {core : Core L} {model : ModelSchema L}

private theorem convertRelationSpan_of_resolve {p : PendingFilter L} {w : WhereExpr L Empty}
    (h : resolveOnePending core model p = .ok w) (joins : List (Join L)) :
    convertRelationSpan core model joins p = .ok (p, joins) := by
  induction p generalizing w with
  | relationSpan rawKey value =>
    rw [resolveOnePending] at h
    obtain ⟨_, -, h⟩ := bind_eq_ok.mp h
    cases h
  | negated inner ih =>
    rw [resolveOnePending] at h
    obtain ⟨w', hw', -⟩ := bind_eq_ok.mp h
    rw [convertRelationSpan, ih hw']
    rfl
  | raw field op value => rfl
  | dateTransform field transform op value => rfl
  | resolved filter => rfl
  | expr expr => rfl
  | error e => rfl

theorem lowerRelationSpans_of_resolve {pending : List (PendingFilter L)} {w : WhereExpr L Empty}
    (h : resolvePending core model pending = .ok w) (joins : List (Join L)) :
    lowerRelationSpans core model joins pending = .ok (pending, joins) := by
  obtain ⟨ws, hws, -⟩ := map_eq_ok.mp h
  have hall := mapM_eq_ok.mp hws
  clear h hws
  induction hall with
  | nil => rfl
  | cons hp _ ih =>
    rw [lowerRelationSpans, convertRelationSpan_of_resolve hp joins]
    simp only [bind, Except.bind] at ih ⊢
    rw [ih]

end Resolve

section Rows
variable (m : Meaning L) (db : Database L)

/-- The rows of a table that a filter accepts. -/
def acceptedRows (table : String) (w : WhereExpr L Empty) : List (Row L) :=
  (db table).filter fun r => w.accepts m table (Env.base r)

/-- The subquery that picks the keys of a slice. -/
def sliceQuery (model : ModelSchema L) (w : WhereExpr L Empty) (pk : String)
    (orderBy : List (OrderItem L)) (limit offset : Option Int) : SelectQuery L :=
  { SelectQuery.new model with
    whereClause := w
    orderBy := breakTies pk orderBy
    limit := limit
    offset := offset
    projection := some [pk] }

variable {m db} {core : Core L} {model : ModelSchema L} {w : WhereExpr L Empty}
variable {w' : WhereExpr L (SelectQuery L)}

/-- A write is bounded by nothing, or by the keys of its slice. -/
theorem boundDmlWhere_cases {orderBy : List (PendingOrderItem L)} {limit offset : Option Int}
    (h : boundDmlWhere core model w orderBy limit offset = .ok w') :
    (limit = none ∧ offset = none ∧ w' = w.lift) ∨
    ∃ pk order, model.fields.filter (·.primaryKey) = [pk] ∧
      lowerOrderItems core model orderBy = .ok (order, []) ∧ (limit.isSome ∨ offset.isSome) ∧
      w' = if w.isEmpty then .inSubquery pk.column false (sliceQuery model w pk.column order limit offset)
        else .and [w.lift, .inSubquery pk.column false
          (sliceQuery model w pk.column order limit offset)] := by
  unfold boundDmlWhere at h
  split at h
  · rename_i hnone
    rw [Bool.and_eq_true, Option.isNone_iff_eq_none, Option.isNone_iff_eq_none] at hnone
    exact Or.inl ⟨hnone.1, hnone.2, (Except.ok.inj h).symm⟩
  · rename_i hsome
    right
    split at h
    · cases h
    split at h
    · rename_i pk hpk
      obtain ⟨⟨order, joins⟩, horder, h⟩ := bind_eq_ok.mp h
      simp only at h
      split at h
      · cases h
      · rename_i hjoins
        have hnil : joins = [] := by simpa using hjoins
        subst hnil
        refine ⟨pk, order, hpk, horder, ?_, (Except.ok.inj h).symm⟩
        cases limit <;> cases offset <;> simp_all
    · cases h

private theorem accepts_lift (sub : SelectQuery L → List L.Value) (table : String) (e : Env L) :
    w.lift.holds m table sub e = some true ↔ w.accepts m table e = true := by
  rw [WhereExpr.accepts, decide_eq_true_eq]
  exact iff_of_eq (congrArg (· = some true) (w.holds_lift sub _ e))

private theorem accepts_of_isEmpty (h : w.isEmpty = true) (table : String) (e : Env L) :
    w.accepts m table e = true := by
  unfold WhereExpr.isEmpty at h
  split at h
  · rfl
  · cases h

private theorem holds_bounded {sub : SelectQuery L → List L.Value} {table : String} {e : Env L}
    {bound : WhereExpr L (SelectQuery L)} :
    (if w.isEmpty then bound else .and [w.lift, bound]).holds m table sub e = some true ↔
      w.accepts m table e = true ∧ bound.holds m table sub e = some true := by
  by_cases hw : w.isEmpty = true
  · rw [if_pos hw, accepts_of_isEmpty hw]
    simp
  · rw [if_neg hw, holds_and]
    simp [accepts_lift]

private theorem reads_bounded {table : String} {bound : WhereExpr L (SelectQuery L)}
    (h : (if w.isEmpty then bound else .and [w.lift, bound]).reads m table = []) :
    w.reads m table = [] := by
  by_cases hw : w.isEmpty = true
  · unfold WhereExpr.isEmpty at hw
    split at hw
    · rfl
    · cases hw
  · rw [if_neg hw, WhereExpr.reads, WhereExpr.readsAll, WhereExpr.reads_lift,
      List.append_eq_nil_iff] at h
    exact h.1

private theorem subqueries_bounded {bound : WhereExpr L (SelectQuery L)} :
    (if w.isEmpty then bound else .and [w.lift, bound]).subqueries = bound.subqueries := by
  by_cases hw : w.isEmpty = true
  · rw [if_pos hw]
  · rw [if_neg hw, WhereExpr.subqueries, WhereExpr.subqueriesAll, WhereExpr.subqueriesAll,
      WhereExpr.subqueriesAll, WhereExpr.subqueries_lift, List.nil_append, List.append_nil]

/-- `none()` matches no row of the table. -/
theorem neverMatch_refuses (hdb : Fits m core db model) {w₁ : WhereExpr L Empty}
    (h : neverMatchClause m.ofBool model w = .ok w₁) {r : Row L} (hr : r ∈ db model.table) :
    w₁.accepts m model.table (Env.base r) = false := by
  obtain ⟨pk, hpk, h⟩ := bind_eq_ok.mp h
  have hfind := okOr_eq_ok.mp hpk
  have hnull := hdb.notNull r hr pk (List.mem_of_find?_eq_some hfind) (List.find?_some hfind)
  let never : WhereExpr L Empty := .predicate ⟨pk.column, .isNull, m.ofBool true⟩
  have hnever : never.holds m model.table Empty.elim (Env.base r) ≠ some true := by
    intro htrue
    exact hnull ((m.isNull_true _).mp htrue)
  rw [Bool.eq_false_iff]
  intro haccepts
  rw [WhereExpr.accepts, decide_eq_true_eq] at haccepts
  apply hnever
  obtain rfl := Except.ok.inj h
  split at haccepts
  · exact haccepts
  · exact holds_and.mp haccepts never (by simp [never])
  · exact holds_and.mp haccepts never (by simp [never])

end Rows

section Slice
variable {m : Meaning L} {db : Database L} {core : Core L} {model : ModelSchema L}
variable {w : WhereExpr L Empty} {pk : String} {order : List (OrderItem L)} {limit offset : Option Int}

private theorem sliceQuery_matching : (sliceQuery model w pk order limit offset).matching m db =
    (acceptedRows m db model.table w).map Env.base := by
  change ((db model.table).map Env.base).filter (fun e => w.accepts m model.table e) = _
  rw [List.filter_map]
  rfl

variable (m db model w pk order) in
/-- An arrangement of the accepted rows in the order of the slice. -/
def SliceOrder (draw : Env L → Nat) (k : List (Row L)) : Prop :=
  (acceptedRows m db model.table w).Perm k ∧
    (k.map Env.base).Pairwise (ordered m model.table draw (breakTies pk order))

private theorem sliceQuery_answers {answer : List (List (String × L.Value))} :
    (sliceQuery model w pk order limit offset).Answers m db answer ↔
      (sliceQuery model w pk order limit offset).InScope m ∧ ∃ draw k,
        SliceOrder m db model w pk order draw k ∧
          answer = (slice limit offset k).map fun r => [(pk, r pk)] := by
  have houtput : ∀ k : List (Row L), (slice limit offset (k.map Env.base)).map
      ((sliceQuery model w pk order limit offset).output m) =
        (slice limit offset k).map fun r => [(pk, r pk)] := by
    intro k
    rw [slice, window_map, List.map_map]
    rfl
  rw [SelectQuery.answers_iff rfl]
  constructor
  · intro ⟨envs, ⟨hscope, draw, l, hperm, hsorted, henvs⟩, hanswer⟩
    rw [sliceQuery_matching] at hperm
    obtain ⟨k, hk, rfl⟩ := exists_of_map_perm hperm
    exact ⟨hscope, draw, k, ⟨hk, hsorted⟩, by rw [hanswer, henvs, ← houtput]; rfl⟩
  · intro ⟨hscope, draw, k, ⟨hperm, hsorted⟩, hanswer⟩
    refine ⟨slice limit offset (k.map Env.base), ⟨hscope, draw, k.map Env.base, ?_, hsorted, rfl⟩, ?_⟩
    · rw [sliceQuery_matching]
      exact hperm.map _
    · rw [hanswer, houtput]

end Slice

section Keys
variable {m : Meaning L} {db : Database L} {core : Core L} {model : ModelSchema L}
variable {w : WhereExpr L Empty} {pk : FieldSchema} {order : List (OrderItem L)}
variable {limit offset : Option Int} (hdb : Fits m core db model)
variable (hpk : model.fields.filter (·.primaryKey) = [pk])
include hdb hpk

/-- The key tells the rows of the table apart. -/
theorem Fits.eq_of_tied {r r' : Row L} (hr : r ∈ db model.table) (hr' : r' ∈ db model.table)
    (htied : m.tied (r pk.column) (r' pk.column) = true) : r = r' := by
  have hmem : pk ∈ model.fields ∧ pk.primaryKey = true := by
    have hin : pk ∈ model.fields.filter (·.primaryKey) := by
      rw [hpk]
      exact List.mem_cons_self
    exact List.mem_filter.mp hin
  have hsome : model.primaryKey.isSome := List.find?_isSome.mpr ⟨pk, hmem.1, hmem.2⟩
  have hkey : (db model.table).Pairwise fun r r' =>
      m.tied (r pk.column) (r' pk.column) = true → r = r' := by
    refine (hdb.unique hsome).imp fun {a b} hab ht => ?_
    obtain ⟨f, hf, hfpk, hne⟩ := hab
    have hin : f ∈ [pk] := by
      rw [← hpk]
      exact List.mem_filter.mpr ⟨hf, hfpk⟩
    rw [List.mem_singleton.mp hin, ht] at hne
    cases hne
  have hsymm : Std.Symm fun r r' : Row L => m.tied (r pk.column) (r' pk.column) = true → r = r' :=
    ⟨fun a b hab ht => (hab (Meaning.tied_symm ht)).symm⟩
  exact List.Pairwise.forall_of_forall (fun _ _ _ => rfl) hkey hr hr' htied

theorem Fits.key_ne_null {r : Row L} (hr : r ∈ db model.table) : r pk.column ≠ m.null := by
  have hin : pk ∈ model.fields.filter (·.primaryKey) := by
    rw [hpk]
    exact List.mem_cons_self
  obtain ⟨hmem, hkey⟩ := List.mem_filter.mp hin
  exact hdb.notNull r hr pk hmem hkey

private theorem holds_inSlice {inner : SelectQuery L} {sub : SelectQuery L → List L.Value} {rows : List (Row L)}
    (hrows : rows ⊆ db model.table) (hsub : sub inner = rows.map fun r => r pk.column) {r : Row L}
    (hr : r ∈ db model.table) :
    (WhereExpr.inSubquery pk.column false inner).holds m model.table sub (Env.base r) = some true ↔
      r ∈ rows := by
  change or3 ((sub inner).map fun v => m.compare .eq (r pk.column) v) = some true ↔ _
  rw [or3_eq_true, hsub, List.map_map]
  constructor
  · intro h
    obtain ⟨r', hr', heq⟩ := List.mem_map.mp h
    have htied := ((m.eq_true _ _).mp heq).2.2
    exact hdb.eq_of_tied hpk hr (hrows hr') htied ▸ hr'
  · intro h
    have hnull := hdb.key_ne_null hpk hr
    exact List.mem_map.mpr ⟨r, h, (m.eq_true _ _).mpr ⟨hnull, hnull, m.tied_refl _⟩⟩

end Keys

section Written
variable {m : Meaning L} {db : Database L} {core : Core L} {model : ModelSchema L}
variable {w : WhereExpr L Empty} {rows : List (Row L)}

theorem matches_lift : Matches m db model w.lift rows ↔
    w.reads m model.table = [] ∧ rows = acceptedRows m db model.table w := by
  have hrows : ∀ sub : SelectQuery L → List L.Value, (db model.table).filter (fun row =>
      w.lift.holds m model.table sub (Env.base row) = some true) = acceptedRows m db model.table w := by
    intro sub
    apply List.filter_congr
    intro r _
    simp [accepts_lift]
  rw [Matches, WhereExpr.reads_lift, WhereExpr.subqueries_lift]
  constructor
  · intro ⟨hreads, sub, _, h⟩
    exact ⟨hreads, h.trans (hrows sub)⟩
  · intro ⟨hreads, h⟩
    exact ⟨hreads, fun _ => [], by simp, h.trans (hrows _).symm⟩

variable {pk : FieldSchema} {order : List (OrderItem L)} {limit offset : Option Int}

variable (w pk order limit offset model) in
/-- The `WHERE` of a sliced write. -/
def slicedWhere : WhereExpr L (SelectQuery L) :=
  let bound := .inSubquery pk.column false (sliceQuery model w pk.column order limit offset)
  if w.isEmpty then bound else .and [w.lift, bound]

theorem SliceOrder.subset {draw : Env L → Nat} {k : List (Row L)}
    (h : SliceOrder m db model w pk.column order draw k) : slice limit offset k ⊆ db model.table := by
  intro r hr
  have hk := (window_sublist _ _ k).subset hr
  exact List.mem_of_mem_filter (h.1.mem_iff.mpr hk)

theorem SliceOrder.accepts {draw : Env L → Nat} {k : List (Row L)}
    (h : SliceOrder m db model w pk.column order draw k) {r : Row L} (hr : r ∈ slice limit offset k) :
    w.accepts m model.table (Env.base r) = true :=
  (List.mem_filter.mp (h.1.mem_iff.mpr ((window_sublist _ _ k).subset hr))).2

variable (hdb : Fits m core db model) (hpk : model.fields.filter (·.primaryKey) = [pk])
include hdb hpk

/-- A sliced write matches the rows of a slice of its filter. -/
theorem mem_of_matches (h : Matches m db model (slicedWhere model w pk order limit offset) rows) :
    w.reads m model.table = [] ∧
      (sliceQuery model w pk.column order limit offset).InScope m ∧ ∃ draw k,
        SliceOrder m db model w pk.column order draw k ∧ ∀ r, r ∈ rows ↔ r ∈ slice limit offset k := by
  obtain ⟨hreads, sub, hsub, hrows⟩ := h
  rw [slicedWhere, subqueries_bounded] at hsub
  obtain ⟨answer, hanswer, hkeys⟩ := hsub _ (List.mem_singleton.mpr rfl)
  obtain ⟨hscope, draw, k, hk, rfl⟩ := sliceQuery_answers.mp hanswer
  refine ⟨reads_bounded hreads, hscope, draw, k, hk, fun r => ?_⟩
  rw [List.map_map] at hkeys
  rw [hrows, List.mem_filter, decide_eq_true_eq, slicedWhere, holds_bounded]
  constructor
  · intro ⟨hr, _, hin⟩
    exact (holds_inSlice hdb hpk hk.subset hkeys hr).mp hin
  · intro hr
    have hmem := hk.subset hr
    exact ⟨hmem, hk.accepts hr, (holds_inSlice hdb hpk hk.subset hkeys hmem).mpr hr⟩

/-- Every slice of the filter is what the write may match. -/
theorem exists_matches (hreads : w.reads m model.table = [])
    (hscope : (sliceQuery model w pk.column order limit offset).InScope m) {draw : Env L → Nat}
    {k : List (Row L)} (hk : SliceOrder m db model w pk.column order draw k) :
    ∃ rows, Matches m db model (slicedWhere model w pk order limit offset) rows ∧
      ∀ r, r ∈ rows ↔ r ∈ slice limit offset k := by
  let sub : SelectQuery L → List L.Value := fun _ => (slice limit offset k).map fun r => r pk.column
  refine ⟨_, ⟨?_, sub, ?_, rfl⟩, fun r => ?_⟩
  · rw [slicedWhere]
    split
    · rfl
    · rw [WhereExpr.reads, WhereExpr.readsAll, WhereExpr.reads_lift, hreads]
      rfl
  · rw [slicedWhere, subqueries_bounded]
    intro q hq
    obtain rfl := List.mem_singleton.mp hq
    refine ⟨_, sliceQuery_answers.mpr ⟨hscope, draw, k, hk, rfl⟩, ?_⟩
    rw [List.map_map]
    rfl
  · rw [List.mem_filter, decide_eq_true_eq, slicedWhere, holds_bounded]
    constructor
    · intro ⟨hr, _, hin⟩
      exact (holds_inSlice hdb hpk hk.subset rfl hr).mp hin
    · intro hr
      have hmem := hk.subset hr
      exact ⟨hmem, hk.accepts hr, (holds_inSlice hdb hpk hk.subset rfl hmem).mpr hr⟩

end Written

end Rustango.Query
