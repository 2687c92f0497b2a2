import Rustango.Query.Compile

/-!
# Set operations

What `union`, `union_all`, `intersection` and `difference` return. The first set operation freezes
the order and slice of the head; the live ones act on the combined rows, whenever they were set.
-/

namespace Rustango.Query

open Rustango.Firsts Rustango.Outcome

variable {L : Lang}

namespace QuerySet

/-- A call that orders or slices. -/
inductive WindowCall (L : Lang) where
  | orderBy (items : List (String × Bool))
  | orderByExpr (expr : Expr L) (desc : Bool)
  | orderRandom
  | limit (n : Int)
  | offset (n : Int)
  | reverse

def WindowCall.run (x : QuerySet L) : WindowCall L → QuerySet L
  | .orderBy items => x.orderBy_ items
  | .orderByExpr expr desc => x.orderByExpr expr desc
  | .orderRandom => x.orderRandom
  | .limit n => x.limit_ n
  | .offset n => x.offset_ n
  | .reverse => x.reverse

/-- Calls chained one after another. -/
def chain (x : QuerySet L) (calls : List (WindowCall L)) : QuerySet L := calls.foldl WindowCall.run x

/-- The queryset without its live order and slice. -/
def settled (x : QuerySet L) : QuerySet L :=
  { x with
    orderBy := []
    reversed := false
    limit := none
    offset := none }

/-- What a set operation on the queryset combines: the queryset itself, or, once it combines rows
already, these without the live order and slice. -/
def leftOperand (x : QuerySet L) : QuerySet L := if x.compound.isEmpty then x else x.settled

/-- The order and slice that stay live after a set operation on the queryset. -/
def liveWindow (x : QuerySet L) : QuerySet L := if x.compound.isEmpty then x.settled else x

section Rows
variable (core : Core L) (m : Meaning L) (db : Database L)

/-- A fetch of the queryset may return these rows. -/
def Returns (x : QuerySet L) (rows : List (List (String × L.Value))) : Prop :=
  ∃ q, x.compile core = .ok q ∧ q.Answers m db rows

/-- The order and slice of the queryset may take the combined rows to these. -/
def ActsOn (x : QuerySet L) (combined rows : List (List (String × L.Value))) : Prop :=
  ∃ items joins, lowerOrderItems core x.model x.applyReverse.orderBy = .ok (items, joins) ∧
    Windowed m x.model.table items x.limit x.offset combined rows

end Rows

/-- A query whose combined rows are not ordered or sliced. -/
structure Unwindowed (q : SelectQuery L) : Prop where
  orderBy : q.compoundOrderBy = []
  limit : q.compoundLimit = none
  offset : q.compoundOffset = none

section Compile
variable {core : Core L} {x : QuerySet L} {items : List (OrderItem L)}

theorem prepared_pending : x.prepared.pending =
    if x.disableAllGlobalScopes then x.pending
    else (x.model.globalScopeExprs x.disabledGlobalScopes).map PendingFilter.expr ++ x.pending := by
  rw [prepared, applyReverse_pending]
  unfold applyGlobalScopes
  split <;> rfl

theorem prepared_orderBy : x.prepared.orderBy = x.applyReverse.orderBy := by
  unfold prepared applyGlobalScopes applyReverse
  split <;> split <;> rfl

theorem settled_pending : x.settled.prepared.pending = x.prepared.pending := by
  rw [prepared_pending, prepared_pending]
  rfl

theorem settled_orderBy : x.settled.prepared.orderBy = [] := by
  rw [prepared_orderBy]
  rfl

theorem lowerOrderItems_nil {model : ModelSchema L} :
    lowerOrderItems core model [] = .ok ([], []) := rfl

theorem compile_settled (hc : x.compound.isEmpty = false) (hn : x.isNone = false)
    (hitems : lowerOrderItems core x.model x.applyReverse.orderBy = .ok (items, [])) :
    x.compile core = (x.settled.compile core).map fun q => { q with
      compoundOrderBy := items
      compoundLimit := x.limit
      compoundOffset := x.offset } := by
  rw [← prepared_orderBy] at hitems
  rw [compile, compile, show x.applyGlobalScopes.applyReverse = x.prepared from rfl,
    show x.settled.applyGlobalScopes.applyReverse = x.settled.prepared from rfl, prepared_eq,
    prepared_eq x.settled, settled_pending, settled_orderBy]
  simp only [settled, hc, hn, hitems, lowerOrderItems_nil, Bool.not_false, if_true, Bool.false_eq_true,
    if_false]
  simp only [map_sequence]
  rfl

theorem applyReverse_eq : x.applyReverse = { x with
    orderBy := x.applyReverse.orderBy
    reversed := false } := by
  unfold applyReverse
  split
  · rfl
  · rename_i h
    rw [Bool.not_eq_true] at h
    rw [← h]

variable {op : SetOp} {branch : SelectQuery L}

theorem addCompoundCompiled_of_isEmpty (hc : x.compound.isEmpty = true) :
    x.addCompoundCompiled op branch = { x.settled with
      headOrderBy := x.applyReverse.orderBy
      headLimit := x.limit
      headOffset := x.offset
      compound := [⟨op, branch⟩] } := by
  have hnil := List.isEmpty_iff.mp hc
  unfold addCompoundCompiled
  rw [hc, if_pos rfl, applyReverse_eq]
  simp only [settled, hnil, List.nil_append]

theorem addCompoundCompiled_of_not_isEmpty (hc : x.compound.isEmpty = false) :
    x.addCompoundCompiled op branch = { x with compound := x.compound ++ [⟨op, branch⟩] } := by
  unfold addCompoundCompiled
  rw [hc, if_neg Bool.false_ne_true]

/-- A set operation appends its branch to what it combines. -/
theorem compile_addCompound (hn : x.isNone = false) :
    (x.addCompoundCompiled op branch).settled.compile core =
      (x.leftOperand.compile core).map fun q => { q with compound := q.compound ++ [⟨op, branch⟩] } := by
  have hpending : (x.addCompoundCompiled op branch).settled.prepared.pending = x.prepared.pending := by
    rw [settled_pending, prepared_pending, prepared_pending]
    cases hc : x.compound.isEmpty with
    | true =>
      rw [addCompoundCompiled_of_isEmpty hc]
      rfl
    | false => rw [addCompoundCompiled_of_not_isEmpty hc]
  rw [compile, compile,
    show (x.addCompoundCompiled op branch).settled.applyGlobalScopes.applyReverse =
      (x.addCompoundCompiled op branch).settled.prepared from rfl,
    show x.leftOperand.applyGlobalScopes.applyReverse = x.leftOperand.prepared from rfl,
    prepared_eq (x.addCompoundCompiled op branch).settled, hpending, settled_orderBy]
  cases hc : x.compound.isEmpty with
  | true =>
    have hnil := List.isEmpty_iff.mp hc
    rw [leftOperand, hc, if_pos rfl, prepared_eq x, addCompoundCompiled_of_isEmpty hc, ← prepared_orderBy]
    simp only [settled, hnil, hn, lowerOrderItems_nil, List.isEmpty_cons, List.isEmpty_nil, Bool.not_false,
      Bool.not_true, if_true, Bool.false_eq_true, if_false, map_sequence]
    rfl
  | false =>
    have happ : (x.compound ++ [(⟨op, branch⟩ : CompoundBranch L)]).isEmpty = false := by simp
    rw [leftOperand, hc, if_neg Bool.false_ne_true, prepared_eq x.settled, settled_pending, settled_orderBy,
      addCompoundCompiled_of_not_isEmpty hc]
    simp only [settled, hc, happ, hn, lowerOrderItems_nil, Bool.not_false, if_true, Bool.false_eq_true,
      if_false, map_sequence]
    rfl

variable {q : SelectQuery L}

theorem compile_head (h : x.compile core = .ok q) (hc : x.compound.isEmpty = true) :
    q.compound = [] ∧ q.limit = (if x.isNone then some 0 else x.limit) ∧ Unwindowed q := by
  have hq := compiled_of_compile h
  obtain ⟨_, _, _, _, _, _, joins, -, -, -, -, -, -, hcombined, -⟩ := hq.lowered
  rw [combinedItems, if_pos hc] at hcombined
  obtain ⟨horder, -⟩ := Prod.mk.inj (Except.ok.inj hcombined)
  refine ⟨hq.compound.trans (List.isEmpty_iff.mp hc), ?_, horder.symm, ?_, ?_⟩
  · rw [hq.limit, if_pos hc]
  · rw [hq.compoundLimit, if_pos hc]
  · rw [hq.compoundOffset, if_pos hc]

theorem compile_combined (h : x.compile core = .ok q) (hc : x.compound.isEmpty = false) :
    q.compound ≠ [] ∧ q.model = x.model ∧ q.compoundLimit = (if x.isNone then some 0 else x.limit) ∧
      q.compoundOffset = x.offset ∧
      ∃ joins, lowerOrderItems core x.model x.applyReverse.orderBy = .ok (q.compoundOrderBy, joins) := by
  have hq := compiled_of_compile h
  have hne : ¬ x.compound.isEmpty = true := by simp [hc]
  obtain ⟨_, _, _, _, _, _, joins, -, -, -, -, -, -, hcombined, -⟩ := hq.lowered
  rw [combinedItems, if_neg hne, prepared_orderBy] at hcombined
  refine ⟨hq.compound ▸ List.isEmpty_eq_false_iff.mp hc, hq.model, ?_, ?_, joins, hcombined⟩
  · rw [hq.compoundLimit, if_neg hne]
  · rw [hq.compoundOffset, if_neg hne]

/-- Bare columns need no join. -/
theorem lowerOrderItems_unqualified {m : Meaning L} {model : ModelSchema L}
    {pending : List (PendingOrderItem L)} {joins : List (Join L)}
    (h : lowerOrderItems core model pending = .ok (items, joins)) (hitems : ∀ i ∈ items, i.Unqualified m) :
    joins = [] := by
  obtain ⟨lowered, hlowered, h⟩ := bind_eq_ok.mp h
  obtain ⟨rfl, rfl⟩ := Prod.mk.inj (Except.ok.inj h)
  have hnone : ∀ lo ∈ lowered, lo.2 = [] := by
    intro lo hlo
    obtain ⟨item, -, hitem⟩ := exists_of_mapM hlowered hlo
    have hbare := hitems lo.1 (List.mem_map_of_mem hlo)
    cases item with
    | expr expr desc nulls =>
      rw [lowerOrderItem] at hitem
      exact Except.ok.inj hitem ▸ rfl
    | random =>
      rw [lowerOrderItem] at hitem
      exact Except.ok.inj hitem ▸ rfl
    | field name desc nulls =>
      rw [lowerOrderItem] at hitem
      split at hitem
      · exact Except.ok.inj hitem ▸ rfl
      · split at hitem
        · obtain ⟨⟨h, terminal⟩, -, hitem⟩ := bind_eq_ok.mp hitem
          simp only at hitem
          split at hitem
          · obtain ⟨field, -, hitem⟩ := bind_eq_ok.mp hitem
            rw [← Except.ok.inj hitem] at hbare
            exact hbare.elim
          · cases hitem
        · cases hitem
  rw [List.flatMap_eq_nil_iff.mpr hnone]
  rfl

end Compile

section Fold
variable {m : Meaning L} {db : Database L} {op : SetOp} {branch : SelectQuery L}

theorem folds_append {branches : List (CompoundBranch L)} {acc rows : List (List (String × L.Value))} :
    SelectQuery.Folds m db (branches ++ [⟨op, branch⟩]) acc rows ↔ ∃ a b,
      SelectQuery.Folds m db branches acc a ∧ branch.Answers m db b ∧ op.Combines m a b rows := by
  induction branches generalizing acc with
  | nil =>
    rw [List.nil_append, SelectQuery.Folds]
    constructor
    · intro ⟨b, combined, hb, hcombined, hrows⟩
      rw [SelectQuery.Folds] at hrows
      exact ⟨acc, b, by rw [SelectQuery.Folds], hb, hrows ▸ hcombined⟩
    · intro ⟨a, b, ha, hb, hcombined⟩
      rw [SelectQuery.Folds] at ha
      exact ⟨b, rows, hb, ha ▸ hcombined, by rw [SelectQuery.Folds]⟩
  | cons c branches ih =>
    obtain ⟨op', query⟩ := c
    rw [List.cons_append]
    simp only [SelectQuery.Folds, ih]
    constructor
    · intro ⟨b', combined, hb', hcombined, a, b, ha, hb, hrows⟩
      exact ⟨a, b, ⟨b', combined, hb', hcombined, ha⟩, hb, hrows⟩
    · intro ⟨a, b, ⟨b', combined, hb', hcombined, ha⟩, hb, hrows⟩
      exact ⟨b', combined, hb', hcombined, a, b, ha, hb, hrows⟩

/-- The rows of a set operation come in any order. -/
theorem combines_perm {a a' b rows rows' : List (List (String × L.Value))} (ha : a.Perm a')
    (hrows : rows.Perm rows') (h : op.Combines m a b rows) : op.Combines m a' b rows' := by
  have hapart : Apart (sameOutput m) rows → Apart (sameOutput m) rows' := fun h =>
    h.perm hrows fun {x y} hxy => by
      rw [Bool.eq_false_iff] at hxy ⊢
      exact fun hyx => hxy (sameOutput_symm hyx)
  have hpresent : ∀ r, present m rows r → present m rows' r := fun r ⟨r', hr', hsame⟩ =>
    ⟨r', hrows.mem_iff.mp hr', hsame⟩
  have hmem : ∀ r, r ∈ rows' ↔ r ∈ rows := fun r => hrows.mem_iff.symm
  have hamem : ∀ r, r ∈ a' ↔ r ∈ a := fun r => ha.mem_iff.symm
  cases op with
  | unionAll => exact ((ha.append_right b).symm.trans h).trans hrows
  | union =>
    obtain ⟨hsub, hap, hall⟩ := h
    refine ⟨fun r hr => ?_, hapart hap, fun r hr => hpresent r (hall r ?_)⟩
    · exact (ha.append_right b).mem_iff.mp (hsub ((hmem r).mp hr))
    · exact (ha.append_right b).mem_iff.mpr hr
  | intersection =>
    obtain ⟨hsub, hap, hall⟩ := h
    refine ⟨fun r hr => ?_, hapart hap, fun r hr hb => hpresent r (hall r ((hamem r).mp hr) hb)⟩
    obtain ⟨hra, hrb⟩ := hsub r ((hmem r).mp hr)
    exact ⟨(hamem r).mpr hra, hrb⟩
  | difference =>
    obtain ⟨hsub, hap, hall⟩ := h
    refine ⟨fun r hr => ?_, hapart hap, fun r hr hb => hpresent r (hall r ((hamem r).mp hr) hb)⟩
    obtain ⟨hra, hrb⟩ := hsub r ((hmem r).mp hr)
    exact ⟨(hamem r).mpr hra, hrb⟩

theorem windowed_nil {table : String} {combined rows : List (List (String × L.Value))} :
    Windowed m table [] none none combined rows ↔ combined.Perm rows := by
  constructor
  · intro ⟨_, draw, l, hperm, _, hrows⟩
    rw [hrows]
    exact hperm
  · intro hperm
    exact ⟨by simp, fun _ => 0, rows, hperm, List.pairwise_of_forall fun _ _ => trivial, rfl⟩

theorem windowed_perm {table : String} {items : List (OrderItem L)} {limit offset : Option Int}
    {combined combined' rows : List (List (String × L.Value))} (hperm : combined.Perm combined')
    (h : Windowed m table items limit offset combined' rows) :
    Windowed m table items limit offset combined rows := by
  obtain ⟨hitems, draw, l, hl, hsorted, hrows⟩ := h
  exact ⟨hitems, draw, l, hperm.trans hl, hsorted, hrows⟩

variable {q : SelectQuery L} (hq : Unwindowed q)
include hq

/-- The last clauses act on what the query returns without them. -/
theorem answers_windowed (hc : q.compound ≠ []) {items : List (OrderItem L)} {limit offset : Option Int}
    {rows : List (List (String × L.Value))} :
    ({ q with
        compoundOrderBy := items
        compoundLimit := limit
        compoundOffset := offset } : SelectQuery L).Answers m db rows ↔
      ∃ combined, q.Answers m db combined ∧
        Windowed m q.model.table items limit offset combined rows := by
  let whole : SelectQuery L := { q with
    compoundOrderBy := items
    compoundLimit := limit
    compoundOffset := offset }
  have hwhole : whole.compound ≠ [] := hc
  rw [SelectQuery.answers_compound_iff hwhole]
  simp only [SelectQuery.answers_compound_iff hc, hq.orderBy, hq.limit, hq.offset, windowed_nil]
  constructor
  · intro ⟨envs, hselects, combined, hfolds, hwindowed⟩
    exact ⟨combined, ⟨envs, hselects, combined, hfolds, List.Perm.refl _⟩, hwindowed⟩
  · intro ⟨combined, ⟨envs, hselects, combined', hfolds, hperm⟩, hwindowed⟩
    exact ⟨envs, hselects, combined', hfolds, windowed_perm hperm hwindowed⟩

/-- One more branch acts on what the query returns without it. -/
theorem answers_append {rows : List (List (String × L.Value))} :
    ({ q with compound := q.compound ++ [⟨op, branch⟩] } : SelectQuery L).Answers m db rows ↔
      ∃ a b, q.Answers m db a ∧ branch.Answers m db b ∧ op.Combines m a b rows := by
  let whole : SelectQuery L := { q with compound := q.compound ++ [⟨op, branch⟩] }
  have hwhole : whole.compound ≠ [] := by simp [whole]
  rw [SelectQuery.answers_compound_iff hwhole]
  simp only [whole, hq.orderBy, hq.limit, hq.offset, windowed_nil, folds_append]
  by_cases hc : q.compound = []
  · simp only [SelectQuery.answers_iff hc, hc, SelectQuery.Folds]
    constructor
    · intro ⟨envs, hselects, combined, ⟨a, b, ha, hb, hcombined⟩, hperm⟩
      exact ⟨a, b, ⟨envs, hselects, ha⟩, hb, combines_perm (List.Perm.refl a) hperm hcombined⟩
    · intro ⟨a, b, ⟨envs, hselects, ha⟩, hb, hcombined⟩
      exact ⟨envs, hselects, rows, ⟨a, b, ha, hb, hcombined⟩, List.Perm.refl _⟩
  · simp only [SelectQuery.answers_compound_iff hc, hq.orderBy, hq.limit, hq.offset, windowed_nil]
    constructor
    · intro ⟨envs, hselects, combined, ⟨a, b, ha, hb, hcombined⟩, hperm⟩
      exact ⟨a, b, ⟨envs, hselects, a, ha, List.Perm.refl a⟩, hb,
        combines_perm (List.Perm.refl a) hperm hcombined⟩
    · intro ⟨a, b, ⟨envs, hselects, a', ha, hperm⟩, hb, hcombined⟩
      exact ⟨envs, hselects, rows, ⟨a', b, ha, hb, combines_perm hperm.symm (List.Perm.refl _) hcombined⟩,
        List.Perm.refl _⟩

end Fold

section Returned
variable {core : Core L} {m : Meaning L} {db : Database L} {x : QuerySet L} {q : SelectQuery L}
variable {rows : List (List (String × L.Value))}

theorem returns_none (hn : x.isNone = true) (h : x.Returns core m db rows) : rows = [] := by
  obtain ⟨q, hq, hanswers⟩ := h
  cases hc : x.compound.isEmpty with
  | true =>
    obtain ⟨hnil, hlimit, -⟩ := compile_head hq hc
    obtain ⟨envs, ⟨-, draw, l, -, -, henvs⟩, hrows⟩ := (SelectQuery.answers_iff hnil).mp hanswers
    rw [hlimit, hn, if_pos rfl, slice] at henvs
    rw [hrows, henvs]
    exact congrArg _ (window_some_zero _ _)
  | false =>
    obtain ⟨hne, -, hlimit, -⟩ := compile_combined hq hc
    obtain ⟨envs, -, combined, -, -, draw, l, -, -, hrows⟩ :=
      (SelectQuery.answers_compound_iff hne).mp hanswers
    rw [hlimit, hn, if_pos rfl, slice] at hrows
    rw [hrows]
    exact window_some_zero _ _

theorem unwindowed_of_settled (hn : x.isNone = false) (h : x.settled.compile core = .ok q) :
    Unwindowed q := by
  cases hc : x.compound.isEmpty with
  | true => exact (compile_head h hc).2.2
  | false =>
    obtain ⟨-, -, hlimit, hoffset, joins, horder⟩ := compile_combined h hc
    refine ⟨?_, hlimit.trans (if_neg (by simp [settled, hn])), hoffset⟩
    exact (Prod.mk.inj (Except.ok.inj horder)).1.symm

theorem unwindowed_of_leftOperand (hn : x.isNone = false) (h : x.leftOperand.compile core = .ok q) :
    Unwindowed q := by
  cases hc : x.compound.isEmpty with
  | true =>
    rw [leftOperand, hc, if_pos rfl] at h
    exact (compile_head h hc).2.2
  | false =>
    rw [leftOperand, hc, if_neg Bool.false_ne_true] at h
    exact unwindowed_of_settled hn h

/-- The live order and slice act on the combined rows. -/
theorem returns_windowed (hc : x.compound.isEmpty = false) (hn : x.isNone = false) :
    x.Returns core m db rows ↔
      ∃ combined, x.settled.Returns core m db combined ∧ x.ActsOn core m combined rows := by
  constructor
  · intro ⟨q, hq, hanswers⟩
    obtain ⟨hne, hmodel, -, -, joins, horder⟩ := compile_combined hq hc
    obtain ⟨_, -, _, -, hwindowed⟩ := (SelectQuery.answers_compound_iff hne).mp hanswers
    obtain rfl := lowerOrderItems_unqualified horder hwindowed.1
    generalize q.compoundOrderBy = items at horder
    rw [compile_settled hc hn horder] at hq
    obtain ⟨q', hq', rfl⟩ := map_eq_ok.mp hq
    obtain ⟨combined, hanswers', hwindowed'⟩ :=
      (answers_windowed (unwindowed_of_settled hn hq') hne).mp hanswers
    refine ⟨combined, ⟨q', hq', hanswers'⟩, _, _, horder, ?_⟩
    rw [← hmodel]
    exact hwindowed'
  · intro ⟨combined, ⟨q', hq', hanswers'⟩, items, joins, horder, hwindowed⟩
    obtain rfl := lowerOrderItems_unqualified horder hwindowed.1
    obtain ⟨hne, hmodel, -⟩ := compile_combined hq' hc
    refine ⟨_, by rw [compile_settled hc hn horder, hq']; rfl, ?_⟩
    refine (answers_windowed (unwindowed_of_settled hn hq') hne).mpr ⟨combined, hanswers', ?_⟩
    rw [hmodel]
    exact hwindowed

theorem returns_addCompound {op : SetOp} {branch : SelectQuery L} (hn : x.isNone = false) :
    (x.addCompoundCompiled op branch).settled.Returns core m db rows ↔ ∃ a b,
      x.leftOperand.Returns core m db a ∧ branch.Answers m db b ∧ op.Combines m a b rows := by
  constructor
  · intro ⟨q, hq, hanswers⟩
    rw [compile_addCompound hn] at hq
    obtain ⟨q', hq', rfl⟩ := map_eq_ok.mp hq
    obtain ⟨a, b, ha, hb, hcombines⟩ := (answers_append (unwindowed_of_leftOperand hn hq')).mp hanswers
    exact ⟨a, b, ⟨q', hq', ha⟩, hb, hcombines⟩
  · intro ⟨a, b, ⟨q', hq', ha⟩, hb, hcombines⟩
    refine ⟨_, by rw [compile_addCompound hn, hq']; rfl, ?_⟩
    exact (answers_append (unwindowed_of_leftOperand hn hq')).mpr ⟨a, b, ha, hb, hcombines⟩

end Returned

section Calls
variable {core : Core L} {m : Meaning L} {x y : QuerySet L}

/-- The two querysets order and slice alike. -/
structure SameWindow (x y : QuerySet L) : Prop where
  model : x.model = y.model
  distinct : x.distinct = y.distinct
  orderBy : x.orderBy = y.orderBy
  reversed : x.reversed = y.reversed
  limit : x.limit = y.limit
  offset : x.offset = y.offset

theorem SameWindow.run (h : SameWindow x y) (c : WindowCall L) :
    SameWindow (WindowCall.run x c) (WindowCall.run y c) := by
  obtain ⟨hmodel, hdistinct, horder, hreversed, hlimit, hoffset⟩ := h
  cases c <;> constructor <;>
    simp [WindowCall.run, orderBy_, QuerySet.orderByExpr, QuerySet.orderRandom, limit_, offset_,
      QuerySet.reverse, *]

theorem SameWindow.chain (h : SameWindow x y) (calls : List (WindowCall L)) :
    SameWindow (x.chain calls) (y.chain calls) := by
  induction calls generalizing x y with
  | nil => exact h
  | cons c calls ih => exact ih (h.run c)

theorem SameWindow.actsOn (h : SameWindow x y) (combined rows : List (List (String × L.Value))) :
    x.ActsOn core m combined rows ↔ y.ActsOn core m combined rows := by
  have horder : x.applyReverse.orderBy = y.applyReverse.orderBy := by
    unfold applyReverse
    rw [h.reversed]
    split
    · simp only [flipOrderBy, h.distinct, h.orderBy]
    · exact h.orderBy
  rw [ActsOn, ActsOn, h.model, horder, h.limit, h.offset]

theorem sameWindow_addCompound {op : SetOp} {branch : SelectQuery L} :
    SameWindow (x.addCompoundCompiled op branch) x.liveWindow := by
  cases hc : x.compound.isEmpty with
  | true =>
    rw [addCompoundCompiled_of_isEmpty hc, liveWindow, hc, if_pos rfl]
    exact ⟨rfl, rfl, rfl, rfl, rfl, rfl⟩
  | false =>
    rw [addCompoundCompiled_of_not_isEmpty hc, liveWindow, hc, if_neg Bool.false_ne_true]
    exact ⟨rfl, rfl, rfl, rfl, rfl, rfl⟩

theorem chain_frame (calls : List (WindowCall L)) : (x.chain calls).settled = x.settled := by
  induction calls generalizing x with
  | nil => rfl
  | cons c calls ih =>
    refine (ih (x := WindowCall.run x c)).trans ?_
    cases c <;> rfl

theorem chain_isNone (calls : List (WindowCall L)) : (x.chain calls).isNone = x.isNone :=
  show (x.chain calls).settled.isNone = x.settled.isNone by rw [chain_frame]

theorem chain_compound (calls : List (WindowCall L)) : (x.chain calls).compound = x.compound :=
  show (x.chain calls).settled.compound = x.settled.compound by rw [chain_frame]

end Calls

section Books

/-- A table with one book. -/
private def oneBook : Database IntLang := fun _ => [bookRow 1 7]

private def oneBookRow : List (String × Option Int) := [("id", some 1), ("author", some 7)]

theorem allBooks_return : (new book).Returns bookCore intMeaning oneBook [oneBookRow] := by
  refine ⟨SelectQuery.new book, rfl, (SelectQuery.answers_iff rfl).mpr ⟨[Env.base (bookRow 1 7)], ?_, ?_⟩⟩
  · exact ⟨⟨List.nodup_singleton _, List.nil_subset _, by simp [SelectQuery.new]⟩, fun _ => 0,
      [Env.base (bookRow 1 7)], List.Perm.refl _, List.pairwise_singleton _ _, rfl⟩
  · decide

theorem noBooks_return : (new book).none_.Returns bookCore intMeaning oneBook [] := by
  refine ⟨{ SelectQuery.new book with limit := some 0 }, rfl, (SelectQuery.answers_iff rfl).mpr ⟨[], ?_, rfl⟩⟩
  exact ⟨⟨List.nodup_singleton _, List.nil_subset _, by simp [SelectQuery.new]⟩, fun _ => 0,
    [Env.base (bookRow 1 7)], List.Perm.refl _, List.pairwise_singleton _ _, rfl⟩

/-- All books, and all books once more. -/
private def booksTwice : QuerySet IntLang := (new book).addCompoundCompiled .unionAll (SelectQuery.new book)

theorem firstOfTwice_returns : (booksTwice.limit_ 1).Returns bookCore intMeaning oneBook [oneBookRow] := by
  have hboth : (booksTwice.limit_ 1).settled.Returns bookCore intMeaning oneBook
      [oneBookRow, oneBookRow] := by
    obtain ⟨q, hq, hanswers⟩ := allBooks_return
    obtain rfl := Except.ok.inj hq
    exact (returns_addCompound rfl).mpr ⟨_, _, allBooks_return, hanswers, List.Perm.refl _⟩
  refine (returns_windowed rfl rfl).mpr ⟨_, hboth, [], [], rfl, by simp, fun _ => 0,
    [oneBookRow, oneBookRow], List.Perm.refl _, List.pairwise_of_forall fun _ _ => trivial, rfl⟩

theorem allBooks_addCompound (a : QuerySet IntLang) : a.addCompound bookCore .unionAll (new book) =
    some (a.addCompoundCompiled .unionAll (SelectQuery.new book)) := rfl

end Books

end QuerySet

end Rustango.Query
