import Rustango.Writer.Flows

/-!
# A nested query takes what its tree takes

One SELECT body, the set operations over such bodies and the grouped aggregates, and then every
expression and query by induction over the trees.
-/

namespace Rustango.Writer

open Rustango.Query (Dialect DistinctMode LockMode)
open Act

variable {L : Lang} {layout : Layout L}

private theorem writeSources_nests {d : SelectDraft L} (h : d.Flows layout) :
    Nests (d.writeSources layout.search) fun dialect k =>
      Join.takesAny layout dialect k d.query.joins
        || SubqueryJoin.takesAny layout dialect k d.query.subqueryJoins
        || d.query.whereClause.takes layout dialect k := by
  intro e
  have hjoins := writeModelJoins_nests h.joins e
  have hsubqueries := writeSubqueryJoins_nests h.subqueryJoins e
  have hwhere := writeWhereWithSearch_nests layout.search h.whereClause d.query.search
    (some d.query.model) e
  rw [h.joins_eq] at hjoins
  rw [h.subqueryJoins_eq] at hsubqueries
  apply (Flow.cons_emit _ (hjoins.cons (hsubqueries.cons hwhere.one))).congr
  intro k
  exact (Bool.or_assoc _ _ _).symm

private theorem mem_positioned {keep : OrderItem L → Bool} {orderBy : List (OrderDraft L)}
    {o : OrderDraft L × Nat} (h : o ∈ positioned keep orderBy) : o.1 ∈ orderBy := by
  have hmem := (List.mem_filter.mp h).1
  exact List.fst_mem_of_mem_zipIdx hmem

private theorem helpers_nest {d : SelectDraft L} (h : d.Flows layout) (keep : OrderItem L → Bool) :
    Nests (further ((positioned keep d.orderBy).map fun o => writeHelper o.2 o.1))
      fun dialect k => (positioned keep d.orderBy).any fun o => o.1.item.takes layout dialect k := by
  intro e
  apply Flow.further
  intro o ho
  have htarget := h.orderBy o.1 (mem_positioned ho) e
  exact (htarget.cons (Flow.emit _).one).congr fun k => Bool.or_false _

private theorem any_positioned {keep : OrderItem L → Bool} {p : OrderItem L → Bool}
    (orderBy : List (OrderDraft L)) :
    ((positioned keep orderBy).any fun o => p o.1.item)
      = (orderBy.map OrderDraft.item).any fun item => keep item && p item := by
  unfold positioned
  rw [List.any_filter, List.any_map]
  have hfst : (orderBy.zipIdx.map Prod.fst) = orderBy := List.zipIdx_map_fst 0 orderBy
  conv_rhs => rw [← hfst, List.any_map]
  rfl

section Body
variable {d : SelectDraft L} {e : Env L}

private theorem lock_flow {least : Nat} (lock : Option LockMode) :
    Flow e least (match lock with
      | some lock => writeLockClause lock
      | none => seq []) quiet := by
  cases lock with
  | none => exact Flow.done
  | some lock => exact Flow.emit _

private theorem order_nests (h : d.Flows layout) (adds drops : Bool) (limit offset : Option Int) :
    ∃ t, Flow e (e.depth + 1)
      (if adds then
        writeOrderLimitOffsetWith (d.orderBy.zipIdx.map fun o => (o.1.item,
          if o.1.item.isHelper then writeIdent (orderLabel o.2) else o.1.target)) limit offset
      else writeOrderLimitOffset (if drops then [] else d.orderBy) limit offset) t := by
  split_ifs
  · refine ⟨_, writeOrderLimitOffsetWith_flow (t := fun o k => !o.1.item.isHelper
      && o.1.item.takes layout e.dialect k) (fun o ho => ?_) limit offset⟩
    split_ifs with hhelper
    · exact (Flow.emit _).congr fun k => by rw [hhelper]; rfl
    · have hmem : o.1 ∈ d.orderBy := List.fst_mem_of_mem_zipIdx ho
      rw [Bool.not_eq_true] at hhelper
      exact (h.orderBy o.1 hmem e).congr fun k => by rw [hhelper]; rfl
  · have hnone : ∀ o ∈ ([] : List (OrderDraft L)), o.Flows layout :=
      fun o ho => absurd ho List.not_mem_nil
    exact ⟨_, writeOrderLimitOffset_nests hnone limit offset e⟩
  · exact ⟨_, writeOrderLimitOffset_nests h.orderBy limit offset e⟩

theorem writeRest_flow (h : d.Flows layout) (lock : Option LockMode) (adds drops : Bool) :
    ∃ t, Flow e (e.depth + 1) (d.writeRest layout.search lock adds drops) t := by
  obtain ⟨t, horder⟩ := order_nests (e := e) h adds drops d.query.limit d.query.offset
  exact ⟨_, (writeSources_nests h e).cons (horder.cons (lock_flow lock).one)⟩

/-- The ORDER BY expressions are all that a DISTINCT adds to the select list and that can take a
slot. -/
theorem adds_nests (h : d.Flows layout) (projection : Option (List String)) :
    Flow e (e.depth + 1) (cond (true && d.needsHelpers projection) (further ((d.helpers
      projection).map fun o => writeHelper o.2 o.1))) fun k =>
        d.query.distinct.isSome && OrderItem.takesAny layout e.dialect k d.query.orderBy := by
  apply (helpers_nest h (OrderItem.needsHelper d.query.joins projection) e).cond.congr
  intro k
  have htaken : ((d.helpers projection).any fun o => o.1.item.takes layout e.dialect k)
      = OrderItem.takesAny layout e.dialect k d.query.orderBy := by
    unfold SelectDraft.helpers
    rw [any_positioned, h.orderBy_eq, takesAny_orderBy]
    congr 1
    funext item
    cases item with
    | column column desc nulls => exact Bool.and_false _
    | random => rfl
    | expr expr desc nulls =>
      cases expr with
      | column column => exact Bool.and_false _
      | aliasedColumn alias_ column => exact Bool.and_false _
      | _ => rfl
  unfold SelectDraft.needsHelpers
  change ((true && (d.query.distinct.isSome && !(d.helpers projection).isEmpty))
    && (d.helpers projection).any fun o => o.1.item.takes layout e.dialect k) = _
  rw [htaken]
  cases hnone : (d.helpers projection).isEmpty with
  | false => simp
  | true =>
    rw [List.isEmpty_iff.mp hnone] at htaken
    rw [← htaken]
    simp

private theorem writePlainBody_flow (h : d.Flows layout) (projection : Option (List String))
    (lock : Option LockMode) (orderHelpers label : Bool) :
    Flow e e.depth (d.writePlainBody layout.search projection lock orderHelpers label)
      fun _ => true := by
  apply Flow.reading
  have hdeep : e.depth ≤ e.depth + 1 := Nat.le_succ _
  have hhelpers := (helpers_nest h (OrderItem.needsHelper d.query.joins projection) e).cond
    (c := orderHelpers && d.needsHelpers projection)
  obtain ⟨t, hrest⟩ := writeRest_flow (e := e) h lock (orderHelpers && d.needsHelpers projection)
    (d.needsHelpers projection && !orderHelpers && d.query.limit.isNone && d.query.offset.isNone)
  have hslots := (Flow.takeTotal (le_refl e.depth)).cons
    ((Flow.takeChildCount (e.scopeOr d.query.model).name (le_refl e.depth)).cons
      (Flow.cons_text " FROM " (hrest.weaken hdeep).one))
  apply (Flow.cons_emit _ ((hhelpers.weaken hdeep).cons hslots)).congr
  intro k
  cases k <;> simp

theorem writeRanked_nests (h : d.Flows layout) (projection : Option (List String))
    (cols : List String) :
    Nests (d.writeRanked layout.search projection cols) fun dialect k =>
      OrderItem.takesAny layout dialect k d.query.orderBy
        || Join.takesAny layout dialect k d.query.joins
        || SubqueryJoin.takesAny layout dialect k d.query.subqueryJoins
        || d.query.whereClause.takes layout dialect k := by
  intro e
  apply Flow.reading
  have hhelpers := helpers_nest h (fun item => !item.isRandom) e
  have hrank : ∀ target : OrderDraft L → Act L, (∀ o ∈ d.orderBy, Flow e (e.depth + 1) (target o)
      fun k => o.item.takes layout e.dialect k) →
      Flow e (e.depth + 1) (writeOrderLimitOffsetWith (d.orderBy.map fun o => (o.item, target o)) none none)
        fun k => d.orderBy.any fun o => o.item.takes layout e.dialect k := by
    intro target htarget
    apply writeOrderLimitOffsetWith_flow
    exact htarget
  have hsurvivors : Flow e (e.depth + 1) (under (fun e => e.withQualifier none)
      (writeOrderLimitOffsetWith (d.orderBy.zipIdx.map fun o => (o.1.item,
        if o.1.item.isRandom then o.1.target else writeIdent (orderLabel o.2)))
        d.query.limit d.query.offset)) quiet := by
    apply Flow.under
    apply (writeOrderLimitOffsetWith_flow (t := fun _ => quiet) (fun o ho => ?_) _ _).congr
    · intro k
      simp [quiet]
    · have hmem : o.1 ∈ d.orderBy := List.fst_mem_of_mem_zipIdx ho
      split_ifs with hrandom
      · apply (h.orderBy o.1 hmem _).congr
        intro k
        cases hitem : o.1.item with
        | random => rfl
        | column column desc nulls =>
          rw [hitem] at hrandom
          cases hrandom
        | expr expr desc nulls =>
          rw [hitem] at hrandom
          cases hrandom
      · exact Flow.emit _
  have htail := Flow.cons_text ") AS __rn FROM " ((writeSources_nests h e).cons
    (Flow.cons_text ") sub WHERE sub.__rn = 1" hsurvivors.one))
  refine (Flow.cons_emit _ (hhelpers.cons (Flow.cons_emit _ ((hrank _ ?_).cons htail)))).congr ?_
  · intro o ho
    have hterm := h.orderBy o ho e
    cases hitem : o.item with
    | column column desc nulls => exact Flow.emit _
    | expr expr desc nulls =>
      rw [hitem] at hterm
      exact hterm
    | random =>
      rw [hitem] at hterm
      exact hterm
  intro k
  have hterms : ((positioned (fun item => !item.isRandom) d.orderBy).any
      fun o => o.1.item.takes layout e.dialect k)
      = OrderItem.takesAny layout e.dialect k d.query.orderBy := by
    rw [any_positioned, h.orderBy_eq, takesAny_orderBy]
    congr 1
    funext item
    cases item <;> rfl
  have hranked : (d.orderBy.any fun o => o.item.takes layout e.dialect k)
      = OrderItem.takesAny layout e.dialect k d.query.orderBy := by
    rw [takesAny_orderBy, ← h.orderBy_eq, List.any_map]
    rfl
  dsimp only
  rw [hterms, hranked]
  cases OrderItem.takesAny layout e.dialect k d.query.orderBy <;> simp [quiet]

private theorem writeDistinctOnViaWindow_flow (h : d.Flows layout) (projection : Option (List String))
    (cols : List String) :
    Flow e e.depth (d.writeDistinctOnViaWindow layout.search projection cols) fun k =>
      decide (k = .childCount) || OrderItem.takesAny layout e.dialect k d.query.orderBy
        || Join.takesAny layout e.dialect k d.query.joins
        || SubqueryJoin.takesAny layout e.dialect k d.query.subqueryJoins
        || d.query.whereClause.takes layout e.dialect k := by
  have hranked := (writeRanked_nests h projection cols e).weaken (Nat.le_succ e.depth)
  apply (Flow.cons_emit _ ((Flow.takeChildCount "sub" (le_refl e.depth)).cons
    (Flow.cons_text " FROM " hranked.one))).congr
  intro k
  simp only [Bool.or_assoc]

/-- What the body of a SELECT takes, without its branches. -/
def SelectQuery.bodyTakes (layout : Layout L) (dialect : Dialect) (k : Slot) (q : SelectQuery L) :
    Bool :=
  !windowed q.distinct dialect || k = .childCount || OrderItem.takesAny layout dialect k q.orderBy
    || Join.takesAny layout dialect k q.joins
    || SubqueryJoin.takesAny layout dialect k q.subqueryJoins
    || q.whereClause.takes layout dialect k

private theorem writeBodyQualified_flow (h : d.Flows layout) (projection : Option (List String))
    (lock : Option LockMode) (orderHelpers : Bool) :
    Flow e e.depth (d.writeBodyQualified layout.search projection lock orderHelpers)
      fun k => d.query.bodyTakes layout e.dialect k := by
  apply Flow.takeLabel
  intro label
  apply Flow.reading
  split
  · next cols hdistinct hdialect =>
    apply (writeDistinctOnViaWindow_flow h projection cols).congr
    intro k
    rw [SelectQuery.bodyTakes, hdistinct, hdialect]
    simp [windowed]
  · next cols hdistinct hdialect =>
    apply (writeDistinctOnViaWindow_flow h projection cols).congr
    intro k
    rw [SelectQuery.bodyTakes, hdistinct, hdialect]
    simp [windowed]
  · next hmysql hsqlite =>
    apply (writePlainBody_flow h projection lock orderHelpers _).congr
    intro k
    have hnative : windowed d.query.distinct e.dialect = false := by
      unfold windowed
      split
      · next cols hdistinct hdialect => exact absurd hdialect (hmysql cols hdistinct)
      · next cols hdistinct hdialect => exact absurd hdialect (hsqlite cols hdistinct)
      · rfl
    rw [SelectQuery.bodyTakes, hnative]
    simp

private theorem writeInner_flow (h : d.Flows layout) (projection : Option (List String))
    (lock : Option LockMode) (orderHelpers : Bool) :
    Flow e e.depth (d.writeInner layout.search projection lock orderHelpers)
      fun k => d.query.bodyTakes layout e.dialect k :=
  Flow.under (writeBodyQualified_flow h projection lock orderHelpers)

end Body

theorem SelectQuery.takes_eq (q : SelectQuery L) (dialect : Dialect) (k : Slot) :
    q.takes layout dialect k = (q.bodyTakes layout dialect k
      || CompoundBranch.takesAny layout dialect k q.compound
      || (!q.compound.isEmpty && OrderItem.takesAny layout dialect k q.compoundOrderBy)) := by
  cases q
  rfl

section Compound
variable {d : SelectDraft L} {e : Env L}

private theorem wrapped_flow {least : Nat} {a : Act L} {t : Slot → Bool} (h : Flow e least a t)
    (label : String) : Flow e least (wrapped label a) t := by
  apply Flow.cons_text
  exact (h.cons (Flow.emit _).one).congr fun k => Bool.or_false _

private theorem branch_flow {b : BranchDraft L} (h : b.Flows layout) (extra : List String) (i : Nat)
    (wrap : Bool) :
    Flow e e.depth (b.act extra i wrap) fun k => b.branch.takes layout e.dialect k := by
  have hwrite : Flow (e.branch b.branch.query.model) e.depth (b.write extra)
      fun k => b.branch.takes layout e.dialect k := by
    apply ((h extra (e.branch b.branch.query.model)).weaken (depth_branch e _)).congr
    intro k
    rw [CompoundBranch.takes_eq]
    rfl
  have hwrap : Flow e e.depth (cond wrap (emit fun _ =>
      [.text ") AS ", .ident ("__rustango_l" ++ toString i)])) quiet :=
    (Flow.emit _).cond.congr fun k => Bool.and_false _
  have hquery : Flow e e.depth (under (fun e => e.branch b.branch.query.model)
      (if b.branch.query.isScoped || !b.branch.query.compound.isEmpty then
        wrapped ("__rustango_b" ++ toString (i + 1)) (b.write extra)
      else b.write extra)) fun k => b.branch.takes layout e.dialect k := by
    apply Flow.under
    split_ifs
    · exact wrapped_flow hwrite _
    · exact hwrite
  apply (hwrap.cons (Flow.cons_emit _ hquery.one)).congr
  intro k
  exact Bool.false_or _

private theorem zipIdx_any {α β : Type} (xs : List α) (ys : List β) (hlen : xs.length = ys.length)
    (p : α → Bool) : ((xs.zip ys).zipIdx.any fun x => p x.1.1) = xs.any p := by
  have hzip : (((xs.zip ys).zipIdx.map Prod.fst).map Prod.fst) = xs := by
    rw [List.zipIdx_map_fst, List.map_fst_zip (le_of_eq hlen)]
  conv_rhs => rw [← hzip, List.any_map, List.any_map]
  rfl

private theorem length_wraps (mixed : Bool) (ops : List Query.SetOp) :
    (wraps mixed ops).length = ops.length := by
  induction ops generalizing mixed with
  | nil => rfl
  | cons op ops ih => simp [wraps, ih]

private theorem writeMerged_flow (h : d.Flows layout) (extra : List String)
    {order : List (OrderDraft L)} (horder : ∀ o ∈ order, o.Flows layout)
    (limit offset : Option Int) (lock : Option LockMode) :
    Flow e e.depth (d.writeMerged layout.search extra order limit offset lock) fun k =>
      d.query.bodyTakes layout e.dialect k
        || CompoundBranch.takesAny layout e.dialect k d.query.compound
        || OrderItem.takesAny layout e.dialect k (order.map OrderDraft.item) := by
  have hdeep : e.depth ≤ e.depth + 1 := Nat.le_succ _
  unfold SelectDraft.writeMerged
  have hopen : Flow e e.depth (seq (((wraps false (d.compound.map fun b => b.branch.op)).filter id).map
      fun _ => text "SELECT * FROM (")) quiet := by
    apply (Flow.map (t := fun _ => quiet) fun _ _ => Flow.emit _).congr
    intro k
    simp [quiet]
  have hhead : Flow e e.depth (if d.query.isScoped then
        wrapped "__rustango_b0" (d.writeInner layout.search (d.projection extra) none false)
      else d.writeInner layout.search (d.projection extra) none false)
      fun k => d.query.bodyTakes layout e.dialect k := by
    have hinner := writeInner_flow (e := e) h (d.projection extra) none false
    split_ifs
    · exact wrapped_flow hinner _
    · exact hinner
  have hbranches : Flow e e.depth (seq ((d.compound.zip (wraps false
      (d.compound.map fun b => b.branch.op))).zipIdx.map fun b => b.1.1.act extra b.2 b.1.2))
      fun k => CompoundBranch.takesAny layout e.dialect k d.query.compound := by
    apply (Flow.map (t := fun b k => b.1.1.branch.takes layout e.dialect k) ?_).congr
    · intro k
      rw [zipIdx_any d.compound _ (by rw [length_wraps, List.length_map]) fun b =>
        b.branch.takes layout e.dialect k, takesAny_branches, ← h.compound_eq, List.any_map]
      rfl
    · intro b hb
      have hmem : b.1.1 ∈ d.compound := (List.of_mem_zip (List.fst_mem_of_mem_zipIdx hb)).1
      exact branch_flow (h.compound b.1.1 hmem) extra b.2 b.1.2
  have hmerged := (writeOrderLimitOffset_nests horder limit offset e).weaken hdeep
  apply (hopen.cons (Flow.setLabel.cons (hhead.cons (hbranches.cons (hmerged.cons
    (lock_flow lock).one))))).congr
  intro k
  simp [quiet, Bool.or_assoc]

private theorem writeCompound_flow (h : d.Flows layout) (extra : List String) :
    Flow e e.depth (d.writeCompound layout.search extra) fun k =>
      d.query.bodyTakes layout e.dialect k
        || CompoundBranch.takesAny layout e.dialect k d.query.compound
        || OrderItem.takesAny layout e.dialect k d.query.compoundOrderBy := by
  have hdeep : e.depth ≤ e.depth + 1 := Nat.le_succ _
  unfold SelectDraft.writeCompound
  dsimp only
  split_ifs
  · have hmerged := writeMerged_flow (e := e) h extra h.compoundOrderBy d.query.compoundLimit
      d.query.compoundOffset d.query.lockMode
    rw [h.compoundOrderBy_eq] at hmerged
    exact hmerged
  · unfold SelectDraft.writeOrderedOutside
    split_ifs
    · exact Flow.fail _
    · have hnone : ∀ o ∈ ([] : List (OrderDraft L)), o.Flows layout :=
        fun o ho => absurd ho List.not_mem_nil
      have hmerged := writeMerged_flow (e := e) h
        (extra ++ d.orderColsOutside (d.projection extra)) hnone none none none
      have horder := (writeOrderLimitOffset_nests h.compoundOrderBy d.query.compoundLimit
        d.query.compoundOffset e).weaken hdeep
      rw [h.compoundOrderBy_eq] at horder
      apply (Flow.cons_emit _ (Flow.cons_text _ (Flow.cons_text _ (hmerged.cons
        (Flow.cons_emit _ (horder.cons (lock_flow d.query.lockMode).one)))))).congr
      intro k
      simp [quiet, OrderItem.takesAny]

theorem writeBranch_flow (h : d.Flows layout) (extra : List String) :
    Flow e e.depth (d.writeBranch layout.search extra)
      fun k => d.query.takes layout e.dialect k := by
  unfold SelectDraft.writeBranch
  split_ifs with hempty
  · apply (writeInner_flow h (d.projection extra) d.query.lockMode false).congr
    intro k
    rw [SelectQuery.takes_eq, List.isEmpty_iff.mp hempty]
    simp [CompoundBranch.takesAny]
  · apply (writeCompound_flow h extra).congr
    intro k
    rw [Bool.not_eq_true] at hempty
    rw [SelectQuery.takes_eq, hempty]
    simp

theorem writeAs_flow (h : d.Flows layout) (scope : Env L → Scope L) (orderHelpers : Bool) :
    Flow e (e.depth + 1) (d.writeAs layout.search scope orderHelpers)
      fun k => d.query.takes layout e.dialect k := by
  apply Flow.under
  split_ifs with hempty
  · apply (writeInner_flow (e := e.push (scope e)) h d.query.projection d.query.lockMode
      orderHelpers).congr
    intro k
    rw [SelectQuery.takes_eq, List.isEmpty_iff.mp hempty]
    simp [CompoundBranch.takesAny]
  · apply (writeCompound_flow (e := e.push (scope e)) h []).congr
    intro k
    rw [Bool.not_eq_true] at hempty
    rw [SelectQuery.takes_eq, hempty]
    simp

theorem write_nests (h : d.Flows layout) :
    Nests (d.write layout.search) fun dialect k => d.query.takes layout dialect k := by
  intro e
  exact Flow.reading (writeAs_flow h _ _)

theorem writeDerived_nests (h : d.Flows layout) :
    Nests (d.writeDerived layout.search) fun dialect k => d.query.takes layout dialect k := by
  intro e
  exact writeAs_flow h _ _

end Compound

end Rustango.Writer
