import Rustango.Writer.Takes

/-!
# The slots a query takes

Every writer of an expression or of a nested query takes exactly the slots its tree takes, with each
column inside a SELECT of its own.
-/

namespace Rustango.Writer

open Rustango.Query (Dialect DistinctMode JoinKind LockMode SearchClause)
open Act

variable {L : Lang}

section Env
variable (e : Env L)

@[simp] theorem depth_push (s : Scope L) : (e.push s).depth = e.depth + 1 := rfl

@[simp] theorem dialect_push (s : Scope L) : (e.push s).dialect = e.dialect := rfl

@[simp] theorem dialect_branch (m : L.Model) : (e.branch m).dialect = e.dialect := rfl

theorem depth_branch (m : L.Model) : e.depth ≤ (e.branch m).depth := by
  change e.scopes.length ≤ e.scopes.tail.length + 1
  rw [List.length_tail]
  omega

end Env

namespace Flow
variable {e : Env L} {least : Nat} {a : Act L} {t : Slot → Bool}

theorem under {f : Env L → Env L} (h : Flow (f e) least a t) : Flow e least (Act.under f a) t := h

theorem reading {f : Env L → Act L} (h : Flow e least (f e) t) : Flow e least (Act.reading f) t := h

theorem commas {α : Type} {xs : List α} {f : α → Act L} {t : α → Slot → Bool}
    (h : ∀ x ∈ xs, Flow e least (f x) (t x)) :
    Flow e least (Act.commas (xs.map f)) fun k => xs.any fun x => t x k := intersperse ", " h

theorem further {α : Type} {xs : List α} {f : α → Act L} {t : α → Slot → Bool}
    (h : ∀ x ∈ xs, Flow e least (f x) (t x)) :
    Flow e least (Act.further (xs.map f)) fun k => xs.any fun x => t x k := by
  unfold Act.further
  rw [List.map_map]
  exact map fun x hx => cons_text ", " (h x hx).one

end Flow

/-- Every column `a` writes stands in a SELECT inside it. -/
def Nests (a : Act L) (t : Dialect → Slot → Bool) : Prop :=
  ∀ e, Flow e (e.depth + 1) a (t e.dialect)

section Parts
variable (layout : Layout L)

def OrderDraft.Flows (o : OrderDraft L) : Prop := Nests o.target fun d k => o.item.takes layout d k

def JoinDraft.Flows (j : JoinDraft L) : Prop := Nests j.on_ fun d k => j.join.on_.takes layout d k

structure SubqueryJoinDraft.Flows (j : SubqueryJoinDraft L) : Prop where
  subquery : Nests j.subquery fun d k => j.join.subquery.takes layout d k
  on_ : Nests j.on_ fun d k => j.join.on_.takes layout d k

def BranchDraft.Flows (b : BranchDraft L) : Prop :=
  ∀ extra e, Flow e e.depth (b.write extra) fun k => b.branch.query.takes layout e.dialect k

structure SelectDraft.Flows (d : SelectDraft L) : Prop where
  whereClause : Nests d.whereClause fun dialect k => d.query.whereClause.takes layout dialect k
  joins : ∀ j ∈ d.joins, j.Flows layout
  joins_eq : d.joins.map JoinDraft.join = d.query.joins
  subqueryJoins : ∀ j ∈ d.subqueryJoins, j.Flows layout
  subqueryJoins_eq : d.subqueryJoins.map SubqueryJoinDraft.join = d.query.subqueryJoins
  orderBy : ∀ o ∈ d.orderBy, o.Flows layout
  orderBy_eq : d.orderBy.map OrderDraft.item = d.query.orderBy
  compound : ∀ b ∈ d.compound, b.Flows layout
  compound_eq : d.compound.map BranchDraft.branch = d.query.compound
  compoundOrderBy : ∀ o ∈ d.compoundOrderBy, o.Flows layout
  compoundOrderBy_eq : d.compoundOrderBy.map OrderDraft.item = d.query.compoundOrderBy

end Parts

variable {layout : Layout L} {dialect : Dialect} {k : Slot}

theorem Tree.takes_of_isEmpty {t : Tree L} (h : t.isEmpty = true) :
    t.takes layout dialect k = false := by
  cases t with
  | and items =>
    cases items with
    | nil => rfl
    | cons item items => cases h
  | _ => cases h

theorem Join.takes_eq (j : Join L) :
    j.takes layout dialect k = j.on_.takes layout dialect k := by
  cases j
  rfl

theorem SubqueryJoin.takes_eq (j : SubqueryJoin L) : j.takes layout dialect k =
    (j.subquery.takes layout dialect k || j.on_.takes layout dialect k) := by
  cases j
  rfl

theorem CompoundBranch.takes_eq (b : CompoundBranch L) :
    b.takes layout dialect k = b.query.takes layout dialect k := by
  cases b
  rfl

theorem takesAny_orderBy (items : List (OrderItem L)) :
    OrderItem.takesAny layout dialect k items = items.any (OrderItem.takes layout dialect k) := by
  induction items with
  | nil => rfl
  | cons item items ih => simp [OrderItem.takesAny, ih]

private theorem takesAny_joins (js : List (Join L)) :
    Join.takesAny layout dialect k js = js.any (Join.takes layout dialect k) := by
  induction js with
  | nil => rfl
  | cons j js ih => simp [Join.takesAny, ih]

private theorem takesAny_subqueryJoins (js : List (SubqueryJoin L)) :
    SubqueryJoin.takesAny layout dialect k js = js.any (SubqueryJoin.takes layout dialect k) := by
  induction js with
  | nil => rfl
  | cons j js ih => simp [SubqueryJoin.takesAny, ih]

theorem takesAny_branches (bs : List (CompoundBranch L)) :
    CompoundBranch.takesAny layout dialect k bs = bs.any (CompoundBranch.takes layout dialect k) := by
  induction bs with
  | nil => rfl
  | cons b bs ih => simp [CompoundBranch.takesAny, ih]

private theorem writeModelJoin_nests {j : JoinDraft L} (h : j.Flows layout) :
    Nests (writeModelJoin j) fun d k => j.join.takes layout d k := by
  intro e
  apply Flow.reading
  dsimp only
  split
  · exact Flow.fail _
  · split
    · exact Flow.fail _
    · apply Flow.cons_emit
      apply Flow.one
      apply Flow.under
      exact (h _).congr fun k => (Join.takes_eq j.join).symm

theorem writeModelJoins_nests {joins : List (JoinDraft L)} (h : ∀ j ∈ joins, j.Flows layout) :
    Nests (writeModelJoins joins) fun d k =>
      Join.takesAny layout d k (joins.map JoinDraft.join) := by
  intro e
  apply (Flow.map fun j hj => writeModelJoin_nests (h j hj) e).congr
  intro k
  dsimp only
  rw [takesAny_joins, List.any_map]
  rfl

private theorem writeSubqueryJoin_nests {j : SubqueryJoinDraft L} (h : j.Flows layout) :
    Nests (writeSubqueryJoin j) fun d k => j.join.takes layout d k := by
  intro e
  apply Flow.reading
  dsimp only
  split
  · exact Flow.fail _
  · have hlateral : Flow e (e.depth + 1) (cond j.join.lateral writeLateral) quiet := by
      have hword : Flow e (e.depth + 1) (writeLateral (L := L)) quiet := by
        apply Flow.reading
        split
        · exact Flow.fail _
        · exact Flow.emit _
        · exact Flow.emit _
      exact hword.cond.congr fun k => Bool.and_false _
    have hon : Flow e (e.depth + 1) (if j.join.on_.isEmpty then text " ON true"
        else seq [text " ON ", under (fun e => (e.withQualifier
          (some (.join j.join.alias_))).withColumnsOf none) j.on_])
        fun k => j.join.on_.takes layout e.dialect k := by
      split_ifs with hempty
      · exact (Flow.emit _).congr fun k => (Tree.takes_of_isEmpty hempty).symm
      · exact Flow.cons_text _ (Flow.under (h.on_ _)).one
    have htail := Flow.cons_text " (" ((h.subquery e).cons
      (Flow.cons_emit (fun _ => [.text ") AS ", .ident j.join.alias_]) hon.one))
    apply (Flow.cons_emit _ (hlateral.cons htail)).congr
    intro k
    rw [SubqueryJoin.takes_eq]
    exact Bool.false_or _

theorem writeSubqueryJoins_nests {joins : List (SubqueryJoinDraft L)}
    (h : ∀ j ∈ joins, j.Flows layout) :
    Nests (writeSubqueryJoins joins) fun d k =>
      SubqueryJoin.takesAny layout d k (joins.map SubqueryJoinDraft.join) := by
  intro e
  apply (Flow.map fun j hj => writeSubqueryJoin_nests (h j hj) e).congr
  intro k
  dsimp only
  rw [takesAny_subqueryJoins, List.any_map]
  rfl

theorem writeWhereWithSearch_nests
    (search : Option L.Model → SearchClause → Env L → List (Word L)) {w : Tree L} {a : Act L} (h : Nests a fun d k => w.takes layout d k)
    (clause : Option SearchClause) (model : Option L.Model) :
    Nests (writeWhereWithSearch search a w.isEmpty clause model)
      fun d k => w.takes layout d k := by
  intro e
  have hcondition : Flow e (e.depth + 1) (under (fun e => e.withColumnsOf model) a)
      fun k => w.takes layout e.dialect k := Flow.under (h _)
  unfold writeWhereWithSearch
  dsimp only
  split
  · next hempty _ => exact Flow.done.congr fun k => (Tree.takes_of_isEmpty hempty).symm
  · exact Flow.cons_text _ hcondition.one
  · next hempty _ =>
    exact (Flow.cons_text _ (Flow.emit _).one).congr fun k => (Tree.takes_of_isEmpty hempty).symm
  · apply Flow.cons_text
    apply Flow.cons_text
    apply (hcondition.cons (Flow.cons_text _ (Flow.cons_text _ (Flow.emit _).one))).congr
    intro k
    exact Bool.or_false _

section Order
variable {e : Env L} {least : Nat}

private theorem orderTerm_flow {item : OrderItem L} {target : Act L} {t : Slot → Bool}
    (h : Flow e least target t) : Flow e least (orderTerm item target) t := by
  have hmain : Flow e least (seq [target, cond item.direction.1 (text " DESC")]) t := by
    have hdesc : Flow e least (cond item.direction.1 (text " DESC")) quiet :=
      (Flow.emit _).cond.congr fun k => Bool.and_false _
    exact (h.cons hdesc.one).congr fun k => Bool.or_false _
  have htwice : ∀ s, Flow e least (seq [target, text " IS NULL", text s, text ", ",
      seq [target, cond item.direction.1 (text " DESC")]]) t := by
    intro s
    apply (h.cons (Flow.cons_text _ (Flow.cons_text _ (Flow.cons_text _ hmain.one)))).congr
    intro k
    exact Bool.or_self _
  apply Flow.reading
  dsimp only
  split_ifs
  · exact (hmain.cons (Flow.emit _).one).congr fun k => Bool.or_false _
  · split
    · exact hmain
    · exact htwice _
    · exact htwice _

theorem writeOrderLimitOffsetWith_flow {α : Type} {xs : List α} {item : α → OrderItem L}
    {target : α → Act L} {t : α → Slot → Bool} (h : ∀ x ∈ xs, Flow e least (target x) (t x))
    (limit offset : Option Int) :
    Flow e least (writeOrderLimitOffsetWith (xs.map fun x => (item x, target x)) limit offset)
      fun k => xs.any fun x => t x k := by
  have hterms : Flow e least (Act.commas ((xs.map fun x => (item x, target x)).map
      fun i => orderTerm i.1 i.2)) fun k => xs.any fun x => t x k := by
    rw [List.map_map]
    exact Flow.commas fun x hx => orderTerm_flow (h x hx)
  apply ((Flow.cons_text " ORDER BY " hterms.one).cond.cons (Flow.emit _).one).congr
  intro k
  cases xs with
  | nil => rfl
  | cons x xs => exact Bool.or_false _

theorem writeOrderLimitOffset_nests {orderBy : List (OrderDraft L)}
    (h : ∀ o ∈ orderBy, o.Flows layout) (limit offset : Option Int) :
    Nests (writeOrderLimitOffset orderBy limit offset) fun d k =>
      OrderItem.takesAny layout d k (orderBy.map OrderDraft.item) := by
  intro e
  apply (writeOrderLimitOffsetWith_flow (fun o ho => h o ho e) limit offset).congr
  intro k
  dsimp only
  rw [takesAny_orderBy, List.any_map]
  rfl

end Order

end Rustango.Writer
