import Rustango.Writer.Nesting

/-!
# Every expression and query takes what its tree takes

The grouped aggregates and the expression variants, and the induction over the trees.
-/

namespace Rustango.Writer

open Rustango.Query (Dialect)
open Act

variable {L : Lang} {layout : Layout L}

/-- Each of `acts` takes what its tree takes. -/
def Each (layout : Layout L) (ts : List (Tree L)) (acts : List (Act L)) : Prop :=
  List.Forall₂ (fun t a => Nests a fun d k => t.takes layout d k) ts acts

section Each
variable {ts : List (Tree L)} {acts : List (Act L)}

theorem Each.map (h : Each layout ts acts) {f : Act L → Act L}
    (hf : ∀ a t, Nests a t → Nests (f a) t) : Each layout ts (acts.map f) := by
  unfold Each at h ⊢
  induction h with
  | nil => exact List.Forall₂.nil
  | cons ha _ ih => exact List.Forall₂.cons (hf _ _ ha) ih

theorem Each.children (h : Each layout ts acts) : Each layout ts (children ts acts) := by
  unfold Each at h ⊢
  induction h with
  | nil => exact List.Forall₂.nil
  | @cons t a ts acts ha _ ih =>
    refine List.Forall₂.cons (fun e => ?_) ih
    dsimp only
    split_ifs
    · apply Flow.cons_text
      exact ((ha e).cons (Flow.cons_text _ Flow.done)).congr fun k => Bool.or_false _
    · exact ha e

theorem Each.joined (h : Each layout ts acts) (sep : String) :
    Nests (writeJoined sep acts) fun d k => (Tree.takesEach layout d k ts).any id := by
  intro e
  unfold writeJoined
  unfold Each at h
  induction h with
  | nil => exact Flow.done
  | @cons t a ts acts ha hs ih =>
    cases hs with
    | nil => exact (ha e).one.congr fun k => (Bool.or_false _).symm
    | cons ha' hs' => exact (ha e).cons (Flow.cons_text sep ih)

theorem Each.operand (h : Each layout ts acts) (i : Nat) :
    Nests (acts.getD i (seq [])) fun d k => (Tree.takesEach layout d k ts).getD i false := by
  unfold Each at h
  induction h generalizing i with
  | nil => exact fun e => Flow.done
  | cons ha _ ih =>
    cases i with
    | zero => exact ha
    | succ i => exact ih i

private theorem ownWords_flow {e : Env L} {least : Nat}
    (words : Env L → Except SqlError (List (Word L))) :
    Flow e least (Piece.act acts (.own words)) quiet := by
  intro b b' hclean hrun
  simp only [Piece.act, bind, Except.bind] at hrun
  cases hwords : words e with
  | error error =>
    rw [hwords] at hrun
    cases hrun
  | ok ws =>
    rw [hwords] at hrun
    exact Flow.emit (fun _ => ws) b b' hclean hrun

theorem Each.pieces (h : Each layout ts acts) (head : L.Head) :
    Nests (reading fun e => writePieces (layout.pieces e.dialect head ts) acts)
      fun d k => piecesTake (layout.pieces d head ts) (Tree.takesEach layout d k ts) := by
  intro e
  apply Flow.reading
  unfold writePieces piecesTake
  dsimp only
  cases layout.pieces e.dialect head ts with
  | error error => exact Flow.fail error
  | ok pieces =>
    have hpieces : ∀ piece ∈ pieces, Flow e (e.depth + 1) (Piece.act acts piece)
        fun k => piece.takes (Tree.takesEach layout e.dialect k ts) := by
      intro piece _
      cases piece with
      | own words => exact ownWords_flow words
      | operand i => exact h.operand i e
    exact Flow.map hpieces

end Each

private theorem nested_nests {a : Act L} {t : Dialect → Slot → Bool} (h : Nests a t) : Nests (nested a) t := by
  intro e
  exact Flow.under (h _)

private theorem enclosed_nests {a : Act L} {t : Dialect → Slot → Bool} (h : Nests a t) (before after : String) :
    Nests (seq [text before, a, text after]) t := by
  intro e
  apply Flow.cons_text
  exact ((h e).cons (Flow.cons_text _ Flow.done)).congr fun k => Bool.or_false _

private theorem writeXor_nests {items : List (Tree L)} {acts : List (Act L)} (h : Each layout items acts) :
    Nests (writeXor items acts) fun d k => (Tree.takesEach layout d k items).any id := by
  cases h with
  | nil => exact fun e => Flow.fail _
  | @cons t a ts acts ha hs =>
    cases hs with
    | nil => exact fun e => (ha e).congr fun k => (Bool.or_false _).symm
    | @cons t' a' ts' acts' ha' hs' =>
      have hall : Each layout (t :: t' :: ts') (a :: a' :: acts') :=
        List.Forall₂.cons ha (List.Forall₂.cons ha' hs')
      have hterms := (hall.children.map (f := oneIf) fun a t ha =>
        enclosed_nests ha "(CASE WHEN " " THEN 1 ELSE 0 END)").joined " + "
      exact enclosed_nests hterms "(" ") % 2 = 1"

private theorem writeInSubquery_nests (column : String) (negated : Bool) {q : SelectQuery L} {a : Act L}
    (h : Nests a fun d k => q.takes layout d k) :
    Nests (writeInSubquery column negated q a) fun d k => q.takes layout d k := by
  intro e
  apply Flow.reading
  apply Flow.cons_emit
  apply Flow.cons_text
  have hquery : Flow e (e.depth + 1) (if (q.limit.isSome || q.offset.isSome
      || q.compoundLimit.isSome || q.compoundOffset.isSome) && e.dialect = .mysql then
        seq [text "SELECT * FROM (", a, emit fun _ => [.text ") AS ", .ident "_rustango_in"]]
      else a) fun k => q.takes layout e.dialect k := by
    split_ifs
    · apply Flow.cons_text
      exact ((h e).cons (Flow.emit _).one).congr fun k => Bool.or_false _
    · exact h e
  exact (hquery.cons (Flow.cons_text _ Flow.done)).congr fun k => Bool.or_false _

structure AggregateDraft.Flows (layout : Layout L) (d : AggregateDraft L) : Prop where
  joins : ∀ j ∈ d.joins, j.Flows layout
  joins_eq : d.joins.map JoinDraft.join = d.query.joins
  whereClause : Nests d.whereClause fun dialect k => d.query.whereClause.takes layout dialect k
  groupByExprs : Each layout d.query.groupByExprs d.groupByExprs
  aggregates : Nests (commas (d.aggregates.map fun a =>
    seq [a.2, emit fun _ => [.text " AS ", .ident a.1]]))
    fun dialect k => Tree.takesNamed layout dialect k d.query.aggregates
  having : Nests (d.having.getD (seq []))
    fun dialect k => Tree.takesOption layout dialect k d.query.having
  orderBy : ∀ o ∈ d.orderBy, o.Flows layout
  orderBy_eq : d.orderBy.map OrderDraft.item = d.query.orderBy
  source : Nests (d.source.getD (seq []))
    fun dialect k => SelectQuery.takesOption layout dialect k d.query.source

private theorem named_nests {ts : List (String × Tree L)} {acts : List (String × Act L)}
    (h : List.Forall₂ (fun t a => Nests a.2 fun d k => t.2.takes layout d k) ts acts) :
    Nests (commas (acts.map fun a => seq [a.2, emit fun _ => [.text " AS ", .ident a.1]]))
      fun dialect k => Tree.takesNamed layout dialect k ts := by
  intro e
  have hone : ∀ (a : String × Act L) (t : Slot → Bool), Flow e (e.depth + 1) a.2 t →
      Flow e (e.depth + 1) (seq [a.2, emit fun _ => [.text " AS ", .ident a.1]]) t :=
    fun a t ha => (ha.cons (Flow.emit _).one).congr fun k => Bool.or_false _
  unfold commas
  induction h with
  | nil => exact Flow.done
  | @cons t a ts acts ha hs ih =>
    cases hs with
    | nil => exact (hone a _ (ha e)).one.congr fun k => (Bool.or_false _).symm
    | cons ha' hs' => exact (hone a _ (ha e)).cons (Flow.cons_text ", " ih)

section Aggregate
variable {d : AggregateDraft L} {e : Env L}

theorem AggregateQuery.takes_eq (q : AggregateQuery L) (dialect : Dialect) (k : Slot) :
    q.takes layout dialect k = (Tree.takesNamed layout dialect k q.aggregates
      || SelectQuery.takesOption layout dialect k q.source || Join.takesAny layout dialect k q.joins
      || q.whereClause.takes layout dialect k
      || (Tree.takesEach layout dialect k q.groupByExprs).any id
      || Tree.takesOption layout dialect k q.having
      || OrderItem.takesAny layout dialect k q.orderBy) := by
  cases q
  rfl

private theorem qualified_nests {a : Act L} {t : Dialect → Slot → Bool} (scope : Scope L)
    (h : Nests a t) : Nests (d.qualified scope a) t := by
  intro e
  exact Flow.under (h _)

theorem writeFromSource_nests {source : Option (Act L)} {t : Dialect → Slot → Bool}
    (h : Nests (source.getD (seq [])) t) (scope : Scope L) :
    Nests (writeFromSource scope source) t := by
  intro e
  have hsource := h e
  cases source with
  | none =>
    apply Flow.cons_text
    exact ((Flow.emit _).cons hsource).congr fun k => Bool.false_or _
  | some source =>
    apply Flow.cons_text
    apply Flow.cons_text
    exact (hsource.cons (Flow.emit _).one).congr fun k => Bool.or_false _

private theorem writeTail_nests (h : d.Flows layout) (scope : Scope L) :
    Nests (d.writeTail scope) fun dialect k =>
      Tree.takesOption layout dialect k d.query.having
        || OrderItem.takesAny layout dialect k d.query.orderBy := by
  intro e
  apply Flow.under
  refine qualified_nests (t := fun dialect k => Tree.takesOption layout dialect k d.query.having
    || OrderItem.takesAny layout dialect k d.query.orderBy) scope (fun e => ?_) _
  have hact := h.having e
  have horder := writeOrderLimitOffset_nests h.orderBy d.query.limit d.query.offset e
  rw [h.orderBy_eq] at horder
  cases hd : d.having with
  | none =>
    rw [hd] at hact
    exact hact.cons horder.one
  | some having =>
    rw [hd] at hact
    exact (Flow.cons_text _ hact.one).cons horder.one

private theorem writeInner_nests (h : d.Flows layout) (scope : Scope L) :
    Nests (d.writeInner layout scope) fun dialect k => d.query.takes layout dialect k := by
  intro e
  have hjoins := writeModelJoins_nests h.joins e
  rw [h.joins_eq] at hjoins
  have hcomma : ∀ (c : Bool) (e : Env L), Flow e (e.depth + 1) (cond c (text ", ")) quiet :=
    fun c e => (Flow.emit _).cond.congr fun k => Bool.and_false _
  have haggregates : Nests (d.qualified scope (seq [cond (!d.query.groupBy.isEmpty
      && !d.aggregates.isEmpty) (text ", "), commas (d.aggregates.map fun a =>
        seq [a.2, emit fun _ => [.text " AS ", .ident a.1]])]))
      fun dialect k => Tree.takesNamed layout dialect k d.query.aggregates := by
    apply qualified_nests
    intro e
    exact ((hcomma _ e).cons (h.aggregates e).one).congr fun k => Bool.false_or _
  have hgroups : Nests (d.qualified scope (seq [cond (!d.query.groupBy.isEmpty
      && !d.groupByExprs.isEmpty) (text ", "), commas d.groupByExprs]))
      fun dialect k => (Tree.takesEach layout dialect k d.query.groupByExprs).any id := by
    apply qualified_nests
    intro e
    exact ((hcomma _ e).cons (h.groupByExprs.joined ", " e).one).congr fun k => Bool.false_or _
  have hgrouped : ∀ cols : Act L, Flow e (e.depth + 1) cols quiet →
      Flow e (e.depth + 1) (cond (!d.query.groupBy.isEmpty || !d.groupByExprs.isEmpty)
        (seq [text " GROUP BY ", cols, d.qualified scope (seq [cond (!d.query.groupBy.isEmpty
          && !d.groupByExprs.isEmpty) (text ", "), commas d.groupByExprs])]))
        fun k => (Tree.takesEach layout e.dialect k d.query.groupByExprs).any id := by
    intro cols hcols
    apply (Flow.cons_text " GROUP BY " (hcols.cons (hgroups e).one)).cond.congr
    intro k
    have hsame := h.groupByExprs
    unfold Each at hsame
    cases hd : d.groupByExprs with
    | nil =>
      rw [hd] at hsame
      cases hq : d.query.groupByExprs with
      | nil => simp [Tree.takesEach, quiet]
      | cons t ts =>
        rw [hq] at hsame
        cases hsame
    | cons a acts => simp [quiet]
  have hwhere := qualified_nests (d := d) scope (writeWhereWithSearch_nests
    layout.search h.whereClause none (some d.query.model)) e
  apply (Flow.cons_text _ (Flow.cons_emit _ ((haggregates e).cons ((writeFromSource_nests h.source scope
    e).cons (hjoins.cons (hwhere.cons ((hgrouped _ (Flow.emit _)).cons
    (writeTail_nests h scope e).one))))))).congr
  intro k
  dsimp only
  rw [AggregateQuery.takes_eq]
  simp only [Bool.or_assoc]

private theorem aggregateAs_nests (h : d.Flows layout) (scope : Env L → Scope L) :
    Nests (d.writeAs layout scope) fun dialect k => d.query.takes layout dialect k := by
  intro e
  apply Flow.reading
  apply Flow.under
  apply (writeInner_nests h (scope e) _).weaken
  change e.depth + 1 ≤ e.depth + 1 + 1
  omega

end Aggregate

section Query
variable {q : SelectQuery L} (h : (q.draft layout).Flows layout ∧ (q.draft layout).query = q)
include h

private theorem selectWrite_nests :
    Nests ((q.draft layout).write layout.search) fun d k => q.takes layout d k := by
  have hnests := write_nests h.1
  rw [h.2] at hnests
  exact hnests

private theorem selectDerived_nests :
    Nests ((q.draft layout).writeDerived layout.search) fun d k => q.takes layout d k := by
  have hnests := writeDerived_nests h.1
  rw [h.2] at hnests
  exact hnests

private theorem selectBranch_flow (extra : List String) {e : Env L} :
    Flow e e.depth ((q.draft layout).writeBranch layout.search extra)
      fun k => q.takes layout e.dialect k := by
  have hflow := writeBranch_flow (e := e) h.1 extra
  rw [h.2] at hflow
  exact hflow

private theorem selectSource_nests :
    Nests ((q.draft layout).writeAs layout.search (fun _ => .plain q.model) true)
      fun d k => q.takes layout d k := by
  intro e
  have hflow := writeAs_flow (e := e) h.1 (fun _ => .plain q.model) true
  rw [h.2] at hflow
  exact hflow

end Query

section AggregateQuery
variable {q : AggregateQuery L} (h : (q.draft layout).Flows layout ∧ (q.draft layout).query = q)
include h

private theorem aggregateAs_takes (scope : Env L → Scope L) :
    Nests ((q.draft layout).writeAs layout scope) fun d k => q.takes layout d k := by
  have hnests := aggregateAs_nests h.1 scope
  rw [h.2] at hnests
  exact hnests

private theorem aggregateWrite_nests :
    Nests ((q.draft layout).write layout) fun d k => q.takes layout d k :=
  aggregateAs_takes h _

end AggregateQuery

mutual

theorem Tree.act_nests : ∀ t : Tree L, Nests (t.act layout) fun d k => t.takes layout d k
  | .column _ => fun _ => Flow.emit _
  | .aliasedColumn _ _ => fun _ => Flow.emit _
  | .subquery q => enclosed_nests (nested_nests (selectWrite_nests (SelectQuery.draft_flows q))) "(" ")"
  | .aggregateSubquery q => enclosed_nests (nested_nests (aggregateWrite_nests (AggregateQuery.draft_flows q))) "(" ")"
  | .exists_ negated q =>
    enclosed_nests (selectWrite_nests (SelectQuery.draft_flows q)) (if negated then "NOT EXISTS (" else "EXISTS (") ")"
  | .inSubquery column negated q =>
    writeInSubquery_nests column negated (selectWrite_nests (SelectQuery.draft_flows q))
  | .and items => by
    have heach := Tree.acts_each items
    cases items with
    | nil => exact fun _ => Flow.emit _
    | cons item items => exact heach.children.joined " AND "
  | .or items => by
    have heach := Tree.acts_each items
    cases items with
    | nil => exact fun _ => Flow.fail _
    | cons item items => exact heach.children.joined " OR "
  | .not child => enclosed_nests (Tree.act_nests child) "NOT (" ")"
  | .xor items => writeXor_nests (Tree.acts_each items)
  | .node head operands => (Tree.acts_each operands).pieces head

theorem Tree.acts_each : ∀ ts : List (Tree L), Each layout ts (Tree.acts layout ts)
  | [] => List.Forall₂.nil
  | t :: ts => List.Forall₂.cons (Tree.act_nests t) (Tree.acts_each ts)

theorem OrderItem.draft_flows : ∀ o : OrderItem L,
    (o.draft layout).Flows layout ∧ (o.draft layout).item = o
  | .column _ _ _ => ⟨fun _ => Flow.emit _, rfl⟩
  | .expr expr _ _ => ⟨Tree.act_nests expr, rfl⟩
  | .random => by
    refine ⟨fun e => ?_, rfl⟩
    apply Flow.reading
    exact Flow.cons_text _ (Flow.cons_text _ Flow.done)

theorem OrderItem.drafts_flow : ∀ os : List (OrderItem L),
    (∀ o ∈ OrderItem.drafts layout os, o.Flows layout) ∧
      (OrderItem.drafts layout os).map OrderDraft.item = os
  | [] => ⟨fun _ ho => absurd ho List.not_mem_nil, rfl⟩
  | o :: os => by
    have hhead := OrderItem.draft_flows o
    have htail := OrderItem.drafts_flow os
    exact ⟨List.forall_mem_cons.mpr ⟨hhead.1, htail.1⟩, congrArg₂ List.cons hhead.2 htail.2⟩

theorem Join.draft_flows : ∀ j : Join L,
    (j.draft layout).Flows layout ∧ (j.draft layout).join = j
  | ⟨_, _, _, on_, _⟩ => ⟨Tree.act_nests on_, rfl⟩

theorem Join.drafts_flow : ∀ js : List (Join L),
    (∀ j ∈ Join.drafts layout js, j.Flows layout) ∧
      (Join.drafts layout js).map JoinDraft.join = js
  | [] => ⟨fun _ hj => absurd hj List.not_mem_nil, rfl⟩
  | j :: js => by
    have hhead := Join.draft_flows j
    have htail := Join.drafts_flow js
    exact ⟨List.forall_mem_cons.mpr ⟨hhead.1, htail.1⟩, congrArg₂ List.cons hhead.2 htail.2⟩

theorem DerivedSource.act_nests (lateral : Bool) : ∀ s : DerivedSource L,
    Nests (s.act layout lateral) fun d k => s.takes layout d k
  | .select q => by
    cases lateral with
    | true => exact selectWrite_nests (SelectQuery.draft_flows q)
    | false => exact selectDerived_nests (SelectQuery.draft_flows q)
  | .aggregate q => by
    cases lateral with
    | true => exact aggregateWrite_nests (AggregateQuery.draft_flows q)
    | false => exact aggregateAs_takes (AggregateQuery.draft_flows q) fun _ => .plain q.model

theorem SubqueryJoin.draft_flows : ∀ j : SubqueryJoin L,
    (j.draft layout).Flows layout ∧ (j.draft layout).join = j
  | ⟨subquery, _, _, on_, lateral⟩ =>
    ⟨⟨DerivedSource.act_nests lateral subquery, Tree.act_nests on_⟩, rfl⟩

theorem SubqueryJoin.drafts_flow : ∀ js : List (SubqueryJoin L),
    (∀ j ∈ SubqueryJoin.drafts layout js, j.Flows layout) ∧
      (SubqueryJoin.drafts layout js).map SubqueryJoinDraft.join = js
  | [] => ⟨fun _ hj => absurd hj List.not_mem_nil, rfl⟩
  | j :: js => by
    have hhead := SubqueryJoin.draft_flows j
    have htail := SubqueryJoin.drafts_flow js
    exact ⟨List.forall_mem_cons.mpr ⟨hhead.1, htail.1⟩, congrArg₂ List.cons hhead.2 htail.2⟩

theorem CompoundBranch.draft_flows : ∀ b : CompoundBranch L,
    (b.draft layout).Flows layout ∧ (b.draft layout).branch = b
  | ⟨_, query⟩ => ⟨fun extra _ => selectBranch_flow (SelectQuery.draft_flows query) extra, rfl⟩

theorem CompoundBranch.drafts_flow : ∀ bs : List (CompoundBranch L),
    (∀ b ∈ CompoundBranch.drafts layout bs, b.Flows layout) ∧
      (CompoundBranch.drafts layout bs).map BranchDraft.branch = bs
  | [] => ⟨fun _ hb => absurd hb List.not_mem_nil, rfl⟩
  | b :: bs => by
    have hhead := CompoundBranch.draft_flows b
    have htail := CompoundBranch.drafts_flow bs
    exact ⟨List.forall_mem_cons.mpr ⟨hhead.1, htail.1⟩, congrArg₂ List.cons hhead.2 htail.2⟩

theorem SelectQuery.draft_flows : ∀ q : SelectQuery L,
    (q.draft layout).Flows layout ∧ (q.draft layout).query = q
  | ⟨_, whereClause, _, joins, subqueryJoins, orderBy, _, _, _, compound, _, _, compoundOrderBy, _,
      _, _⟩ => by
    have hjoins := Join.drafts_flow joins
    have hsubqueries := SubqueryJoin.drafts_flow subqueryJoins
    have horder := OrderItem.drafts_flow orderBy
    have hcompound := CompoundBranch.drafts_flow compound
    have hmerged := OrderItem.drafts_flow compoundOrderBy
    exact ⟨⟨Tree.act_nests whereClause, hjoins.1, hjoins.2, hsubqueries.1, hsubqueries.2, horder.1,
      horder.2, hcompound.1, hcompound.2, hmerged.1, hmerged.2⟩, rfl⟩

theorem SelectQuery.sourceAct_nests : ∀ q : Option (SelectQuery L),
    Nests ((SelectQuery.sourceAct layout q).getD (seq []))
      fun d k => SelectQuery.takesOption layout d k q
  | none => fun _ => Flow.done
  | some q => selectSource_nests (SelectQuery.draft_flows q)

theorem Tree.havingAct_nests : ∀ t : Option (Tree L),
    Nests ((Tree.havingAct layout t).getD (seq [])) fun d k => Tree.takesOption layout d k t
  | none => fun _ => Flow.done
  | some t => Tree.act_nests t

theorem Tree.namedActs_nest : ∀ ts : List (String × Tree L),
    List.Forall₂ (fun t a => Nests a.2 fun d k => t.2.takes layout d k) ts (Tree.namedActs layout ts)
  | [] => List.Forall₂.nil
  | (_, t) :: ts => List.Forall₂.cons (Tree.act_nests t) (Tree.namedActs_nest ts)

theorem AggregateQuery.draft_flows : ∀ q : AggregateQuery L,
    (q.draft layout).Flows layout ∧ (q.draft layout).query = q
  | ⟨_, joins, whereClause, _, groupByExprs, aggregates, _, having, orderBy, _, _, source⟩ => by
    have hjoins := Join.drafts_flow joins
    have horder := OrderItem.drafts_flow orderBy
    exact ⟨⟨hjoins.1, hjoins.2, Tree.act_nests whereClause, Tree.acts_each groupByExprs,
      named_nests (Tree.namedActs_nest aggregates), Tree.havingAct_nests having, horder.1, horder.2,
      SelectQuery.sourceAct_nests source⟩, rfl⟩

end

end Rustango.Writer
