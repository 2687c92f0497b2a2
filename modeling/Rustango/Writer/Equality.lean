import Rustango.Writer.Tree

/-!
# Equality of queries

`==` on a query is written by hand, over its fields, because a schema is compared by its address; the
expressions that hold a query derive theirs. It decides equality only up to the DISTINCT modes.
-/

namespace Rustango.Writer

open Rustango.Query (Dialect DistinctMode JoinKind LockMode NullsOrder SearchClause SetOp)

deriving instance DecidableEq for SearchClause

variable {L : Lang}

section Beq
variable [DecidableEq L.Head] [DecidableEq L.Model]

mutual

def Tree.beq : Tree L → Tree L → Bool
  | .column c, other => match other with
    | .column c' => c == c'
    | _ => false
  | .aliasedColumn a c, other => match other with
    | .aliasedColumn a' c' => a == a' && c == c'
    | _ => false
  | .subquery q, other => match other with
    | .subquery q' => q.beq q'
    | _ => false
  | .aggregateSubquery q, other => match other with
    | .aggregateSubquery q' => q.beq q'
    | _ => false
  | .exists_ n q, other => match other with
    | .exists_ n' q' => n == n' && q.beq q'
    | _ => false
  | .inSubquery c n q, other => match other with
    | .inSubquery c' n' q' => c == c' && n == n' && q.beq q'
    | _ => false
  | .and items, other => match other with
    | .and items' => Tree.beqs items items'
    | _ => false
  | .or items, other => match other with
    | .or items' => Tree.beqs items items'
    | _ => false
  | .not child, other => match other with
    | .not child' => child.beq child'
    | _ => false
  | .xor items, other => match other with
    | .xor items' => Tree.beqs items items'
    | _ => false
  | .node h cs, other => match other with
    | .node h' cs' => h == h' && Tree.beqs cs cs'
    | _ => false
termination_by structural x => x

def Tree.beqs : List (Tree L) → List (Tree L) → Bool
  | [], others => others.isEmpty
  | t :: ts, others => match others with
    | t' :: ts' => t.beq t' && Tree.beqs ts ts'
    | [] => false
termination_by structural x => x

def OrderItem.beq : OrderItem L → OrderItem L → Bool
  | .column c d n, other => match other with
    | .column c' d' n' => c == c' && d == d' && n == n'
    | _ => false
  | .expr e d n, other => match other with
    | .expr e' d' n' => e.beq e' && d == d' && n == n'
    | _ => false
  | .random, other => match other with
    | .random => true
    | _ => false
termination_by structural x => x

def OrderItem.beqs : List (OrderItem L) → List (OrderItem L) → Bool
  | [], others => others.isEmpty
  | t :: ts, others => match others with
    | t' :: ts' => t.beq t' && OrderItem.beqs ts ts'
    | [] => false
termination_by structural x => x

/-- `PartialEq` for `Join`, written by hand -/
def Join.beq : Join L → Join L → Bool
  | ⟨target, alias_, kind, on_, project⟩, other =>
    target == other.target && alias_ == other.alias_ && kind == other.kind && on_.beq other.on_
      && project == other.project
termination_by structural x => x

def Join.beqs : List (Join L) → List (Join L) → Bool
  | [], others => others.isEmpty
  | t :: ts, others => match others with
    | t' :: ts' => t.beq t' && Join.beqs ts ts'
    | [] => false
termination_by structural x => x

def DerivedSource.beq : DerivedSource L → DerivedSource L → Bool
  | .select q, other => match other with
    | .select q' => q.beq q'
    | _ => false
  | .aggregate q, other => match other with
    | .aggregate q' => q.beq q'
    | _ => false
termination_by structural x => x

def SubqueryJoin.beq : SubqueryJoin L → SubqueryJoin L → Bool
  | ⟨subquery, alias_, kind, on_, lateral⟩, other =>
    subquery.beq other.subquery && alias_ == other.alias_ && kind == other.kind
      && on_.beq other.on_ && lateral == other.lateral
termination_by structural x => x

def SubqueryJoin.beqs : List (SubqueryJoin L) → List (SubqueryJoin L) → Bool
  | [], others => others.isEmpty
  | t :: ts, others => match others with
    | t' :: ts' => t.beq t' && SubqueryJoin.beqs ts ts'
    | [] => false
termination_by structural x => x

/-- `PartialEq` for `CompoundBranch`, written by hand -/
def CompoundBranch.beq : CompoundBranch L → CompoundBranch L → Bool
  | ⟨op, query⟩, other => op == other.op && query.beq other.query
termination_by structural x => x

def CompoundBranch.beqs : List (CompoundBranch L) → List (CompoundBranch L) → Bool
  | [], others => others.isEmpty
  | t :: ts, others => match others with
    | t' :: ts' => t.beq t' && CompoundBranch.beqs ts ts'
    | [] => false
termination_by structural x => x

/-- `PartialEq` for `SelectQuery`, written by hand over every field but `distinct` -/
def SelectQuery.beq : SelectQuery L → SelectQuery L → Bool
  | ⟨model, whereClause, search, joins, subqueryJoins, orderBy, limit, offset, lockMode, compound,
      projection, _, compoundOrderBy, compoundLimit, compoundOffset, selectRelated⟩, other =>
    model == other.model && whereClause.beq other.whereClause && search == other.search
      && Join.beqs joins other.joins && SubqueryJoin.beqs subqueryJoins other.subqueryJoins
      && OrderItem.beqs orderBy other.orderBy && limit == other.limit && offset == other.offset
      && lockMode == other.lockMode && CompoundBranch.beqs compound other.compound
      && projection == other.projection && OrderItem.beqs compoundOrderBy other.compoundOrderBy
      && compoundLimit == other.compoundLimit && compoundOffset == other.compoundOffset
      && selectRelated == other.selectRelated
termination_by structural x => x

def SelectQuery.beqOption : Option (SelectQuery L) → Option (SelectQuery L) → Bool
  | none, other => other.isNone
  | some q, other => match other with
    | some q' => q.beq q'
    | none => false
termination_by structural x => x

def Tree.beqOption : Option (Tree L) → Option (Tree L) → Bool
  | none, other => other.isNone
  | some t, other => match other with
    | some t' => t.beq t'
    | none => false
termination_by structural x => x

def Tree.beqNamed : List (String × Tree L) → List (String × Tree L) → Bool
  | [], others => others.isEmpty
  | (n, t) :: ts, others => match others with
    | (n', t') :: ts' => n == n' && t.beq t' && Tree.beqNamed ts ts'
    | [] => false
termination_by structural x => x

/-- `PartialEq` for `AggregateQuery`, written by hand -/
def AggregateQuery.beq : AggregateQuery L → AggregateQuery L → Bool
  | ⟨model, joins, whereClause, groupBy, groupByExprs, aggregates, aliases, having, orderBy, limit,
      offset, source⟩, other =>
    model == other.model && Join.beqs joins other.joins && whereClause.beq other.whereClause
      && groupBy == other.groupBy && Tree.beqs groupByExprs other.groupByExprs
      && Tree.beqNamed aggregates other.aggregates && Tree.beqNamed aliases other.aliases
      && Tree.beqOption having other.having && OrderItem.beqs orderBy other.orderBy
      && limit == other.limit && offset == other.offset && SelectQuery.beqOption source other.source
termination_by structural x => x

end

end Beq

mutual

def Tree.distincts : Tree L → List (Option DistinctMode)
  | .column _ => []
  | .aliasedColumn _ _ => []
  | .subquery q => q.distincts
  | .aggregateSubquery q => q.distincts
  | .exists_ _ q => q.distincts
  | .inSubquery _ _ q => q.distincts
  | .and items => Tree.distinctsAll items
  | .or items => Tree.distinctsAll items
  | .not child => child.distincts
  | .xor items => Tree.distinctsAll items
  | .node _ operands => Tree.distinctsAll operands
termination_by structural t => t

def Tree.distinctsAll : List (Tree L) → List (Option DistinctMode)
  | [] => []
  | t :: ts => t.distincts ++ Tree.distinctsAll ts
termination_by structural ts => ts

def OrderItem.distincts : OrderItem L → List (Option DistinctMode)
  | .column _ _ _ => []
  | .expr expr _ _ => expr.distincts
  | .random => []
termination_by structural item => item

def OrderItem.distinctsAll : List (OrderItem L) → List (Option DistinctMode)
  | [] => []
  | item :: items => item.distincts ++ OrderItem.distinctsAll items
termination_by structural items => items

def Join.distincts : Join L → List (Option DistinctMode)
  | ⟨_, _, _, on_, _⟩ => on_.distincts
termination_by structural j => j

def Join.distinctsAll : List (Join L) → List (Option DistinctMode)
  | [] => []
  | j :: js => j.distincts ++ Join.distinctsAll js
termination_by structural js => js

def DerivedSource.distincts : DerivedSource L → List (Option DistinctMode)
  | .select q => q.distincts
  | .aggregate q => q.distincts
termination_by structural s => s

def SubqueryJoin.distincts : SubqueryJoin L → List (Option DistinctMode)
  | ⟨subquery, _, _, on_, _⟩ => subquery.distincts ++ on_.distincts
termination_by structural j => j

def SubqueryJoin.distinctsAll : List (SubqueryJoin L) → List (Option DistinctMode)
  | [] => []
  | j :: js => j.distincts ++ SubqueryJoin.distinctsAll js
termination_by structural js => js

def CompoundBranch.distincts : CompoundBranch L → List (Option DistinctMode)
  | ⟨_, query⟩ => query.distincts
termination_by structural b => b

def CompoundBranch.distinctsAll : List (CompoundBranch L) → List (Option DistinctMode)
  | [] => []
  | b :: bs => b.distincts ++ CompoundBranch.distinctsAll bs
termination_by structural bs => bs

def SelectQuery.distincts : SelectQuery L → List (Option DistinctMode)
  | ⟨_, whereClause, _, joins, subqueryJoins, orderBy, _, _, _, compound, _, distinct,
      compoundOrderBy, _, _, _⟩ =>
    distinct :: (whereClause.distincts ++ Join.distinctsAll joins
      ++ SubqueryJoin.distinctsAll subqueryJoins ++ OrderItem.distinctsAll orderBy
      ++ CompoundBranch.distinctsAll compound ++ OrderItem.distinctsAll compoundOrderBy)
termination_by structural q => q

def SelectQuery.distinctsOption : Option (SelectQuery L) → List (Option DistinctMode)
  | none => []
  | some q => q.distincts
termination_by structural q => q

def Tree.distinctsOption : Option (Tree L) → List (Option DistinctMode)
  | none => []
  | some t => t.distincts
termination_by structural t => t

def Tree.distinctsNamed : List (String × Tree L) → List (Option DistinctMode)
  | [] => []
  | (_, t) :: ts => t.distincts ++ Tree.distinctsNamed ts
termination_by structural ts => ts

def AggregateQuery.distincts : AggregateQuery L → List (Option DistinctMode)
  | ⟨_, joins, whereClause, _, groupByExprs, aggregates, aliases, having, orderBy, _, _, source⟩ =>
    Join.distinctsAll joins ++ whereClause.distincts ++ Tree.distinctsAll groupByExprs
      ++ Tree.distinctsNamed aggregates ++ Tree.distinctsNamed aliases
      ++ Tree.distinctsOption having ++ OrderItem.distinctsAll orderBy
      ++ SelectQuery.distinctsOption source
termination_by structural q => q

end

/-- A comparison of two parts with the DISTINCT modes `ds` and `ds'`: where it holds the parts have as
many of them, and are the `same` once these agree. -/
def Decides (eq : Bool) (ds ds' : List (Option DistinctMode)) (same : Prop) : Prop :=
  eq = true → ds.length = ds'.length ∧ (ds = ds' → same)

namespace Decides
variable {b c : Bool} {ds ds' es es' : List (Option DistinctMode)} {p q : Prop}

theorem and (h : Decides b ds ds' p) (h' : Decides c es es' q) :
    Decides (b && c) (ds ++ es) (ds' ++ es') (p ∧ q) := by
  intro hb
  rw [Bool.and_eq_true] at hb
  have hleft := h hb.1
  have hright := h' hb.2
  constructor
  · rw [List.length_append, List.length_append, hleft.1, hright.1]
  · intro heq
    have hparts := List.append_inj heq hleft.1
    exact ⟨hleft.2 hparts.1, hright.2 hparts.2⟩

theorem after (h : c = true → q) (h' : Decides b ds ds' p) : Decides (c && b) ds ds' (q ∧ p) := by
  intro hb
  rw [Bool.and_eq_true] at hb
  have hpart := h' hb.2
  exact ⟨hpart.1, fun heq => ⟨h hb.1, hpart.2 heq⟩⟩

theorem before (h' : Decides b ds ds' p) (h : c = true → q) : Decides (b && c) ds ds' (p ∧ q) := by
  intro hb
  rw [Bool.and_eq_true] at hb
  have hpart := h' hb.1
  exact ⟨hpart.1, fun heq => ⟨hpart.2 heq, h hb.2⟩⟩

theorem test (h : b = true → p) : Decides b [] [] p := fun hb => ⟨rfl, fun _ => h hb⟩

theorem cons {d e : Option DistinctMode} (h : Decides b ds ds' p) :
    Decides b (d :: ds) (e :: ds') (d = e ∧ p) := by
  intro hb
  have hpart := h hb
  constructor
  · rw [List.length_cons, List.length_cons, hpart.1]
  · intro heq
    rw [List.cons.injEq] at heq
    exact ⟨heq.1, hpart.2 heq.2⟩

theorem imp (h : Decides b ds ds' p) (hpq : p → q) : Decides b ds ds' q :=
  fun hb => ⟨(h hb).1, fun heq => hpq ((h hb).2 heq)⟩

theorem never : Decides false ds ds' p := fun hb => absurd hb Bool.false_ne_true

end Decides

section Sound
variable [DecidableEq L.Head] [DecidableEq L.Model]

mutual

theorem Tree.beq_decides : ∀ t t' : Tree L, Decides (t.beq t') t.distincts t'.distincts (t = t')
  | .column c, t' => by
    cases t' with
    | column c' => exact (Decides.test eq_of_beq).imp (congrArg Tree.column)
    | _ => exact Decides.never
  | .aliasedColumn a c, t' => by
    cases t' with
    | aliasedColumn a' c' =>
      apply Decides.test
      intro h
      simpa [Tree.beq] using h
    | _ => exact Decides.never
  | .subquery q, t' => by
    cases t' with
    | subquery q' => exact (q.beq_decides q').imp (congrArg Tree.subquery)
    | _ => exact Decides.never
  | .aggregateSubquery q, t' => by
    cases t' with
    | aggregateSubquery q' => exact (q.beq_decides q').imp (congrArg Tree.aggregateSubquery)
    | _ => exact Decides.never
  | .exists_ n q, t' => by
    cases t' with
    | exists_ n' q' =>
      apply ((q.beq_decides q').after eq_of_beq).imp
      rintro ⟨rfl, rfl⟩
      rfl
    | _ => exact Decides.never
  | .inSubquery c n q, t' => by
    cases t' with
    | inSubquery c' n' q' =>
      have htest : (c == c' && n == n') = true → c = c' ∧ n = n' := by simp
      apply ((q.beq_decides q').after htest).imp
      rintro ⟨⟨rfl, rfl⟩, rfl⟩
      rfl
    | _ => exact Decides.never
  | .and items, t' => by
    cases t' with
    | and items' => exact (Tree.beqs_decides items items').imp (congrArg Tree.and)
    | _ => exact Decides.never
  | .or items, t' => by
    cases t' with
    | or items' => exact (Tree.beqs_decides items items').imp (congrArg Tree.or)
    | _ => exact Decides.never
  | .not child, t' => by
    cases t' with
    | not child' => exact (child.beq_decides child').imp (congrArg Tree.not)
    | _ => exact Decides.never
  | .xor items, t' => by
    cases t' with
    | xor items' => exact (Tree.beqs_decides items items').imp (congrArg Tree.xor)
    | _ => exact Decides.never
  | .node h cs, t' => by
    cases t' with
    | node h' cs' =>
      apply ((Tree.beqs_decides cs cs').after eq_of_beq).imp
      rintro ⟨rfl, rfl⟩
      rfl
    | _ => exact Decides.never

theorem Tree.beqs_decides : ∀ ts ts' : List (Tree L),
    Decides (Tree.beqs ts ts') (Tree.distinctsAll ts) (Tree.distinctsAll ts') (ts = ts')
  | [], ts' => by
    cases ts' with
    | nil => exact Decides.test fun _ => rfl
    | cons t' ts' => exact Decides.never
  | t :: ts, ts' => by
    cases ts' with
    | nil => exact Decides.never
    | cons t' ts' =>
      apply ((t.beq_decides t').and (Tree.beqs_decides ts ts')).imp
      rintro ⟨rfl, rfl⟩
      rfl

theorem OrderItem.beq_decides : ∀ o o' : OrderItem L,
    Decides (o.beq o') o.distincts o'.distincts (o = o')
  | .column c d n, o' => by
    cases o' with
    | column c' d' n' =>
      apply Decides.test
      intro h
      simpa [OrderItem.beq, and_assoc] using h
    | _ => exact Decides.never
  | .expr e d n, o' => by
    cases o' with
    | expr e' d' n' =>
      apply (((e.beq_decides e').before eq_of_beq).before eq_of_beq).imp
      rintro ⟨⟨rfl, rfl⟩, rfl⟩
      rfl
    | _ => exact Decides.never
  | .random, o' => by
    cases o' with
    | random => exact Decides.test fun _ => rfl
    | _ => exact Decides.never

theorem OrderItem.beqs_decides : ∀ os os' : List (OrderItem L),
    Decides (OrderItem.beqs os os') (OrderItem.distinctsAll os) (OrderItem.distinctsAll os')
      (os = os')
  | [], os' => by
    cases os' with
    | nil => exact Decides.test fun _ => rfl
    | cons o' os' => exact Decides.never
  | o :: os, os' => by
    cases os' with
    | nil => exact Decides.never
    | cons o' os' =>
      apply ((o.beq_decides o').and (OrderItem.beqs_decides os os')).imp
      rintro ⟨rfl, rfl⟩
      rfl

theorem Join.beq_decides : ∀ j j' : Join L, Decides (j.beq j') j.distincts j'.distincts (j = j')
  | ⟨target, alias_, kind, on_, project⟩, ⟨target', alias', kind', on', project'⟩ => by
    have htest : (target == target' && alias_ == alias' && kind == kind') = true →
        target = target' ∧ alias_ = alias' ∧ kind = kind' := by simp [and_assoc]
    apply (((on_.beq_decides on').after htest).before eq_of_beq).imp
    rintro ⟨⟨⟨rfl, rfl, rfl⟩, rfl⟩, rfl⟩
    rfl

theorem Join.beqs_decides : ∀ js js' : List (Join L),
    Decides (Join.beqs js js') (Join.distinctsAll js) (Join.distinctsAll js') (js = js')
  | [], js' => by
    cases js' with
    | nil => exact Decides.test fun _ => rfl
    | cons j' js' => exact Decides.never
  | j :: js, js' => by
    cases js' with
    | nil => exact Decides.never
    | cons j' js' =>
      apply ((j.beq_decides j').and (Join.beqs_decides js js')).imp
      rintro ⟨rfl, rfl⟩
      rfl

theorem DerivedSource.beq_decides : ∀ s s' : DerivedSource L,
    Decides (s.beq s') s.distincts s'.distincts (s = s')
  | .select q, s' => by
    cases s' with
    | select q' => exact (q.beq_decides q').imp (congrArg DerivedSource.select)
    | _ => exact Decides.never
  | .aggregate q, s' => by
    cases s' with
    | aggregate q' => exact (q.beq_decides q').imp (congrArg DerivedSource.aggregate)
    | _ => exact Decides.never

theorem SubqueryJoin.beq_decides : ∀ j j' : SubqueryJoin L,
    Decides (j.beq j') j.distincts j'.distincts (j = j')
  | ⟨subquery, alias_, kind, on_, lateral⟩, ⟨subquery', alias', kind', on', lateral'⟩ => by
    have hsource := ((subquery.beq_decides subquery').before
      (c := alias_ == alias') eq_of_beq).before (c := kind == kind') eq_of_beq
    apply ((hsource.and (on_.beq_decides on')).before eq_of_beq).imp
    rintro ⟨⟨⟨⟨rfl, rfl⟩, rfl⟩, rfl⟩, rfl⟩
    rfl

theorem SubqueryJoin.beqs_decides : ∀ js js' : List (SubqueryJoin L),
    Decides (SubqueryJoin.beqs js js') (SubqueryJoin.distinctsAll js)
      (SubqueryJoin.distinctsAll js') (js = js')
  | [], js' => by
    cases js' with
    | nil => exact Decides.test fun _ => rfl
    | cons j' js' => exact Decides.never
  | j :: js, js' => by
    cases js' with
    | nil => exact Decides.never
    | cons j' js' =>
      apply ((j.beq_decides j').and (SubqueryJoin.beqs_decides js js')).imp
      rintro ⟨rfl, rfl⟩
      rfl

theorem CompoundBranch.beq_decides : ∀ b b' : CompoundBranch L,
    Decides (b.beq b') b.distincts b'.distincts (b = b')
  | ⟨op, query⟩, ⟨op', query'⟩ => by
    apply ((query.beq_decides query').after eq_of_beq).imp
    rintro ⟨rfl, rfl⟩
    rfl

theorem CompoundBranch.beqs_decides : ∀ bs bs' : List (CompoundBranch L),
    Decides (CompoundBranch.beqs bs bs') (CompoundBranch.distinctsAll bs)
      (CompoundBranch.distinctsAll bs') (bs = bs')
  | [], bs' => by
    cases bs' with
    | nil => exact Decides.test fun _ => rfl
    | cons b' bs' => exact Decides.never
  | b :: bs, bs' => by
    cases bs' with
    | nil => exact Decides.never
    | cons b' bs' =>
      apply ((b.beq_decides b').and (CompoundBranch.beqs_decides bs bs')).imp
      rintro ⟨rfl, rfl⟩
      rfl

theorem SelectQuery.beq_decides : ∀ q q' : SelectQuery L,
    Decides (q.beq q') q.distincts q'.distincts (q = q')
  | ⟨model, whereClause, search, joins, subqueryJoins, orderBy, limit, offset, lockMode, compound,
      projection, distinct, compoundOrderBy, compoundLimit, compoundOffset, selectRelated⟩,
    ⟨model', whereClause', search', joins', subqueryJoins', orderBy', limit', offset', lockMode',
      compound', projection', distinct', compoundOrderBy', compoundLimit', compoundOffset',
      selectRelated'⟩ => by
    have hwhere := ((whereClause.beq_decides whereClause').after
      (eq_of_beq (a := model) (b := model'))).before (eq_of_beq (a := search) (b := search'))
    have hjoins := (hwhere.and (Join.beqs_decides joins joins')).and
      (SubqueryJoin.beqs_decides subqueryJoins subqueryJoins')
    have horder := (((hjoins.and (OrderItem.beqs_decides orderBy orderBy')).before
      (eq_of_beq (a := limit) (b := limit'))).before
      (eq_of_beq (a := offset) (b := offset'))).before
      (eq_of_beq (a := lockMode) (b := lockMode'))
    have hcompound := (horder.and (CompoundBranch.beqs_decides compound compound')).before
      (eq_of_beq (a := projection) (b := projection'))
    have hmerged := (((hcompound.and
      (OrderItem.beqs_decides compoundOrderBy compoundOrderBy')).before
      (eq_of_beq (a := compoundLimit) (b := compoundLimit'))).before
      (eq_of_beq (a := compoundOffset) (b := compoundOffset'))).before
      (eq_of_beq (a := selectRelated) (b := selectRelated'))
    apply (hmerged.cons (d := distinct) (e := distinct')).imp
    intro h
    simp only [SelectQuery.mk.injEq]
    tauto

theorem SelectQuery.beqOption_decides : ∀ q q' : Option (SelectQuery L),
    Decides (SelectQuery.beqOption q q') (SelectQuery.distinctsOption q)
      (SelectQuery.distinctsOption q') (q = q')
  | none, q' => by
    cases q' with
    | none => exact Decides.test fun _ => rfl
    | some q' => exact Decides.never
  | some q, q' => by
    cases q' with
    | none => exact Decides.never
    | some q' => exact (q.beq_decides q').imp (congrArg some)

theorem Tree.beqOption_decides : ∀ t t' : Option (Tree L),
    Decides (Tree.beqOption t t') (Tree.distinctsOption t) (Tree.distinctsOption t') (t = t')
  | none, t' => by
    cases t' with
    | none => exact Decides.test fun _ => rfl
    | some t' => exact Decides.never
  | some t, t' => by
    cases t' with
    | none => exact Decides.never
    | some t' => exact (t.beq_decides t').imp (congrArg some)

theorem Tree.beqNamed_decides : ∀ ts ts' : List (String × Tree L),
    Decides (Tree.beqNamed ts ts') (Tree.distinctsNamed ts) (Tree.distinctsNamed ts') (ts = ts')
  | [], ts' => by
    cases ts' with
    | nil => exact Decides.test fun _ => rfl
    | cons t' ts' => exact Decides.never
  | (n, t) :: ts, ts' => by
    cases ts' with
    | nil => exact Decides.never
    | cons t' ts' =>
      apply (((t.beq_decides t'.2).after eq_of_beq).and (Tree.beqNamed_decides ts ts')).imp
      rintro ⟨⟨rfl, rfl⟩, rfl⟩
      rfl

theorem AggregateQuery.beq_decides : ∀ q q' : AggregateQuery L,
    Decides (q.beq q') q.distincts q'.distincts (q = q')
  | ⟨model, joins, whereClause, groupBy, groupByExprs, aggregates, aliases, having, orderBy, limit,
      offset, source⟩,
    ⟨model', joins', whereClause', groupBy', groupByExprs', aggregates', aliases', having', orderBy',
      limit', offset', source'⟩ => by
    have hwhere := (((Join.beqs_decides joins joins').after
      (eq_of_beq (a := model) (b := model'))).and (whereClause.beq_decides whereClause')).before
      (eq_of_beq (a := groupBy) (b := groupBy'))
    have hexprs := ((hwhere.and (Tree.beqs_decides groupByExprs groupByExprs')).and
      (Tree.beqNamed_decides aggregates aggregates')).and
      (Tree.beqNamed_decides aliases aliases')
    have htail := (((hexprs.and (Tree.beqOption_decides having having')).and
      (OrderItem.beqs_decides orderBy orderBy')).before
      (eq_of_beq (a := limit) (b := limit'))).before (eq_of_beq (a := offset) (b := offset'))
    apply (htail.and (SelectQuery.beqOption_decides source source')).imp
    intro h
    simp only [AggregateQuery.mk.injEq]
    tauto

end

/-- Two equal queries are one query, and every dialect writes them alike, when their DISTINCT modes
agree at every SELECT in them. -/
theorem select_beq_iff (layout : Layout L) (q q' : SelectQuery L) (h : q.beq q' = true) :
    (q = q' ↔ q.distincts = q'.distincts) ∧
      (q.distincts = q'.distincts →
        ∀ d, compileSelect layout d q = compileSelect layout d q') := by
  have hdecides := q.beq_decides q' h
  constructor
  · constructor
    · intro heq
      rw [heq]
    · exact hdecides.2
  · intro hmodes d
    rw [hdecides.2 hmodes]

end Sound

private abbrev postModels : Lang where
  Head := Empty
  Value := Unit
  Model := Unit
  schema := fun _ => ⟨"post", ["id"], ["id"]⟩

private def plainLayout : Layout postModels where
  pieces := fun _ head _ => head.elim
  search := fun _ _ _ => []

private def everyPost : SelectQuery postModels := .new ()

private def distinctPosts : SelectQuery postModels := { everyPost with distinct := some .all }

theorem select_beq_forgets :
    ¬ ∀ q q' : SelectQuery postModels, q.beq q' = true →
      ∀ d, compileSelect plainLayout d q = compileSelect plainLayout d q' := by
  intro h
  have heq := h everyPost distinctPosts rfl .postgres
  have hplain : compileSelect plainLayout .postgres everyPost = .ok
      [(1, .word (.text "SELECT ")), (1, .word (.ident "id")), (1, .word (.text " FROM ")),
        (1, .word (.ident "post"))] := rfl
  have hdistinct : compileSelect plainLayout .postgres distinctPosts = .ok
      [(1, .word (.text "SELECT ")), (1, .word (.text "DISTINCT ")), (1, .word (.ident "id")),
        (1, .word (.text " FROM ")), (1, .word (.ident "post"))] := rfl
  rw [hplain, hdistinct] at heq
  simp at heq

theorem select_beq_posts : everyPost.beq distinctPosts = true ∧ everyPost ≠ distinctPosts := by
  have hdecides := select_beq_iff plainLayout everyPost distinctPosts rfl
  refine ⟨rfl, fun heq => ?_⟩
  have hmodes : [none] = [some DistinctMode.all] := hdecides.1.1 heq
  simp at hmodes

end Rustango.Writer
