import Rustango.Lib.Outcome
import Rustango.Query.Joins

/-!
# What a compiled queryset holds

The parts of a successful `compile`, read off the queryset, and that its relation joins are to-one.
-/

namespace Rustango.Query

open Rustango.Outcome

variable {L : Lang}

/-- The tables of a database that fits the models: the model's rows are told apart (their address is a
column as well), a primary key is unique and holds no NULL, and what a relation points at is unique. -/
structure Fits (m : Meaning L) (core : Core L) (db : Database L) (model : ModelSchema L) : Prop where
  nodup : (db model.table).Nodup
  notNull : ∀ r ∈ db model.table, ∀ f ∈ model.fields, f.primaryKey → r f.column ≠ m.null
  unique : model.primaryKey.isSome → (db model.table).Pairwise fun r r' =>
    ∃ f ∈ model.fields, f.primaryKey ∧ m.tied (r f.column) (r' f.column) = false
  relations : ∀ s, (s = model ∨ ∃ t, core.forTable t = some s) → ∀ f ∈ s.fields, ∀ rel,
    f.relation = some rel → UniqueColumn m (db rel.target.1) rel.target.2

section Relations
variable {m : Meaning L} {core : Core L} {db : Database L} {model : ModelSchema L}

private theorem nextAlias_ne {h : Hops L} {seg alias_ : String} (ha : h.nextAlias seg = .ok alias_) :
    h.prevAlias model = model.table ∨ h.prevAlias model ≠ alias_ := by
  cases hp : h.path with
  | none => exact Or.inl (by rw [Hops.prevAlias, hp, Option.getD_none])
  | some path =>
    right
    rw [Hops.prevAlias, hp, Option.getD_some]
    have hlong : alias_ = path ++ "__" ++ seg := by
      simp only [Hops.nextAlias, hp, internJoinAlias] at ha
      split at ha
      · cases ha
      · exact (Except.ok.inj ha).symm
    intro heq
    have hlen := congrArg String.length (heq.trans hlong)
    have h2 : "__".length = 2 := by decide
    rw [String.length_append, String.length_append, h2] at hlen
    omega

variable (core model) in
/-- A walk that has joined only along relations. -/
def Walked (m : Meaning L) (db : Database L) (h : Hops L) : Prop :=
  (∀ j ∈ h.joins, ToOne m db model.table j) ∧
    (h.current = model ∨ ∃ t, core.forTable t = some h.current)

variable (hdb : Fits m core db model)
include hdb

private theorem relationJoin_toOne {h : Hops L}
    (hcur : h.current = model ∨ ∃ t, core.forTable t = some h.current)
    {seg alias_ : String} {f : FieldSchema} {rel : Relation} {target : ModelSchema L}
    (hf : h.current.field seg = some f) (hrel : f.relation = some rel)
    (ht : core.forTable rel.target.1 = some target) (ha : h.nextAlias seg = .ok alias_)
    (project : List String) : ToOne m db model.table
      (relationJoin target (h.prevAlias model) f.column alias_ rel.target.2 project) := by
  have hunique := hdb.relations h.current hcur f (List.mem_of_find?_eq_some hf) rel hrel
  rw [← core.forTable_table _ _ ht] at hunique
  exact ⟨rfl, _, _, _, rfl, nextAlias_ne ha, hunique⟩

private theorem spanHops_walked {h h' : Hops L} {segs rest : List String} (hw : Walked core model m db h)
    (heq : spanHops core model h segs = .ok (h', rest)) : Walked core model m db h' := by
  induction segs generalizing h with
  | nil =>
    rw [spanHops] at heq
    obtain ⟨rfl, -⟩ := Prod.mk.inj (Except.ok.inj heq)
    exact hw
  | cons seg segs ih =>
    cases segs with
    | nil =>
      rw [spanHops] at heq
      obtain ⟨rfl, -⟩ := Prod.mk.inj (Except.ok.inj heq)
      exact hw
    | cons seg' segs =>
      rw [spanHops] at heq
      · split at heq
        · obtain ⟨rfl, -⟩ := Prod.mk.inj (Except.ok.inj heq)
          exact hw
        · rename_i f to_ on_ hfield
          obtain ⟨f', hf, hmap⟩ := Option.bind_eq_some_iff.mp hfield
          obtain ⟨rel, hrel, hpair⟩ := Option.map_eq_some_iff.mp hmap
          obtain ⟨rfl, htarget⟩ := Prod.mk.inj hpair
          obtain ⟨target, ht, heq⟩ := bind_eq_ok.mp heq
          obtain ⟨alias_, ha, heq⟩ := bind_eq_ok.mp heq
          have hreg : core.forTable rel.target.1 = some target := by
            rw [htarget]
            exact okOr_eq_ok.mp ht
          have hjoin := relationJoin_toOne hdb hw.2 hf hrel hreg ha []
          rw [htarget] at hjoin
          refine ih ⟨?_, Or.inr ⟨_, hreg⟩⟩ heq
          intro j hj
          rcases List.mem_append.mp hj with hj | hj
          · exact hw.1 j hj
          · rw [List.mem_singleton] at hj
            exact hj ▸ hjoin
      · simp

private theorem resolveSpanChain_walked {rawKey : String} {h : Hops L} {rest : List String}
    (heq : resolveSpanChain core model rawKey = .ok (h, rest)) : Walked core model m db h := by
  obtain ⟨⟨h', rest'⟩, hspan, heq⟩ := bind_eq_ok.mp heq
  have hw : Walked core model m db h' :=
    spanHops_walked hdb ⟨by simp, Or.inl rfl⟩ hspan
  simp only at heq
  split at heq
  · cases heq
  · obtain ⟨rfl, -⟩ := Prod.mk.inj (Except.ok.inj heq)
    exact hw

omit hdb in
private theorem pushJoin_toOne {p : Join L → Prop} {joins : List (Join L)} {j : Join L} (hjs : ∀ j ∈ joins, p j)
    (hj : p j) : ∀ j' ∈ pushJoin joins j, p j' := by
  intro j' hj'
  unfold pushJoin at hj'
  split at hj'
  · exact hjs j' hj'
  · rcases List.mem_append.mp hj' with hj' | hj'
    · exact hjs j' hj'
    · exact List.mem_singleton.mp hj' ▸ hj

omit hdb in
private theorem foldl_pushJoin {p : Join L → Prop} {js joins : List (Join L)} (hjoins : ∀ j ∈ joins, p j)
    (hjs : ∀ j ∈ js, p j) : ∀ j ∈ js.foldl pushJoin joins, p j := by
  induction js generalizing joins with
  | nil => exact hjoins
  | cons j js ih =>
    exact ih (pushJoin_toOne hjoins (hjs j List.mem_cons_self))
      fun j' hj' => hjs j' (List.mem_cons_of_mem j hj')

theorem lowerOrderItems_toOne {items : List (PendingOrderItem L)} {orderBy : List (OrderItem L)}
    {joins : List (Join L)} (h : lowerOrderItems core model items = .ok (orderBy, joins)) :
    ∀ j ∈ joins, ToOne m db model.table j := by
  obtain ⟨lowered, hlowered, h⟩ := bind_eq_ok.mp h
  obtain ⟨-, rfl⟩ := Prod.mk.inj (Except.ok.inj h)
  refine foldl_pushJoin (by simp) fun j hj => ?_
  obtain ⟨lo, hlo, hj⟩ := List.mem_flatMap.mp hj
  obtain ⟨item, -, hitem⟩ := exists_of_mapM hlowered hlo
  cases item with
  | expr x desc nulls =>
    rw [lowerOrderItem] at hitem
    obtain rfl := Except.ok.inj hitem
    cases hj
  | random =>
    rw [lowerOrderItem] at hitem
    obtain rfl := Except.ok.inj hitem
    cases hj
  | field name desc nulls =>
    rw [lowerOrderItem] at hitem
    split at hitem
    · obtain rfl := Except.ok.inj hitem
      cases hj
    · split at hitem
      · obtain ⟨⟨h, terminal⟩, hchain, hitem⟩ := bind_eq_ok.mp hitem
        simp only at hitem
        split at hitem
        · obtain ⟨field, -, hitem⟩ := bind_eq_ok.mp hitem
          obtain rfl := Except.ok.inj hitem
          exact (resolveSpanChain_walked hdb hchain).1 j hj
        · cases hitem
      · cases hitem

private theorem selectRelatedHop_walked {name hop : String} {depth : Nat} {h h' : Hops L}
    (hw : Walked core model m db h)
    (heq : selectRelatedHop core model name depth h hop = .ok h') : Walked core model m db h' := by
  rw [selectRelatedHop] at heq
  obtain ⟨f, hf, heq⟩ := bind_eq_ok.mp heq
  obtain ⟨rel, hrel, heq⟩ := bind_eq_ok.mp heq
  obtain ⟨target, ht, heq⟩ := bind_eq_ok.mp heq
  obtain ⟨alias_, ha, heq⟩ := bind_eq_ok.mp heq
  obtain rfl := Except.ok.inj heq
  have hreg := okOr_eq_ok.mp ht
  have hjoin := relationJoin_toOne hdb hw.2 (okOr_eq_ok.mp hf) (okOr_eq_ok.mp hrel) hreg ha
    (target.fields.map (·.column))
  exact ⟨pushJoin_toOne hw.1 hjoin, Or.inr ⟨_, hreg⟩⟩

private theorem selectRelatedHops_walked {name : String} {depth : Nat} {hops : List String} {h h' : Hops L}
    (hw : Walked core model m db h)
    (heq : selectRelatedHops core model name depth h hops = .ok h') : Walked core model m db h' := by
  induction hops generalizing depth h with
  | nil =>
    rw [selectRelatedHops] at heq
    exact Except.ok.inj heq ▸ hw
  | cons hop hops ih =>
    rw [selectRelatedHops] at heq
    obtain ⟨h₁, hhop, heq⟩ := bind_eq_ok.mp heq
    exact ih (selectRelatedHop_walked hdb hw hhop) heq

theorem lowerSelectRelated_toOne {names : List String} {joins : List (Join L)}
    (h : lowerSelectRelated core model names = .ok joins) :
    ∀ j ∈ joins, ToOne m db model.table j := by
  refine foldlM_invariant (fun joins => ∀ j ∈ joins, ToOne m db model.table j) ?_
    (by simp) h
  intro joins name joins' _ hjoins hstep
  simp only at hstep
  split at hstep
  · cases hstep
  · obtain ⟨hops, hhops, rfl⟩ := map_eq_ok.mp hstep
    exact (selectRelatedHops_walked hdb ⟨hjoins, Or.inl rfl⟩ hhops).1

omit hdb in
theorem mergeRelationJoin_all {p : Join L → Prop} {adHoc : List String} {js joins joins' : List (Join L)}
    (hjoins : ∀ j ∈ joins, p j) (hjs : ∀ j ∈ js, p j)
    (h : js.foldlM (mergeRelationJoin core adHoc) joins = .ok joins') : ∀ j ∈ joins', p j := by
  refine foldlM_invariant (fun joins => ∀ j ∈ joins, p j) ?_ hjoins h
  intro joins j joins' hj hjoins hstep
  unfold mergeRelationJoin at hstep
  split at hstep
  · split at hstep
    · cases hstep
    · exact Except.ok.inj hstep ▸ hjoins
  · obtain rfl := Except.ok.inj hstep
    intro j' hj'
    rcases List.mem_append.mp hj' with hj' | hj'
    · exact hjoins j' hj'
    · exact List.mem_singleton.mp hj' ▸ hjs j hj

end Relations

namespace QuerySet
variable (qs : QuerySet L)

@[simp] theorem applyReverse_pending : qs.applyReverse.pending = qs.pending := by
  unfold applyReverse
  split <;> rfl

/-- A queryset as `compile` and the writes read it. -/
def prepared : QuerySet L := qs.applyGlobalScopes.applyReverse

/-- Scopes add filters and a pending reverse flips the order; nothing else changes. -/
theorem prepared_eq : qs.prepared = { qs with
    pending := qs.prepared.pending
    orderBy := qs.prepared.orderBy
    reversed := false } := by
  unfold prepared applyGlobalScopes applyReverse
  split
  · split
    · rfl
    · rename_i h
      rw [Bool.not_eq_true] at h
      rw [← h]
  · split
    · rfl
    · rename_i h
      simp only [Bool.not_eq_true] at h
      rw [← h]

/-- The order of the head, and that of the combined rows of a set operation. -/
def headItems : List (PendingOrderItem L) :=
  if qs.compound.isEmpty then qs.prepared.orderBy else qs.headOrderBy

def combinedItems : List (PendingOrderItem L) :=
  if qs.compound.isEmpty then [] else qs.prepared.orderBy

/-- What a successful `compile` lowers, in the order in which it merges the joins, and the slots that
the slices go to. -/
structure Compiled (core : Core L) (q : SelectQuery L) : Prop where
  model : q.model = qs.model
  lowered : ∃ pending spanJoins related added joins orderJoins combinedJoins,
    lowerRelationSpans core qs.model [] qs.prepared.pending = .ok (pending, spanJoins) ∧
    resolvePending core qs.model pending = .ok q.whereClause ∧
    lowerSelectRelated core qs.model qs.selectRelated = .ok related ∧
    addAdHocJoins related qs.adHocJoins = .ok added ∧
    spanJoins.foldlM (mergeRelationJoin core (qs.adHocJoins.map (·.alias_))) added = .ok joins ∧
    lowerOrderItems core qs.model qs.headItems = .ok (q.orderBy, orderJoins) ∧
    lowerOrderItems core qs.model qs.combinedItems = .ok (q.compoundOrderBy, combinedJoins) ∧
    (orderJoins ++ combinedJoins).foldlM
      (mergeRelationJoin core (qs.adHocJoins.map (·.alias_))) joins = .ok q.joins
  subqueryJoins : q.subqueryJoins = qs.subqueryJoins
  limit : q.limit = if qs.compound.isEmpty then (if qs.isNone then some 0 else qs.limit) else qs.headLimit
  offset : q.offset = if qs.compound.isEmpty then qs.offset else qs.headOffset
  lockMode : q.lockMode = qs.lockMode
  compound : q.compound = qs.compound
  projection : q.projection = none
  distinct : q.distinct = qs.distinct
  ordered : checkDistinct qs.model q.orderBy qs.distinct = .ok ()
  compoundLimit : q.compoundLimit =
    if qs.compound.isEmpty then none else if qs.isNone then some 0 else qs.limit
  compoundOffset : q.compoundOffset = if qs.compound.isEmpty then none else qs.offset

/-- What a successful `compile` of a queryset without set operations and ad-hoc joins holds. -/
structure Plain (core : Core L) (q : SelectQuery L) : Prop where
  model : q.model = qs.model
  filters : ∃ pending spanJoins, lowerRelationSpans core qs.model [] qs.prepared.pending =
    .ok (pending, spanJoins) ∧ resolvePending core qs.model pending = .ok q.whereClause ∧
      ∃ related joins orderJoins, lowerSelectRelated core qs.model qs.selectRelated = .ok related ∧
        spanJoins.foldlM (mergeRelationJoin core []) related = .ok joins ∧
        lowerOrderItems core qs.model qs.prepared.orderBy = .ok (q.orderBy, orderJoins) ∧
        orderJoins.foldlM (mergeRelationJoin core []) joins = .ok q.joins
  subqueryJoins : q.subqueryJoins = []
  limit : q.limit = if qs.isNone then some 0 else qs.limit
  offset : q.offset = qs.offset
  compound : q.compound = []
  projection : q.projection = none
  distinct : q.distinct = qs.distinct
  ordered : checkDistinct qs.model q.orderBy qs.distinct = .ok ()

variable {qs} {core : Core L} {q : SelectQuery L}

theorem compiled_of_compile (h : qs.compile core = .ok q) : qs.Compiled core q := by
  rw [compile, show qs.applyGlobalScopes.applyReverse = qs.prepared from rfl, prepared_eq] at h
  obtain ⟨⟨pending, spanJoins⟩, hpending, h⟩ := bind_eq_ok.mp h
  obtain ⟨whereClause, hwhere, h⟩ := bind_eq_ok.mp h
  obtain ⟨related, hrelated, h⟩ := bind_eq_ok.mp h
  obtain ⟨added, hadd, h⟩ := bind_eq_ok.mp h
  obtain ⟨joins, hjoins, h⟩ := bind_eq_ok.mp h
  cases hc : qs.compound.isEmpty
  all_goals
    simp only [hc, Bool.not_true, Bool.not_false, Bool.false_eq_true, if_false, if_true] at h
    obtain ⟨⟨orderBy, orderJoins⟩, horder, h⟩ := bind_eq_ok.mp h
    obtain ⟨⟨combined, combinedJoins⟩, hcombined, h⟩ := bind_eq_ok.mp h
    obtain ⟨joins', hmerged, h⟩ := bind_eq_ok.mp h
    obtain ⟨_, hordered, h⟩ := bind_eq_ok.mp h
    obtain rfl := Except.ok.inj h
    refine ⟨rfl, ⟨pending, spanJoins, related, added, joins, orderJoins, combinedJoins, hpending,
      hwhere, hrelated, hadd, hjoins, ?_, ?_, hmerged⟩, rfl, ?_, ?_, rfl, rfl, rfl, rfl, hordered, ?_, ?_⟩
    · simpa only [headItems, hc, Bool.false_eq_true, if_false, if_true] using horder
    · simpa only [combinedItems, hc, Bool.false_eq_true, if_false, if_true] using hcombined
    all_goals cases qs.isNone <;> simp [hc]

theorem plain_of_compile (h : qs.compile core = .ok q) (hcompound : qs.compound = [])
    (hadHoc : qs.adHocJoins = []) (hsub : qs.subqueryJoins = []) : qs.Plain core q := by
  have hq := compiled_of_compile h
  have hempty : qs.compound.isEmpty = true := by rw [hcompound, List.isEmpty_nil]
  obtain ⟨pending, spanJoins, related, added, joins, orderJoins, combinedJoins, hpending, hwhere,
    hrelated, hadd, hjoins, horder, hcombined, hmerged⟩ := hq.lowered
  rw [hadHoc] at hadd hjoins hmerged
  rw [headItems, if_pos hempty] at horder
  rw [combinedItems, if_pos hempty] at hcombined
  obtain rfl := Except.ok.inj hadd
  obtain ⟨-, rfl⟩ := Prod.mk.inj (Except.ok.inj hcombined)
  refine ⟨hq.model, ⟨pending, spanJoins, hpending, hwhere, related, joins, orderJoins, hrelated, hjoins,
    horder, ?_⟩, hq.subqueryJoins.trans hsub, ?_, ?_, hq.compound.trans hcompound, hq.projection,
    hq.distinct, hq.ordered⟩
  · simpa using hmerged
  · rw [hq.limit, if_pos hempty]
  · rw [hq.offset, if_pos hempty]

end QuerySet

def book : ModelSchema IntLang where
  name := "Book"
  table := "book"
  fields := [⟨"id", "id", true, none⟩, ⟨"author", "author", false, none⟩]
  globalScopes := []

/-- A registry of books alone, whose lookups compare for equality. -/
def bookCore : Core IntLang where
  forTable t := if t = "book" then some book else none
  forTable_table t s h := by
    split at h
    · rename_i ht
      exact ht ▸ Option.some.inj h ▸ rfl
    · cases h
  parseLookup key value := .ok (.raw key .eq value)
  checkValueType _ _ _ _ := .ok ()
  validate _ _ := .ok ()
  validateExpr _ _ := .ok ()
  sameExpr _ _ := false

def bookRow (id author : Int) : Row IntLang := fun column =>
  if column = "id" then some id else if column = "author" then some author else none

/-- Two books of one author. -/
def twoBooks : Database IntLang := fun table =>
  if table = "book" then [bookRow 1 7, bookRow 2 7] else []

end Rustango.Query
