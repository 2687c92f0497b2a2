import Rustango.Query.Compile
import Rustango.Query.PathJoins

/-!
# The names of a query

The base table, its joins and its joined subqueries each have a name, and a qualified column names
one of them. `compile` keeps the aliases of the joins apart, and those of one relation path together;
it looks neither at the name of the base table nor at the aliases of the subqueries.
-/

namespace Rustango.Query

open Rustango.Outcome Rustango.Pieces

variable {L : Lang}

section Qualifiers
variable (scalar : L.Scalar → List String) (leaf : L.Leaf → List String)

/-- What qualifies the columns of an expression. -/
def Expr.qualifiers : Expr L → List String
  | .literal _ => []
  | .column _ => []
  | .aliasedColumn alias_ _ => [alias_]
  | .scalar x => scalar x

mutual

def WhereExpr.qualifiers : WhereExpr L Empty → List String
  | .predicate _ => []
  | .exprCompare lhs _ rhs => lhs.qualifiers scalar ++ rhs.qualifiers scalar
  | .leaf p => leaf p
  | .and items => WhereExpr.qualifiersAll items
  | .or items => WhereExpr.qualifiersAll items
  | .not child => child.qualifiers
  | .xor items => WhereExpr.qualifiersAll items
  | .inSubquery _ _ q => nomatch q

def WhereExpr.qualifiersAll : List (WhereExpr L Empty) → List String
  | [] => []
  | w :: ws => w.qualifiers ++ WhereExpr.qualifiersAll ws

end

theorem WhereExpr.qualifiersAll_eq (ws : List (WhereExpr L Empty)) :
    WhereExpr.qualifiersAll scalar leaf ws = ws.flatMap (·.qualifiers scalar leaf) := by
  induction ws with
  | nil => rw [WhereExpr.qualifiersAll, List.flatMap_nil]
  | cons w ws ih => rw [WhereExpr.qualifiersAll, ih, List.flatMap_cons]

-- Their equations are derived here, once for all the proofs that unfold them.
attribute [local simp] Expr.qualifiers WhereExpr.qualifiers WhereExpr.qualifiersAll

end Qualifiers

/-- What qualifies columns inside the parts of a query that are only carried along. A subquery reads
the outer query's columns, and a call those of its argument. -/
structure Qualifying (g : Grammar L) where
  scalar : L.Scalar → List String
  leaf : L.Leaf → List String
  derived : L.Derived → List String
  call : ∀ fn x, (g.call fn x).qualifiers scalar = x.qualifiers scalar

section Read
variable {g : Grammar L} (c : Qualifying g)

def OrderItem.qualifiers : OrderItem L → List String
  | .expr x _ _ => x.qualifiers c.scalar
  | _ => []

def Join.qualifiers (j : Join L) : List String := j.on_.qualifiers c.scalar c.leaf

def SubqueryJoin.qualifiers (j : SubqueryJoin L) : List String :=
  c.derived j.subquery ++ j.on_.qualifiers c.scalar c.leaf

/-- The qualifiers of the column references of a query. -/
def SelectQuery.references (q : SelectQuery L) : List String :=
  q.whereClause.qualifiers c.scalar c.leaf ++ q.joins.flatMap (·.qualifiers c) ++
    q.subqueryJoins.flatMap (·.qualifiers c) ++ (q.orderBy ++ q.compoundOrderBy).flatMap (·.qualifiers c)

/-- The base table and the aliases of the joins. -/
def SelectQuery.names (q : SelectQuery L) : List String := q.model.table :: q.aliases

def SelectQuery.joinNamed (q : SelectQuery L) (alias_ : String) : Option (Join L) :=
  q.joins.find? fun j => j.alias_ = alias_

def PendingFilter.qualifiers (model : ModelSchema L) : PendingFilter L → List String
  | .dateTransform name transform _ _ =>
    ((model.field name).map fun f => (transform (.column f.column)).qualifiers c.scalar).getD []
  | .expr w => w.qualifiers c.scalar c.leaf
  | .negated inner => inner.qualifiers model
  | _ => []

def PendingOrderItem.qualifiers : PendingOrderItem L → List String
  | .expr x _ _ => x.qualifiers c.scalar
  | _ => []

namespace QuerySet
variable (core : Core L) (qs : QuerySet L)

/-- The qualifiers that the user's own expressions hold. -/
def qualifiers : List String :=
  qs.prepared.pending.flatMap (·.qualifiers c qs.model) ++ qs.adHocJoins.flatMap (·.qualifiers c) ++
    qs.subqueryJoins.flatMap (·.qualifiers c) ++
      (qs.headItems ++ qs.combinedItems).flatMap (·.qualifiers c)

/-- The keys that span relations. -/
def spanKeys : List String :=
  qs.prepared.pending.filterMap (·.spanKey) ++
    (qs.headItems ++ qs.combinedItems).filterMap (·.spanKey qs.model)

/-- The relation paths that are joined, of names and of keys. -/
def RelationPath (p : List String) : Prop :=
  (∃ name ∈ qs.selectRelated, NamePath name p) ∨ ∃ key ∈ qs.spanKeys, KeyPath core qs.model key p

/-- The base table, an ad-hoc join, a subquery and a path have no name in common, and the user's own
expressions name one of them. -/
structure NamesApart : Prop where
  table : ∀ p, qs.RelationPath core p → pathAlias p ≠ qs.model.table
  adHoc : ∀ j ∈ qs.adHocJoins, j.alias_ ≠ qs.model.table
  subqueries : (qs.model.table :: qs.subqueryJoins.map (·.alias_)).Nodup
  subqueryPath : ∀ s ∈ qs.subqueryJoins, ∀ p, qs.RelationPath core p → s.alias_ ≠ pathAlias p
  subqueryAdHoc : ∀ s ∈ qs.subqueryJoins, ∀ j ∈ qs.adHocJoins, s.alias_ ≠ j.alias_
  named : ∀ a ∈ qs.qualifiers c, a = qs.model.table ∨ (∃ p, qs.RelationPath core p ∧ a = pathAlias p) ∨
    (∃ j ∈ qs.adHocJoins, a = j.alias_) ∨ ∃ s ∈ qs.subqueryJoins, a = s.alias_

end QuerySet

/-- What the names of a compiled query owe: each name once, each reference to one of them, and a join
for each relation path, shared by no other path. -/
structure NamesRight (core : Core L) (qs : QuerySet L) (q : SelectQuery L) : Prop where
  distinct : q.names.Nodup
  references : ∀ a ∈ q.references c, q.names.count a = 1
  served : ∀ p, qs.RelationPath core p →
    ∃ j, q.joinNamed (pathAlias p) = some j ∧ Serves core qs.model p j
  shared : ∀ p p', qs.RelationPath core p → qs.RelationPath core p' →
    (q.joinNamed (pathAlias p) = q.joinNamed (pathAlias p') ↔ p = p')

-- Their equations are derived here, once for all the proofs that unfold them.
attribute [local simp] OrderItem.qualifiers PendingFilter.qualifiers PendingOrderItem.qualifiers SelectQuery.names

end Read

/-- These qualifiers are the user's own and aliases of these paths. -/
structure Draws (W : List String → Prop) (own qualifiers : List String) : Prop where
  kept : ∀ a ∈ own, a ∈ qualifiers
  drawn : ∀ a ∈ qualifiers, a ∈ own ∨ ∃ p, W p ∧ a = pathAlias p

section Draws
variable {W V : List String → Prop} {own own' qualifiers qualifiers' : List String}

private theorem draws_self (own : List String) : Draws W own own := ⟨fun _ => id, fun _ => Or.inl⟩

theorem Draws.mono (h : Draws W own qualifiers) (hW : ∀ p, W p → V p) : Draws V own qualifiers := by
  refine ⟨h.kept, fun a ha => ?_⟩
  rcases h.drawn a ha with ha | ⟨p, hp, ha⟩
  · exact Or.inl ha
  · exact Or.inr ⟨p, hW p hp, ha⟩

theorem Draws.append (h : Draws W own qualifiers) (h' : Draws W own' qualifiers') :
    Draws W (own ++ own') (qualifiers ++ qualifiers') := by
  constructor
  · intro a ha
    rcases List.mem_append.mp ha with ha | ha
    · exact List.mem_append_left _ (h.kept a ha)
    · exact List.mem_append_right _ (h'.kept a ha)
  · intro a ha
    rcases List.mem_append.mp ha with ha | ha
    · exact (h.drawn a ha).imp_left (List.mem_append_left _)
    · exact (h'.drawn a ha).imp_left (List.mem_append_right _)

private theorem draws_flatMap {α β : Type} {xs : List α} {ys : List β} {f : α → List String}
    {k : β → List String}
    {r : α → β → Prop} (h : List.Forall₂ r xs ys) (hdraws : ∀ x ∈ xs, ∀ y, r x y → Draws W (f x) (k y)) :
    Draws W (xs.flatMap f) (ys.flatMap k) := by
  induction h with
  | nil => exact draws_self []
  | cons hr _ ih =>
    rw [List.flatMap_cons, List.flatMap_cons]
    exact (hdraws _ List.mem_cons_self _ hr).append
      (ih fun x hx => hdraws x (List.mem_cons_of_mem _ hx))

end Draws

section Compiled
variable {g : Grammar L} {c : Qualifying g} {core : Core L} {model : ModelSchema L}

private theorem parseLookup_transform {key field : String} {value v : L.Value} {transform : Expr L → Expr L}
    {op : Op} (h : g.parseLookup key value = .ok (.dateTransform field transform op v)) :
    ∃ fn, transform = g.call fn := by
  unfold Grammar.parseLookup at h
  split at h
  · dsimp only at h
    split at h
    · rename_i fn _
      refine ⟨fn, ?_⟩
      split at h
      · simp only [Except.ok.injEq, ParsedLookup.dateTransform.injEq] at h
        exact h.2.1.symm
      · split at h
        · simp only [Except.ok.injEq, ParsedLookup.dateTransform.injEq] at h
          exact h.2.1.symm
        · cases h
    · split at h
      · obtain ⟨_, -, h⟩ := map_eq_ok.mp h
        cases h
      · cases h
  · cases h

private theorem resolveSpan_draws {key : String} {value : L.Value} {js : List (Join L)}
    {predicate : WhereExpr L Empty}
    (h : resolveSpan (core.withGrammar g) model key value = .ok (js, predicate)) :
    Draws (KeyPath (core.withGrammar g) model key) [] (predicate.qualifiers c.scalar c.leaf) := by
  obtain ⟨⟨hops, terminal⟩, hchain, h⟩ := bind_eq_ok.mp h
  obtain ⟨p, hp, hprev⟩ := (resolveSpanChain_joined hchain).2
  obtain ⟨field, -, h⟩ := bind_eq_ok.mp h
  have hdraws : Draws (KeyPath (core.withGrammar g) model key) [] [pathAlias p] := by
    refine ⟨by simp, fun a ha => Or.inr ⟨p, hp, ?_⟩⟩
    simpa using ha
  dsimp only at h
  split at h
  · obtain ⟨-, rfl⟩ := Prod.mk.inj (Except.ok.inj h)
    simpa [WhereExpr.qualifiers, Expr.qualifiers, hprev] using hdraws
  · obtain ⟨parsed, hparsed, h⟩ := bind_eq_ok.mp h
    cases parsed with
    | raw =>
      obtain ⟨-, rfl⟩ := Prod.mk.inj (Except.ok.inj h)
      simpa [WhereExpr.qualifiers, Expr.qualifiers, hprev] using hdraws
    | dateTransform =>
      obtain ⟨fn, rfl⟩ := parseLookup_transform hparsed
      obtain ⟨-, rfl⟩ := Prod.mk.inj (Except.ok.inj h)
      rw [WhereExpr.qualifiers, c.call]
      simpa [Expr.qualifiers, hprev] using hdraws
    | relationSpan => cases h

private theorem resolveOnePending_draws {joins joins' : List (Join L)} {pf pf' : PendingFilter L}
    {w : WhereExpr L Empty}
    (hconvert : convertRelationSpan (core.withGrammar g) model joins pf = .ok (pf', joins'))
    (hresolve : resolveOnePending (core.withGrammar g) model pf' = .ok w) :
    Draws (fun p => ∃ key, pf.spanKey = some key ∧ KeyPath (core.withGrammar g) model key p)
      (pf.qualifiers c model) (w.qualifiers c.scalar c.leaf) := by
  induction pf generalizing joins' pf' w with
  | relationSpan key value =>
    rw [convertRelationSpan] at hconvert
    obtain ⟨⟨js, predicate⟩, hspan, hconvert⟩ := bind_eq_ok.mp hconvert
    obtain ⟨rfl, -⟩ := Prod.mk.inj (Except.ok.inj hconvert)
    rw [resolveOnePending] at hresolve
    obtain ⟨_, -, hresolve⟩ := bind_eq_ok.mp hresolve
    obtain rfl := Except.ok.inj hresolve
    apply (resolveSpan_draws hspan).mono
    simp [PendingFilter.spanKey]
  | negated inner ih =>
    rw [convertRelationSpan] at hconvert
    obtain ⟨⟨inner', js⟩, hinner, hconvert⟩ := bind_eq_ok.mp hconvert
    obtain ⟨rfl, -⟩ := Prod.mk.inj (Except.ok.inj hconvert)
    rw [resolveOnePending] at hresolve
    obtain ⟨w', hw', hresolve⟩ := bind_eq_ok.mp hresolve
    obtain rfl := Except.ok.inj hresolve
    rw [WhereExpr.qualifiers]
    exact ih hinner hw'
  | raw name op value =>
    obtain ⟨rfl, -⟩ := Prod.mk.inj (Except.ok.inj hconvert)
    rw [resolveOnePending] at hresolve
    obtain ⟨field, -, hresolve⟩ := bind_eq_ok.mp hresolve
    obtain ⟨_, -, hresolve⟩ := bind_eq_ok.mp hresolve
    obtain rfl := Except.ok.inj hresolve
    rw [WhereExpr.qualifiers]
    exact draws_self []
  | dateTransform name transform op value =>
    obtain ⟨rfl, -⟩ := Prod.mk.inj (Except.ok.inj hconvert)
    rw [resolveOnePending] at hresolve
    obtain ⟨field, hfield, hresolve⟩ := bind_eq_ok.mp hresolve
    obtain rfl := Except.ok.inj hresolve
    rw [WhereExpr.qualifiers, PendingFilter.qualifiers, okOr_eq_ok.mp hfield]
    simpa [Expr.qualifiers] using draws_self _
  | resolved filter =>
    obtain ⟨rfl, -⟩ := Prod.mk.inj (Except.ok.inj hconvert)
    rw [resolveOnePending] at hresolve
    obtain ⟨_, -, hresolve⟩ := bind_eq_ok.mp hresolve
    obtain rfl := Except.ok.inj hresolve
    rw [WhereExpr.qualifiers]
    exact draws_self []
  | expr expr =>
    obtain ⟨rfl, -⟩ := Prod.mk.inj (Except.ok.inj hconvert)
    rw [resolveOnePending] at hresolve
    obtain ⟨_, -, hresolve⟩ := bind_eq_ok.mp hresolve
    obtain rfl := Except.ok.inj hresolve
    exact draws_self _
  | error e =>
    obtain ⟨rfl, -⟩ := Prod.mk.inj (Except.ok.inj hconvert)
    cases hresolve

private theorem resolvePending_draws {joins joins' : List (Join L)} {pending pending' : List (PendingFilter L)}
    {w : WhereExpr L Empty}
    (hlower : lowerRelationSpans (core.withGrammar g) model joins pending = .ok (pending', joins'))
    (hresolve : resolvePending (core.withGrammar g) model pending' = .ok w) :
    Draws (fun p => ∃ pf ∈ pending, ∃ key, pf.spanKey = some key ∧
      KeyPath (core.withGrammar g) model key p)
      (pending.flatMap (·.qualifiers c model)) (w.qualifiers c.scalar c.leaf) := by
  obtain ⟨ws, hws, rfl⟩ := map_eq_ok.mp hresolve
  rw [WhereExpr.qualifiers, WhereExpr.qualifiersAll_eq]
  have hall := mapM_eq_ok.mp hws
  clear hresolve hws
  induction pending generalizing joins joins' pending' ws with
  | nil =>
    rw [lowerRelationSpans] at hlower
    obtain ⟨rfl, -⟩ := Prod.mk.inj (Except.ok.inj hlower)
    cases hall
    exact draws_self []
  | cons pf pending ih =>
    rw [lowerRelationSpans] at hlower
    obtain ⟨⟨pf', js⟩, hconvert, hlower⟩ := bind_eq_ok.mp hlower
    obtain ⟨⟨rest, js'⟩, hrest, hlower⟩ := bind_eq_ok.mp hlower
    obtain ⟨rfl, -⟩ := Prod.mk.inj (Except.ok.inj hlower)
    cases hall with
    | cons hw hws =>
      rw [List.flatMap_cons, List.flatMap_cons]
      apply Draws.append
      · apply (resolveOnePending_draws hconvert hw).mono
        exact fun p hp => ⟨pf, List.mem_cons_self, hp⟩
      · apply (ih hrest _ hws).mono
        intro p hspan
        obtain ⟨pf', hpf', hp⟩ := hspan
        exact ⟨pf', List.mem_cons_of_mem pf hpf', hp⟩

private theorem lowerOrderItem_draws {item : PendingOrderItem L} {x : OrderItem L × List (Join L)}
    (h : lowerOrderItem core model item = .ok x) :
    Draws (fun p => ∃ key, item.spanKey model = some key ∧ KeyPath core model key p)
      (item.qualifiers c) (x.1.qualifiers c) := by
  cases item with
  | expr e desc nulls =>
    rw [lowerOrderItem] at h
    obtain rfl := Except.ok.inj h
    exact draws_self _
  | random =>
    rw [lowerOrderItem] at h
    obtain rfl := Except.ok.inj h
    exact draws_self _
  | field name desc nulls =>
    rw [lowerOrderItem] at h
    cases hfield : model.field name with
    | some f =>
      rw [hfield] at h
      obtain rfl := Except.ok.inj h
      exact draws_self _
    | none =>
      rw [hfield] at h
      dsimp only at h
      split at h
      · obtain ⟨⟨hops, terminal⟩, hchain, h⟩ := bind_eq_ok.mp h
        obtain ⟨p, hp, hprev⟩ := (resolveSpanChain_joined hchain).2
        dsimp only at h
        split at h
        · obtain ⟨field, -, h⟩ := bind_eq_ok.mp h
          obtain rfl := Except.ok.inj h
          constructor
          · simp [PendingOrderItem.qualifiers]
          · intro a ha
            have ha' : a = pathAlias p := by simpa [OrderItem.qualifiers, Expr.qualifiers, hprev] using ha
            exact Or.inr ⟨p, ⟨name, by simp [PendingOrderItem.spanKey, hfield], hp⟩, ha'⟩
        · cases h
      · cases h

private theorem lowerOrderItems_draws {items : List (PendingOrderItem L)} {orderBy : List (OrderItem L)}
    {joins : List (Join L)} (hlower : lowerOrderItems core model items = .ok (orderBy, joins)) :
    Draws (fun p => ∃ item ∈ items, ∃ key, item.spanKey model = some key ∧ KeyPath core model key p)
      (items.flatMap (·.qualifiers c)) (orderBy.flatMap (·.qualifiers c)) := by
  obtain ⟨lowered, hlowered, h⟩ := bind_eq_ok.mp hlower
  obtain ⟨rfl, -⟩ := Prod.mk.inj (Except.ok.inj h)
  rw [List.flatMap_map]
  apply draws_flatMap (mapM_eq_ok.mp hlowered)
  intro item hitem x hx
  apply (lowerOrderItem_draws hx).mono
  exact fun p hp => ⟨item, hitem, hp⟩

/-- A relation join reads the base table or the hop before it, and itself. -/
theorem EndsIn.qualifiers {p : List String} {j : Join L} (h : EndsIn core model p j) {a : String}
    (ha : a ∈ j.qualifiers c) : a = model.table ∨ ∃ p', p' ≠ [] ∧ p' <+: p ∧ a = pathAlias p' := by
  obtain ⟨j₀, hj₀, hj⟩ := h.join
  obtain ⟨hops, hw, -⟩ := Option.bind_eq_some_iff.mp hj₀
  induction p using List.reverseRecOn with
  | nil => exact absurd rfl (pathJoin_alias hj₀).1
  | append_singleton p seg _ =>
    obtain ⟨h', f, rel, target, hw', -, -, -, -, hjoin⟩ := pathJoin_snoc hw
    obtain rfl := Option.some.inj (hjoin.symm.trans hj₀)
    have hquals : a = h'.prevAlias model ∨ a = pathAlias (p ++ [seg]) := by
      rw [hj] at ha
      simpa [Join.qualifiers, relationJoin, WhereExpr.qualifiers, Expr.qualifiers] using ha
    rcases hquals with rfl | rfl
    · rw [Hops.prevAlias, walk_path hw']
      by_cases hp : p = []
      · left
        rw [if_pos hp, Option.getD_none]
      · right
        rw [if_neg hp, Option.getD_some]
        exact ⟨p, hp, List.prefix_append p [seg], rfl⟩
    · exact Or.inr ⟨p ++ [seg], by simp, List.prefix_refl _, rfl⟩

end Compiled

namespace QuerySet
variable {g : Grammar L} {c : Qualifying g} {core : Core L} {qs : QuerySet L} {q : SelectQuery L}

theorem relationPath_iff {p : List String} : qs.RelationPath core p ↔
    (∃ name ∈ qs.selectRelated, NamePath name p) ∨
    (∃ pf ∈ qs.prepared.pending, ∃ key, pf.spanKey = some key ∧ KeyPath core qs.model key p) ∨
    (∃ item ∈ qs.headItems, ∃ key, item.spanKey qs.model = some key ∧ KeyPath core qs.model key p) ∨
    ∃ item ∈ qs.combinedItems, ∃ key, item.spanKey qs.model = some key ∧
      KeyPath core qs.model key p := by
  have hmem : ∀ {α : Type} (f : α → Option String) (xs : List α),
      (∃ key ∈ xs.filterMap f, KeyPath core qs.model key p) ↔
        ∃ x ∈ xs, ∃ key, f x = some key ∧ KeyPath core qs.model key p := by
    intro α f xs
    constructor
    · rintro ⟨key, hkey, hp⟩
      obtain ⟨x, hx, hf⟩ := List.mem_filterMap.mp hkey
      exact ⟨x, hx, key, hf, hp⟩
    · rintro ⟨x, hx, key, hf, hp⟩
      exact ⟨key, List.mem_filterMap.mpr ⟨x, hx, hf⟩, hp⟩
  simp only [RelationPath, spanKeys, List.filterMap_append, List.mem_append, or_and_right, exists_or,
    hmem]

theorem merged_of_compile (h : qs.compile core = .ok q) :
    Merged core qs.model qs.adHocJoins (qs.RelationPath core) q.joins := by
  obtain ⟨pending, spanJoins, related, added, joins, orderJoins, combinedJoins, hpending, -,
    hrelated, hadd, hjoins, horder, hcombined, hmerged⟩ := (compiled_of_compile h).lowered
  have hspan := (lowerRelationSpans_joins hpending
    (⟨pathsJoined_nil fun _ => id, List.nodup_nil⟩ : JoinsOnce core qs.model (fun _ => False) [])).toPathsJoined
  have hadded := (lowerSelectRelated_joins hrelated).merged.addAdHocJoins hadd
  rw [List.nil_append] at hadded
  have horders := (lowerOrderItems_joins horder).toPathsJoined.append
    (lowerOrderItems_joins hcombined).toPathsJoined
  apply ((hadded.foldlM_mergeRelationJoin hspan hjoins).foldlM_mergeRelationJoin horders hmerged).congr
  intro p
  rw [relationPath_iff]
  simp [or_assoc]

theorem relationPath_prefix {p p' : List String} (hp : qs.RelationPath core p) (hne : p' ≠ [])
    (hinit : p' <+: p) : qs.RelationPath core p' := by
  rcases hp with ⟨name, hname, hp⟩ | ⟨key, hkey, hp⟩
  · exact Or.inl ⟨name, hname, hne, hinit.trans hp.2⟩
  · obtain ⟨fks, hwalks, hfks⟩ := hp.2
    exact Or.inr ⟨key, hkey, hne, fks, hwalks, hinit.trans hfks⟩

/-- The references of a compiled query: the user's own, the base table, and the paths. -/
theorem references_of_compile (h : qs.compile (core.withGrammar g) = .ok q) :
    (∀ a ∈ qs.qualifiers c, a ∈ q.references c) ∧ ∀ a ∈ q.references c, a ∈ qs.qualifiers c ∨
      a = qs.model.table ∨ ∃ p, qs.RelationPath (core.withGrammar g) p ∧ a = pathAlias p := by
  have hmerged := merged_of_compile h
  have hsub := (compiled_of_compile h).subqueryJoins
  obtain ⟨pending, spanJoins, related, added, joins, orderJoins, combinedJoins, hpending,
    hwhere, -, -, -, horder, hcombined, -⟩ := (compiled_of_compile h).lowered
  have hfilters := (resolvePending_draws hpending hwhere (c := c)).mono
    (V := qs.RelationPath (core.withGrammar g)) fun p hp => relationPath_iff.mpr (Or.inr (Or.inl hp))
  have hhead := (lowerOrderItems_draws horder (c := c)).mono
    (V := qs.RelationPath (core.withGrammar g))
    fun p hp => relationPath_iff.mpr (Or.inr (Or.inr (Or.inl hp)))
  have hcomb := (lowerOrderItems_draws hcombined (c := c)).mono
    (V := qs.RelationPath (core.withGrammar g))
    fun p hp => relationPath_iff.mpr (Or.inr (Or.inr (Or.inr hp)))
  have hjoins : ∀ a ∈ q.joins.flatMap (·.qualifiers c), a ∈ qs.adHocJoins.flatMap (·.qualifiers c) ∨
      a = qs.model.table ∨ ∃ p, qs.RelationPath (core.withGrammar g) p ∧ a = pathAlias p := by
    intro a ha
    obtain ⟨j, hj, ha⟩ := List.mem_flatMap.mp ha
    rcases hmerged.ends j hj with hadHoc | ⟨p, hp, hends⟩
    · exact Or.inl (List.mem_flatMap.mpr ⟨j, hadHoc, ha⟩)
    · rcases hends.qualifiers ha with htable | ⟨p', hne, hinit, hpath⟩
      · exact Or.inr (Or.inl htable)
      · exact Or.inr (Or.inr ⟨p', relationPath_prefix hp hne hinit, hpath⟩)
  have hkept : ∀ a ∈ qs.adHocJoins.flatMap (·.qualifiers c), a ∈ q.joins.flatMap (·.qualifiers c) := by
    intro a ha
    obtain ⟨j, hj, ha⟩ := List.mem_flatMap.mp ha
    exact List.mem_flatMap.mpr ⟨j, hmerged.kept j hj, ha⟩
  have horders := hhead.append hcomb
  rw [← List.flatMap_append, ← List.flatMap_append] at horders
  rw [qualifiers, SelectQuery.references, hsub]
  constructor
  · intro a ha
    simp only [List.mem_append] at ha ⊢
    rcases ha with ((ha | ha) | ha) | ha
    · exact Or.inl (Or.inl (Or.inl (hfilters.kept a ha)))
    · exact Or.inl (Or.inl (Or.inr (hkept a ha)))
    · exact Or.inl (Or.inr ha)
    · exact Or.inr (horders.kept a ha)
  · intro a ha
    simp only [List.mem_append] at ha ⊢
    rcases ha with ((ha | ha) | ha) | ha
    · rcases hfilters.drawn a ha with hown | hpath
      · exact Or.inl (Or.inl (Or.inl (Or.inl hown)))
      · exact Or.inr (Or.inr hpath)
    · rcases hjoins a ha with hown | hrest
      · exact Or.inl (Or.inl (Or.inl (Or.inr hown)))
      · exact Or.inr hrest
    · exact Or.inl (Or.inl (Or.inr ha))
    · rcases horders.drawn a ha with hown | hpath
      · exact Or.inl (Or.inr hown)
      · exact Or.inr (Or.inr hpath)

end QuerySet

section Right
variable {g : Grammar L} {c : Qualifying g} {core : Core L} {qs : QuerySet L} {q : SelectQuery L}

private theorem joinNamed_eq {j : Join L} (hnodup : (q.joins.map (·.alias_)).Nodup) (hj : j ∈ q.joins) :
    q.joinNamed j.alias_ = some j := by
  rw [SelectQuery.joinNamed]
  generalize q.joins = joins at hnodup hj
  induction joins with
  | nil => cases hj
  | cons e joins ih =>
    rw [List.map_cons, List.nodup_cons] at hnodup
    rcases List.mem_cons.mp hj with rfl | hj
    · simp
    · have hne : e.alias_ ≠ j.alias_ := fun heq => hnodup.1 (heq ▸ List.mem_map_of_mem hj)
      rw [List.find?_cons_of_neg (by simpa using hne)]
      exact ih hnodup.2 hj

variable (h : qs.compile core = .ok q)
include h

private theorem joinNamed_path {p : List String} (hp : qs.RelationPath core p) :
    ∃ j, q.joinNamed (pathAlias p) = some j ∧ Serves core qs.model p j := by
  have hmerged := QuerySet.merged_of_compile h
  obtain ⟨j, hj, hserves⟩ := hmerged.served p hp
  refine ⟨j, ?_, hserves⟩
  rw [← hserves.alias]
  exact joinNamed_eq hmerged.nodup hj

private theorem joinNamed_shared {p p' : List String} (hp : qs.RelationPath core p)
    (hp' : qs.RelationPath core p') :
    q.joinNamed (pathAlias p) = q.joinNamed (pathAlias p') ↔ p = p' := by
  obtain ⟨j, hj, hserves⟩ := joinNamed_path h hp
  obtain ⟨j', hj', hserves'⟩ := joinNamed_path h hp'
  constructor
  · intro heq
    rw [hj, hj', Option.some.injEq] at heq
    apply pathAlias_injective hserves.segments hserves'.segments
    rw [← hserves.alias, ← hserves'.alias, heq]
  · rintro rfl
    rfl

private theorem mem_aliases {a : String} : a ∈ q.joins.map (·.alias_) ↔
    (∃ p, qs.RelationPath core p ∧ a = pathAlias p) ∨ ∃ j ∈ qs.adHocJoins, a = j.alias_ := by
  have hmerged := QuerySet.merged_of_compile h
  rw [List.mem_map]
  constructor
  · rintro ⟨j, hj, rfl⟩
    rcases hmerged.ends j hj with hadHoc | ⟨p, hp, hends⟩
    · exact Or.inr ⟨j, hadHoc, rfl⟩
    · exact Or.inl ⟨p, hp, hends.alias⟩
  · rintro (⟨p, hp, rfl⟩ | ⟨j, hj, rfl⟩)
    · obtain ⟨j, hj, hserves⟩ := hmerged.served p hp
      exact ⟨j, hj, hserves.alias⟩
    · exact ⟨j, hmerged.kept j hj, rfl⟩

private theorem mem_names {a : String} : a ∈ q.names ↔ a = qs.model.table ∨
    (∃ p, qs.RelationPath core p ∧ a = pathAlias p) ∨ (∃ j ∈ qs.adHocJoins, a = j.alias_) ∨
      ∃ s ∈ qs.subqueryJoins, a = s.alias_ := by
  have hmodel := (QuerySet.compiled_of_compile h).model
  have hsub := (QuerySet.compiled_of_compile h).subqueryJoins
  rw [SelectQuery.names, SelectQuery.aliases, List.mem_cons, List.mem_append, mem_aliases h, hmodel,
    hsub, or_assoc]
  simp [eq_comm]

private theorem nodup_names : q.names.Nodup ↔ (qs.model.table :: qs.subqueryJoins.map (·.alias_)).Nodup ∧
    ∀ a, ((∃ p, qs.RelationPath core p ∧ a = pathAlias p) ∨ ∃ j ∈ qs.adHocJoins, a = j.alias_) →
      a ≠ qs.model.table ∧ ∀ s ∈ qs.subqueryJoins, s.alias_ ≠ a := by
  have hmodel := (QuerySet.compiled_of_compile h).model
  have hsub := (QuerySet.compiled_of_compile h).subqueryJoins
  have hnodup := (QuerySet.merged_of_compile h).nodup
  simp only [← mem_aliases h]
  rw [SelectQuery.names, SelectQuery.aliases, hmodel, hsub, List.nodup_cons, List.nodup_append,
    List.nodup_cons, List.mem_append]
  constructor
  · rintro ⟨htable, -, hnodups, hapart⟩
    refine ⟨⟨fun hs => htable (Or.inr hs), hnodups⟩, fun a ha => ⟨?_, ?_⟩⟩
    · exact fun heq => htable (Or.inl (heq ▸ ha))
    · exact fun s hs heq => hapart a ha s.alias_ (List.mem_map_of_mem hs) heq.symm
  · rintro ⟨⟨htable, hnodups⟩, hapart⟩
    refine ⟨?_, hnodup, hnodups, ?_⟩
    · rintro (ha | hs)
      · exact (hapart _ ha).1 rfl
      · exact htable hs
    · intro a ha b hb heq
      obtain ⟨s, hs, rfl⟩ := List.mem_map.mp hb
      exact (hapart a ha).2 s hs heq.symm

end Right

/-- The names are right exactly when no two of different kinds are equal, no two subqueries have one
alias, and the user's own expressions name what is there. -/
theorem names_right_iff {g : Grammar L} (c : Qualifying g) (core : Core L) (qs : QuerySet L)
    (q : SelectQuery L) (h : qs.compile (core.withGrammar g) = .ok q) :
    NamesRight c (core.withGrammar g) qs q ↔ qs.NamesApart c (core.withGrammar g) := by
  obtain ⟨hown, hreferences⟩ := QuerySet.references_of_compile (c := c) h
  constructor
  · intro hright
    obtain ⟨hsubqueries, hapart⟩ := (nodup_names h).mp hright.distinct
    constructor
    · exact fun p hp => (hapart _ (Or.inl ⟨p, hp, rfl⟩)).1
    · exact fun j hj => (hapart _ (Or.inr ⟨j, hj, rfl⟩)).1
    · exact hsubqueries
    · exact fun s hs p hp => (hapart _ (Or.inl ⟨p, hp, rfl⟩)).2 s hs
    · exact fun s hs j hj => (hapart _ (Or.inr ⟨j, hj, rfl⟩)).2 s hs
    · intro a ha
      have hcount := hright.references a (hown a ha)
      exact (mem_names h).mp (List.count_pos_iff.mp (by omega))
  · intro hapart
    have hdistinct : q.names.Nodup := by
      apply (nodup_names h).mpr
      refine ⟨hapart.subqueries, ?_⟩
      rintro a (⟨p, hp, rfl⟩ | ⟨j, hj, rfl⟩)
      · exact ⟨hapart.table p hp, fun s hs => hapart.subqueryPath s hs p hp⟩
      · exact ⟨hapart.adHoc j hj, fun s hs => hapart.subqueryAdHoc s hs j hj⟩
    constructor
    · exact hdistinct
    · intro a ha
      apply List.count_eq_one_of_mem hdistinct
      apply (mem_names h).mpr
      rcases hreferences a ha with ha | ha | ha
      · exact hapart.named a ha
      · exact Or.inl ha
      · exact Or.inr (Or.inl ha)
    · exact fun p hp => joinNamed_path h hp
    · exact fun p p' hp hp' => joinNamed_shared h hp hp'

private def treeLang : Lang := ⟨Bool, Empty, Empty, Unit⟩

/-- A tree of rows, each of which points at its parent. -/
private def tree (table : String) : ModelSchema treeLang where
  name := "Tree"
  table := table
  fields := [⟨"id", "id", true, none⟩, ⟨"title", "title", false, none⟩,
    ⟨"parent", "parent_id", false, some (.fk table "id")⟩]
  globalScopes := []

private def treeGrammar : Grammar treeLang where
  shapeName _ := "SqlValue::Bool"
  asString _ := none
  asList _ := none
  asRangeLiteral _ := none
  isJson _ := false
  isBool _ := true
  string _ := false
  array _ := false
  rangeLiteral _ := false
  call _ x := x

private def trees : Core treeLang :=
  Core.withGrammar ⟨fun t => some (tree t), fun _ _ h => Option.some.inj h ▸ rfl,
    fun _ _ => .error .distinctOnEmpty, fun _ _ _ _ => .ok (), fun _ _ => .ok (), fun _ _ => .ok (),
    fun _ _ => false⟩ treeGrammar

private def treeNames : Qualifying treeGrammar where
  scalar x := x.elim
  leaf p := p.elim
  derived _ := []
  call _ _ := rfl

/-- The rows with their parents, in the order of the parents' titles, and a joined subquery. -/
private def rowsAndParents (table : String) : QuerySet treeLang :=
  { QuerySet.new (tree table) with
    selectRelated := ["parent"]
    orderBy := [.field "parent__title" false .default]
    subqueryJoins := [⟨(), "stats", .left,
      .exprCompare (.aliasedColumn "stats" "id") .eq (.aliasedColumn table "id")⟩] }

private theorem splitOn_name : "parent".splitOn "__" = ["parent"] := splitOn_doubled '_' _

private theorem splitOn_titleKey : "parent__title".splitOn "__" = ["parent", "title"] :=
  splitOn_doubled '_' _

private theorem compile_rowsAndParents (table : String) : ∃ q, (rowsAndParents table).compile trees = .ok q ∧
    q.model = tree table ∧ q.aliases = ["parent", "stats"] := by
  have hrelated : lowerSelectRelated trees (tree table) ["parent"] =
      .ok [relationJoin (tree table) table "parent_id" "parent" "id" ["id", "title", "parent_id"]] := by
    simp only [lowerSelectRelated, List.foldlM_cons, splitOn_name]
    rfl
  have horder : lowerOrderItems trees (tree table) [.field "parent__title" false .default] =
      .ok ([.expr (.aliasedColumn "parent" "title") false .default],
        [relationJoin (tree table) table "parent_id" "parent" "id" []]) := by
    have hfield : (tree table).field "parent__title" = none := rfl
    simp only [lowerOrderItems, List.mapM_cons, lowerOrderItem, hfield, resolveSpanChain, splitOn_titleKey]
    rfl
  refine ⟨_, bind_eq_ok.mpr ⟨([], []), rfl, bind_eq_ok.mpr ⟨.and [], rfl, bind_eq_ok.mpr ⟨_, hrelated,
    bind_eq_ok.mpr ⟨_, rfl, bind_eq_ok.mpr ⟨_, rfl, bind_eq_ok.mpr ⟨_, horder, bind_eq_ok.mpr ⟨_, rfl,
    bind_eq_ok.mpr ⟨_, rfl, rfl⟩⟩⟩⟩⟩⟩⟩⟩, rfl, rfl⟩

private theorem relationPath_parent {table : String} {p : List String}
    (hp : (rowsAndParents table).RelationPath trees p) : pathAlias p = "parent" := by
  have hone : ∀ {p : List String}, p ≠ [] → p <+: ["parent"] → p = ["parent"] := by
    intro p hne hinit
    rcases List.prefix_cons_iff.mp hinit with hp | ⟨rest, rfl, hrest⟩
    · exact absurd hp hne
    · rw [List.prefix_nil.mp hrest]
  have hwalks : KeyWalks trees (tree table) "parent__title" ["parent"] :=
    ⟨⟨["parent"], "title", [], splitOn_titleKey, _, rfl⟩, rfl, Or.inl rfl⟩
  have hparent : p = ["parent"] := by
    rcases hp with ⟨name, hname, hne, hinit⟩ | ⟨key, hkey, hne, fks, hfks, hinit⟩
    · obtain rfl := List.mem_singleton.mp hname
      rw [splitOn_name] at hinit
      exact hone hne hinit
    · obtain rfl : key = "parent__title" := List.mem_singleton.mp hkey
      obtain rfl := hfks.unique hwalks
      exact hone hne hinit
  rw [hparent]
  rfl

theorem names_right_categories : ∃ q, (rowsAndParents "categories").compile trees = .ok q ∧
    NamesRight treeNames trees (rowsAndParents "categories") q := by
  obtain ⟨q, hq, -⟩ := compile_rowsAndParents "categories"
  refine ⟨q, hq, (names_right_iff treeNames trees (rowsAndParents "categories") q hq).mpr ?_⟩
  have hpath : ∀ p, (rowsAndParents "categories").RelationPath trees p → pathAlias p = "parent" :=
    fun p hp => relationPath_parent hp
  constructor
  · intro p hp
    rw [hpath p hp]
    decide
  · exact fun j hj => absurd hj List.not_mem_nil
  · decide
  · intro s hs p hp
    obtain rfl := List.mem_singleton.mp hs
    rw [hpath p hp]
    decide
  · exact fun s _ j hj => absurd hj List.not_mem_nil
  · intro a ha
    have hnames : a = "stats" ∨ a = "categories" := by
      have hlist : (rowsAndParents "categories").qualifiers treeNames = ["stats", "categories"] := rfl
      simpa [hlist] using ha
    rcases hnames with rfl | rfl
    · exact Or.inr (Or.inr (Or.inr ⟨_, List.mem_singleton_self _, rfl⟩))
    · exact Or.inl rfl

/-- Rows of a table `parent` that point at their parent: the table and its join have one name. -/
theorem names_clash_parent : ∃ q, (rowsAndParents "parent").compile trees = .ok q ∧ ¬ q.names.Nodup ∧
    ¬ NamesRight treeNames trees (rowsAndParents "parent") q := by
  obtain ⟨q, hq, hmodel, haliases⟩ := compile_rowsAndParents "parent"
  have hclash : ¬ q.names.Nodup := by
    rw [SelectQuery.names, hmodel, haliases]
    decide
  exact ⟨q, hq, hclash, fun hright => hclash hright.distinct⟩

end Rustango.Query
