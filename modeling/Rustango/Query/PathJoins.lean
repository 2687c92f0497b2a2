import Rustango.Query.LookupKeys

/-!
# The joins of relation paths

A relation path has one join, under an alias that spells the path: the last hop of its walk. What
`select_related`, the spanning filters and the spanning order add to a query are such joins, of the
paths that their keys walk.
-/

namespace Rustango.Query

open Rustango.Outcome Rustango.Pieces

variable {L : Lang}

def pathAlias (p : List String) : String := "__".intercalate p

theorem pathAlias_injective {p p' : List String} (hp : Segments '_' p) (hp' : Segments '_' p')
    (h : pathAlias p = pathAlias p') : p = p' := by
  have hsplit := congrArg (String.splitOn · "__") h
  rwa [pathAlias, pathAlias, splitOn_join hp, splitOn_join hp'] at hsplit

section Paths
variable (core : Core L) (model : ModelSchema L)

/-- The join of the last hop. -/
def pathJoin (p : List String) : Option (Join L) := (walk core model p).bind fun h => h.joins.getLast?

/-- `j` is the join of the path; what it projects is its own. -/
structure EndsIn (p : List String) (j : Join L) : Prop where
  segments : Segments '_' p
  join : ∃ j₀, pathJoin core model p = some j₀ ∧ j = { j₀ with project := j.project }

/-- Joins of these paths, and one for each of them. -/
structure PathsJoined (W : List String → Prop) (joins : List (Join L)) : Prop where
  ends : ∀ j ∈ joins, ∃ p, W p ∧ EndsIn core model p j
  joined : ∀ p, W p → ∃ j ∈ joins, EndsIn core model p j

/-- The foreign keys that a lookup key walks before its column. -/
def KeyWalks (key : String) (fks : List String) : Prop :=
  ∃ p : Path core model (key.splitOn "__"), p.fks = fks ∧ Stops p.hops p.name p.rest

/-- The paths that a key joins: what it walks, hop by hop. -/
def KeyPath (key : String) (p : List String) : Prop :=
  p ≠ [] ∧ ∃ fks, KeyWalks core model key fks ∧ p <+: fks

end Paths

variable {core : Core L} {model : ModelSchema L} {W V : List String → Prop}

theorem pathJoin_snoc {p : List String} {seg : String} {h : Hops L}
    (hw : walk core model (p ++ [seg]) = some h) : ∃ h' f rel target, walk core model p = some h' ∧
      h'.current.field seg = some f ∧ f.relation = some rel ∧
      core.forTable rel.target.1 = some target ∧ h.current = target ∧
      pathJoin core model (p ++ [seg]) = some (relationJoin target (h'.prevAlias model) f.column
        (pathAlias (p ++ [seg])) rel.target.2 []) := by
  obtain ⟨h', hw', hstep⟩ := walk_snoc.mp hw
  have hpath := walk_path hw
  obtain ⟨f, rel, target, hf, hrel, ht, rfl⟩ := hop_eq_some.mp hstep
  rw [if_neg (by simp), Option.some.injEq] at hpath
  refine ⟨h', f, rel, target, hw', hf, hrel, ht, rfl, ?_⟩
  rw [pathJoin, hw, Option.bind_some]
  dsimp only
  rw [List.getLast?_concat, hpath]
  rfl

theorem pathJoin_alias {p : List String} {j : Join L} (h : pathJoin core model p = some j) :
    p ≠ [] ∧ j.alias_ = pathAlias p := by
  obtain ⟨hops, hw, hlast⟩ := Option.bind_eq_some_iff.mp h
  induction p using List.reverseRecOn with
  | nil =>
    obtain rfl := Option.some.inj hw
    cases hlast
  | append_singleton p seg _ =>
    obtain ⟨_, _, _, _, _, _, _, _, _, hjoin⟩ := pathJoin_snoc hw
    obtain rfl := Option.some.inj (hjoin.symm.trans h)
    exact ⟨by simp, rfl⟩

theorem EndsIn.alias {p : List String} {j : Join L} (h : EndsIn core model p j) :
    j.alias_ = pathAlias p := by
  obtain ⟨j₀, hj₀, hj⟩ := h.join
  rw [hj]
  exact (pathJoin_alias hj₀).2

theorem EndsIn.unique {p p' : List String} {j j' : Join L} (h : EndsIn core model p j)
    (h' : EndsIn core model p' j') (heq : j.alias_ = j'.alias_) : p = p' :=
  pathAlias_injective h.segments h'.segments (h.alias.symm.trans (heq.trans h'.alias))

private theorem mem_walk_joins {fks : List String} {h : Hops L} (hw : walk core model fks = some h)
    {j : Join L} : j ∈ h.joins ↔ ∃ p, p <+: fks ∧ pathJoin core model p = some j := by
  induction fks using List.reverseRecOn generalizing h with
  | nil =>
    have hnone : ¬ ∃ p, p <+: ([] : List String) ∧ pathJoin core model p = some j := by
      rintro ⟨p, hp, hj⟩
      exact (pathJoin_alias hj).1 (List.prefix_nil.mp hp)
    obtain rfl := Option.some.inj hw
    simpa using hnone
  | append_singleton fks seg ih =>
    obtain ⟨h', hw', hstep⟩ := walk_snoc.mp hw
    obtain ⟨f, rel, target, hf, hrel, ht, rfl⟩ := hop_eq_some.mp hstep
    have hlast : pathJoin core model (fks ++ [seg]) = some (relationJoin target (h'.prevAlias model)
        f.column ("__".intercalate (h'.path.toList ++ [seg])) rel.target.2 []) := by
      rw [pathJoin, hw, Option.bind_some]
      exact List.getLast?_concat
    dsimp only
    rw [List.mem_append, List.mem_singleton, ih hw']
    constructor
    · rintro (⟨p, hp, hj⟩ | rfl)
      · exact ⟨p, hp.trans (List.prefix_append fks [seg]), hj⟩
      · exact ⟨_, List.prefix_refl _, hlast⟩
    · rintro ⟨p, hp, hj⟩
      rcases List.prefix_concat_iff.mp hp with rfl | hp
      · exact Or.inr (Option.some.inj (hj.symm.trans hlast))
      · exact Or.inl ⟨p, hp, hj⟩

private theorem pathJoin_of_prefix {p fks : List String} {h : Hops L} (hw : walk core model fks = some h)
    (hp : p <+: fks) (hne : p ≠ []) : ∃ j, pathJoin core model p = some j := by
  obtain ⟨rest, rfl⟩ := hp
  rw [walk, List.foldlM_append, Option.bind_eq_bind, Option.bind_eq_some_iff] at hw
  obtain ⟨h', hw', -⟩ := hw
  obtain ⟨q, seg, rfl⟩ := (List.eq_nil_or_concat p).resolve_left hne
  rw [List.concat_eq_append] at hw' ⊢
  obtain ⟨_, _, _, _, _, _, _, _, _, hjoin⟩ := pathJoin_snoc hw'
  exact ⟨_, hjoin⟩

private theorem segments_prefix {p segs : List String} (hs : Segments '_' segs) (hp : p <+: segs)
    (hne : p ≠ []) :
    Segments '_' p := by
  obtain ⟨rest, rfl⟩ := hp
  exact hs.left hne

private theorem pathsJoined_walk {fks segs : List String} {h : Hops L} (hw : walk core model fks = some h)
    (hs : Segments '_' segs) (hinit : fks <+: segs) :
    PathsJoined core model (fun p => p ≠ [] ∧ p <+: fks) h.joins := by
  have hsegments : ∀ p, p ≠ [] → p <+: fks → Segments '_' p := fun p hne hp =>
    segments_prefix hs (hp.trans hinit) hne
  constructor
  · intro j hj
    obtain ⟨p, hp, hjoin⟩ := (mem_walk_joins hw).mp hj
    have hne := (pathJoin_alias hjoin).1
    exact ⟨p, ⟨hne, hp⟩, hsegments p hne hp, j, hjoin, rfl⟩
  · rintro p ⟨hne, hp⟩
    obtain ⟨j, hjoin⟩ := pathJoin_of_prefix hw hp hne
    exact ⟨j, (mem_walk_joins hw).mpr ⟨p, hp, hjoin⟩, hsegments p hne hp, j, hjoin, rfl⟩

theorem PathsJoined.append {a b : List (Join L)} (ha : PathsJoined core model W a)
    (hb : PathsJoined core model V b) : PathsJoined core model (fun p => W p ∨ V p) (a ++ b) := by
  constructor
  · intro j hj
    rcases List.mem_append.mp hj with hj | hj
    · obtain ⟨p, hp, hends⟩ := ha.ends j hj
      exact ⟨p, Or.inl hp, hends⟩
    · obtain ⟨p, hp, hends⟩ := hb.ends j hj
      exact ⟨p, Or.inr hp, hends⟩
  · rintro p (hp | hp)
    · obtain ⟨j, hj, hends⟩ := ha.joined p hp
      exact ⟨j, List.mem_append_left b hj, hends⟩
    · obtain ⟨j, hj, hends⟩ := hb.joined p hp
      exact ⟨j, List.mem_append_right a hj, hends⟩

theorem PathsJoined.congr {joins : List (Join L)} (h : PathsJoined core model W joins)
    (hiff : ∀ p, W p ↔ V p) : PathsJoined core model V joins := by
  obtain rfl : W = V := funext fun p => propext (hiff p)
  exact h

theorem pathsJoined_nil (h : ∀ p, ¬ W p) : PathsJoined core model W ([] : List (Join L)) :=
  ⟨fun _ hj => absurd hj List.not_mem_nil, fun p hp => absurd hp (h p)⟩

/-- A join whose alias is there adds no path. -/
theorem PathsJoined.foldl_pushJoin {joins js : List (Join L)}
    (h : PathsJoined core model W (joins ++ js)) :
    PathsJoined core model W (js.foldl pushJoin joins) := by
  induction js generalizing joins with
  | nil => rwa [List.append_nil] at h
  | cons j js ih =>
    apply ih
    unfold pushJoin
    split
    · rename_i hany
      obtain ⟨e, he, halias⟩ := List.any_eq_true.mp hany
      constructor
      · intro j' hj'
        refine h.ends j' ?_
        rcases List.mem_append.mp hj' with hj' | hj'
        · exact List.mem_append_left _ hj'
        · exact List.mem_append_right _ (List.mem_cons_of_mem j hj')
      · intro p hp
        obtain ⟨j', hj', hends⟩ := h.joined p hp
        rcases List.mem_append.mp hj' with hj' | hj'
        · exact ⟨j', List.mem_append_left _ hj', hends⟩
        · rcases List.mem_cons.mp hj' with rfl | hj'
          · obtain ⟨p', -, hends'⟩ := h.ends e (List.mem_append_left _ he)
            obtain rfl := hends'.unique hends (of_decide_eq_true halias)
            exact ⟨e, List.mem_append_left _ he, hends'⟩
          · exact ⟨j', List.mem_append_right _ hj', hends⟩
    · rwa [List.append_assoc, List.singleton_append]

private theorem nodup_foldl_pushJoin {joins js : List (Join L)} (h : (joins.map (·.alias_)).Nodup) :
    ((js.foldl pushJoin joins).map (·.alias_)).Nodup := by
  induction js generalizing joins with
  | nil => exact h
  | cons j js ih =>
    apply ih
    unfold pushJoin
    split
    · exact h
    · rename_i hany
      rw [List.map_append, List.nodup_append]
      refine ⟨h, by simp, ?_⟩
      intro a ha b hb hab
      obtain ⟨e, he, rfl⟩ := List.mem_map.mp ha
      obtain rfl := List.mem_singleton.mp hb
      exact hany (List.any_eq_true.mpr ⟨e, he, decide_eq_true hab⟩)

section Keys
variable {key : String}

theorem KeyWalks.unique {fks fks' : List String} (h : KeyWalks core model key fks)
    (h' : KeyWalks core model key fks') : fks = fks' := by
  obtain ⟨p, rfl, hstop⟩ := h
  obtain ⟨p', rfl, hstop'⟩ := h'
  have hlen : p.fks.length = p'.fks.length :=
    le_antisymm (p'.longest p hstop') (p.longest p' hstop)
  have hinit : p.fks <+: key.splitOn "__" := ⟨_, p.split.symm⟩
  have hinit' : p'.fks <+: key.splitOn "__" := ⟨_, p'.split.symm⟩
  exact (List.prefix_of_prefix_length_le hinit hinit' hlen.le).eq_of_length hlen

/-- The joins of a key are those of its paths, and its column is read from the last one. -/
theorem resolveSpanChain_joined {h : Hops L} {terminal : List String}
    (hchain : resolveSpanChain core model key = .ok (h, terminal)) :
    PathsJoined core model (KeyPath core model key) h.joins ∧
      ∃ p, KeyPath core model key p ∧ h.prevAlias model = pathAlias p := by
  obtain ⟨p, rfl, -, hfks, -, hstop⟩ := resolveSpanChain_eq_ok.mp hchain
  have hwalks : KeyWalks core model key p.fks := ⟨p, rfl, hstop⟩
  have hiff : ∀ p', (p' ≠ [] ∧ p' <+: p.fks) ↔ KeyPath core model key p' := by
    intro p'
    constructor
    · exact fun hp' => ⟨hp'.1, p.fks, hwalks, hp'.2⟩
    · rintro ⟨hne, fks, hfks', hp'⟩
      obtain rfl := hfks'.unique hwalks
      exact ⟨hne, hp'⟩
  have hjoined := pathsJoined_walk p.walked (segments_key key) ⟨_, p.split.symm⟩
  refine ⟨hjoined.congr hiff, p.fks, ⟨hfks, p.fks, hwalks, List.prefix_refl _⟩, ?_⟩
  have hpath := p.prevAlias hfks
  rw [walk_path p.walked, if_neg hfks, Option.some.injEq] at hpath
  exact hpath.symm

end Keys

/-- The key of a spanning filter. -/
def PendingFilter.spanKey : PendingFilter L → Option String
  | .relationSpan key _ => some key
  | .negated inner => inner.spanKey
  | _ => none

/-- The key of a spanning order. -/
def PendingOrderItem.spanKey (model : ModelSchema L) : PendingOrderItem L → Option String
  | .field name _ _ => if (model.field name).isNone then some name else none
  | _ => none

section Spans

private theorem resolveSpan_joined {key : String} {value : L.Value} {js : List (Join L)}
    {predicate : WhereExpr L Empty} (h : resolveSpan core model key value = .ok (js, predicate)) :
    PathsJoined core model (KeyPath core model key) js := by
  obtain ⟨⟨hops, terminal⟩, hchain, h⟩ := bind_eq_ok.mp h
  have hjoined := (resolveSpanChain_joined hchain).1
  obtain ⟨field, -, h⟩ := bind_eq_ok.mp h
  dsimp only at h
  split at h
  · obtain ⟨rfl, -⟩ := Prod.mk.inj (Except.ok.inj h)
    exact hjoined
  · obtain ⟨parsed, -, h⟩ := bind_eq_ok.mp h
    cases parsed with
    | raw => exact (Prod.mk.inj (Except.ok.inj h)).1 ▸ hjoined
    | dateTransform => exact (Prod.mk.inj (Except.ok.inj h)).1 ▸ hjoined
    | relationSpan => cases h

/-- Joins of these paths, each alias once. -/
structure JoinsOnce (core : Core L) (model : ModelSchema L) (W : List String → Prop)
    (joins : List (Join L)) : Prop extends PathsJoined core model W joins where
  nodup : (joins.map (·.alias_)).Nodup

theorem JoinsOnce.congr {joins : List (Join L)} (h : JoinsOnce core model W joins)
    (hiff : ∀ p, W p ↔ V p) : JoinsOnce core model V joins :=
  ⟨h.toPathsJoined.congr hiff, h.nodup⟩

theorem JoinsOnce.foldl_pushJoin {joins js : List (Join L)} (h : JoinsOnce core model W joins)
    (hjs : PathsJoined core model V js) :
    JoinsOnce core model (fun p => W p ∨ V p) (js.foldl pushJoin joins) :=
  ⟨(h.toPathsJoined.append hjs).foldl_pushJoin, nodup_foldl_pushJoin h.nodup⟩

private theorem convertRelationSpan_joins {joins joins' : List (Join L)} {pf pf' : PendingFilter L}
    (h : convertRelationSpan core model joins pf = .ok (pf', joins'))
    (hjoins : JoinsOnce core model W joins) :
    JoinsOnce core model (fun p => W p ∨ ∃ key, pf.spanKey = some key ∧ KeyPath core model key p)
      joins' := by
  induction pf generalizing pf' with
  | relationSpan key value =>
    rw [convertRelationSpan] at h
    obtain ⟨⟨js, predicate⟩, hspan, h⟩ := bind_eq_ok.mp h
    obtain ⟨-, rfl⟩ := Prod.mk.inj (Except.ok.inj h)
    apply (hjoins.foldl_pushJoin (resolveSpan_joined hspan)).congr
    simp [PendingFilter.spanKey]
  | negated inner ih =>
    rw [convertRelationSpan] at h
    obtain ⟨⟨inner', js⟩, hinner, h⟩ := bind_eq_ok.mp h
    obtain ⟨-, rfl⟩ := Prod.mk.inj (Except.ok.inj h)
    exact ih hinner
  | _ =>
    rw [convertRelationSpan] at h
    · obtain ⟨-, rfl⟩ := Prod.mk.inj (Except.ok.inj h)
      apply hjoins.congr
      simp [PendingFilter.spanKey]
    all_goals simp

theorem lowerRelationSpans_joins {joins joins' : List (Join L)} {pending pending' : List (PendingFilter L)}
    (h : lowerRelationSpans core model joins pending = .ok (pending', joins'))
    (hjoins : JoinsOnce core model W joins) :
    JoinsOnce core model (fun p => W p ∨ ∃ pf ∈ pending, ∃ key, pf.spanKey = some key ∧
      KeyPath core model key p) joins' := by
  induction pending generalizing joins pending' W with
  | nil =>
    rw [lowerRelationSpans] at h
    obtain ⟨-, rfl⟩ := Prod.mk.inj (Except.ok.inj h)
    apply hjoins.congr
    simp
  | cons pf pending ih =>
    rw [lowerRelationSpans] at h
    obtain ⟨⟨pf', js⟩, hconvert, h⟩ := bind_eq_ok.mp h
    obtain ⟨⟨rest, js'⟩, hrest, h⟩ := bind_eq_ok.mp h
    obtain ⟨-, rfl⟩ := Prod.mk.inj (Except.ok.inj h)
    apply (ih hrest (convertRelationSpan_joins hconvert hjoins)).congr
    simp [or_assoc]

private theorem lowerOrderItem_joined {item : PendingOrderItem L} {x : OrderItem L × List (Join L)}
    (h : lowerOrderItem core model item = .ok x) :
    PathsJoined core model (fun p => ∃ key, item.spanKey model = some key ∧ KeyPath core model key p)
      x.2 := by
  cases item with
  | expr e desc nulls =>
    rw [lowerOrderItem] at h
    obtain rfl := Except.ok.inj h
    exact pathsJoined_nil (by simp [PendingOrderItem.spanKey])
  | random =>
    rw [lowerOrderItem] at h
    obtain rfl := Except.ok.inj h
    exact pathsJoined_nil (by simp [PendingOrderItem.spanKey])
  | field name desc nulls =>
    rw [lowerOrderItem] at h
    cases hfield : model.field name with
    | some f =>
      rw [hfield] at h
      obtain rfl := Except.ok.inj h
      exact pathsJoined_nil (by simp [PendingOrderItem.spanKey, hfield])
    | none =>
      rw [hfield] at h
      dsimp only at h
      split at h
      · obtain ⟨⟨hops, terminal⟩, hchain, h⟩ := bind_eq_ok.mp h
        dsimp only at h
        split at h
        · obtain ⟨field, -, h⟩ := bind_eq_ok.mp h
          obtain rfl := Except.ok.inj h
          apply (resolveSpanChain_joined hchain).1.congr
          simp [PendingOrderItem.spanKey, hfield]
        · cases h
      · cases h

theorem lowerOrderItems_joins {items : List (PendingOrderItem L)} {orderBy : List (OrderItem L)}
    {joins : List (Join L)} (hlower : lowerOrderItems core model items = .ok (orderBy, joins)) :
    JoinsOnce core model (fun p => ∃ item ∈ items, ∃ key, item.spanKey model = some key ∧
      KeyPath core model key p) joins := by
  obtain ⟨lowered, hlowered, h⟩ := bind_eq_ok.mp hlower
  obtain ⟨-, rfl⟩ := Prod.mk.inj (Except.ok.inj h)
  have hall := mapM_eq_ok.mp hlowered
  clear hlower hlowered h
  have hjoined : PathsJoined core model (fun p => ∃ item ∈ items, ∃ key,
      item.spanKey model = some key ∧ KeyPath core model key p) (lowered.flatMap (·.2)) := by
    induction hall with
    | nil => exact pathsJoined_nil (by simp)
    | cons hitem _ ih =>
      rw [List.flatMap_cons]
      apply ((lowerOrderItem_joined hitem).append ih).congr
      simp
  exact ⟨PathsJoined.foldl_pushJoin hjoined, nodup_foldl_pushJoin List.nodup_nil⟩

/-- The paths of a `select_related` name. -/
def NamePath (name : String) (p : List String) : Prop := p ≠ [] ∧ p <+: name.splitOn "__"

private theorem selectRelatedHop_joins {name hop : String} {depth : Nat} {done : List String} {h h' w : Hops L}
    (hw : walk core model done = some w) (hcurrent : h.current = w.current) (hpath : h.path = w.path)
    (hs : Segments '_' (done ++ [hop])) (hjoins : JoinsOnce core model W h.joins)
    (hhop : selectRelatedHop core model name depth h hop = .ok h') :
    ∃ w', walk core model (done ++ [hop]) = some w' ∧ h'.current = w'.current ∧ h'.path = w'.path ∧
      JoinsOnce core model (fun p => W p ∨ p = done ++ [hop]) h'.joins := by
  rw [selectRelatedHop] at hhop
  obtain ⟨f, hf, hhop⟩ := bind_eq_ok.mp hhop
  obtain ⟨rel, hrel, hhop⟩ := bind_eq_ok.mp hhop
  obtain ⟨target, ht, hhop⟩ := bind_eq_ok.mp hhop
  obtain ⟨alias_, ha, hhop⟩ := bind_eq_ok.mp hhop
  obtain rfl := Except.ok.inj hhop
  have hnext : h.nextAlias hop = w.nextAlias hop := by rw [Hops.nextAlias, Hops.nextAlias, hpath]
  have hprev : h.prevAlias model = w.prevAlias model := by rw [Hops.prevAlias, Hops.prevAlias, hpath]
  rw [hnext, nextAlias_eq hw hs] at ha
  split at ha
  · cases ha
  · obtain rfl := Except.ok.inj ha
    rw [hcurrent] at hf
    have hstep : w.hop core model hop = some _ :=
      hop_eq_some.mpr ⟨f, rel, target, okOr_eq_ok.mp hf, okOr_eq_ok.mp hrel, okOr_eq_ok.mp ht, rfl⟩
    have hwalk := walk_snoc.mpr ⟨w, hw, hstep⟩
    refine ⟨_, hwalk, rfl, rfl, ?_⟩
    have hends : EndsIn core model (done ++ [hop]) (relationJoin target (h.prevAlias model) f.column
        ("__".intercalate (w.path.toList ++ [hop])) rel.target.2 (target.fields.map (·.column))) := by
      refine ⟨hs, relationJoin target (w.prevAlias model) f.column
        ("__".intercalate (w.path.toList ++ [hop])) rel.target.2 [], ?_, ?_⟩
      · rw [pathJoin, hwalk, Option.bind_some]
        exact List.getLast?_concat
      · rw [hprev]
        rfl
    have hone : PathsJoined core model (fun p => p = done ++ [hop]) [relationJoin target
        (h.prevAlias model) f.column ("__".intercalate (w.path.toList ++ [hop])) rel.target.2
        (target.fields.map (·.column))] := by
      constructor
      · exact fun j hj => ⟨_, rfl, List.mem_singleton.mp hj ▸ hends⟩
      · rintro p rfl
        exact ⟨_, List.mem_singleton_self _, hends⟩
    exact hjoins.foldl_pushJoin hone

private theorem selectRelatedHops_joins {name : String} {depth : Nat} {done hops : List String}
    {h h' w : Hops L}
    (hw : walk core model done = some w) (hcurrent : h.current = w.current) (hpath : h.path = w.path)
    (hs : Segments '_' (done ++ hops)) (hjoins : JoinsOnce core model W h.joins)
    (hhops : selectRelatedHops core model name depth h hops = .ok h') :
    JoinsOnce core model (fun p => W p ∨ ∃ more, more ≠ [] ∧ more <+: hops ∧ p = done ++ more)
      h'.joins := by
  induction hops generalizing depth done h w W with
  | nil =>
    rw [selectRelatedHops] at hhops
    obtain rfl := Except.ok.inj hhops
    apply hjoins.congr
    intro p
    constructor
    · exact Or.inl
    · rintro (hp | ⟨more, hne, hmore, -⟩)
      · exact hp
      · exact absurd (List.prefix_nil.mp hmore) hne
  | cons hop hops ih =>
    rw [selectRelatedHops] at hhops
    obtain ⟨h₁, hhop, hhops⟩ := bind_eq_ok.mp hhops
    have hs' : Segments '_' (done ++ [hop] ++ hops) := by simpa using hs
    obtain ⟨w', hw', hcurrent', hpath', hjoins'⟩ :=
      selectRelatedHop_joins hw hcurrent hpath (hs'.left (by simp)) hjoins hhop
    apply (ih hw' hcurrent' hpath' hs' hjoins' hhops).congr
    intro p
    constructor
    · rintro ((hp | rfl) | ⟨more, hne, hmore, rfl⟩)
      · exact Or.inl hp
      · exact Or.inr ⟨[hop], by simp, by simp, rfl⟩
      · exact Or.inr ⟨hop :: more, by simp, by simpa using hmore, by simp⟩
    · rintro (hp | ⟨more, hne, hmore, rfl⟩)
      · exact Or.inl (Or.inl hp)
      · obtain ⟨seg, more, rfl⟩ := List.exists_cons_of_ne_nil hne
        obtain ⟨rfl, htail⟩ := List.cons_prefix_cons.mp hmore
        by_cases hempty : more = []
        · rw [hempty]
          exact Or.inl (Or.inr rfl)
        · exact Or.inr ⟨more, hempty, htail, by simp⟩

theorem lowerSelectRelated_joins {names : List String} {joins : List (Join L)}
    (h : lowerSelectRelated core model names = .ok joins) :
    JoinsOnce core model (fun p => ∃ name ∈ names, NamePath name p) joins := by
  have hstep : ∀ (names : List String) (joins joins' : List (Join L)) (W : List String → Prop),
      JoinsOnce core model W joins →
      names.foldlM (fun joins name =>
        let hops := name.splitOn "__"
        if hops.any (· = "") then
          .error (.selectRelatedInvalid model.name name ("empty hop in chain `" ++ name ++
            "` (use `field` or `field__nested`, not `field____nested`)"))
        else (selectRelatedHops core model name 0 ⟨joins, model, none⟩ hops).map (·.joins)) joins =
          .ok joins' →
      JoinsOnce core model (fun p => W p ∨ ∃ name ∈ names, NamePath name p) joins' := by
    intro names
    induction names with
    | nil =>
      intro joins joins' W hjoins h
      rw [List.foldlM_nil] at h
      obtain rfl := Except.ok.inj h
      apply hjoins.congr
      simp
    | cons name names ih =>
      intro joins joins' W hjoins h
      rw [List.foldlM_cons] at h
      obtain ⟨joins₁, hname, h⟩ := bind_eq_ok.mp h
      dsimp only at hname
      split at hname
      · cases hname
      · obtain ⟨hops, hhops, rfl⟩ := map_eq_ok.mp hname
        have hstart : walk core model [] = some ⟨[], model, none⟩ := rfl
        have hs : Segments '_' ([] ++ name.splitOn "__") := segments_key name
        have hcurrent : (Hops.mk joins model none).current = (Hops.mk ([] : List (Join L)) model none).current := rfl
        have hpath : (Hops.mk joins model none).path = (Hops.mk ([] : List (Join L)) model none).path := rfl
        have hjoins₁ := selectRelatedHops_joins hstart hcurrent hpath hs hjoins hhops
        apply (ih _ _ _ hjoins₁ h).congr
        simp [NamePath, or_assoc]
  apply (hstep names [] joins (fun _ => False) ⟨pathsJoined_nil fun _ => id, List.nodup_nil⟩ h).congr
  simp

end Spans

section Merge
variable (core : Core L) (model : ModelSchema L)

/-- The join of the path, or a join under its alias that joins the same table on the same columns. -/
def Serves (p : List String) (j : Join L) : Prop :=
  EndsIn core model p j ∨ ∃ j', EndsIn core model p j' ∧ j.alias_ = j'.alias_ ∧ sameJoin core j j' = true

/-- The ad-hoc joins and joins of these paths, each alias once; every path is served. -/
structure Merged (adHoc : List (Join L)) (W : List String → Prop) (joins : List (Join L)) : Prop where
  nodup : (joins.map (·.alias_)).Nodup
  kept : ∀ j ∈ adHoc, j ∈ joins
  ends : ∀ j ∈ joins, j ∈ adHoc ∨ ∃ p, W p ∧ EndsIn core model p j
  served : ∀ p, W p → ∃ j ∈ joins, Serves core model p j

variable {core model}

theorem Serves.alias {p : List String} {j : Join L} (h : Serves core model p j) :
    j.alias_ = pathAlias p := by
  rcases h with h | ⟨j', h, halias, -⟩
  · exact h.alias
  · exact halias.trans h.alias

theorem Serves.segments {p : List String} {j : Join L} (h : Serves core model p j) :
    Segments '_' p := by
  rcases h with h | ⟨j', h, -, -⟩
  · exact h.segments
  · exact h.segments

private theorem nodup_concat_alias {joins : List (Join L)} {j : Join L} (h : (joins.map (·.alias_)).Nodup)
    (hnew : ∀ e ∈ joins, e.alias_ ≠ j.alias_) : ((joins ++ [j]).map (·.alias_)).Nodup := by
  rw [List.map_append, List.nodup_append]
  refine ⟨h, by simp, ?_⟩
  intro a ha b hb
  obtain ⟨e, he, rfl⟩ := List.mem_map.mp ha
  obtain rfl := List.mem_singleton.mp hb
  exact hnew e he

theorem Merged.congr {adHoc joins : List (Join L)} (h : Merged core model adHoc W joins)
    (hiff : ∀ p, W p ↔ V p) : Merged core model adHoc V joins := by
  obtain rfl : W = V := funext fun p => propext (hiff p)
  exact h

theorem JoinsOnce.merged {joins : List (Join L)} (h : JoinsOnce core model W joins) :
    Merged core model [] W joins := by
  refine ⟨h.nodup, by simp, fun j hj => Or.inr (h.ends j hj), ?_⟩
  intro p hp
  obtain ⟨j, hj, hends⟩ := h.joined p hp
  exact ⟨j, hj, Or.inl hends⟩

theorem Merged.addAdHocJoins {done adHoc joins joins' : List (Join L)}
    (h : Merged core model done W joins) (hadd : addAdHocJoins joins adHoc = .ok joins') :
    Merged core model (done ++ adHoc) W joins' := by
  induction adHoc generalizing done joins with
  | nil =>
    rw [Query.addAdHocJoins, List.foldlM_nil] at hadd
    obtain rfl := Except.ok.inj hadd
    rwa [List.append_nil]
  | cons j adHoc ih =>
    rw [Query.addAdHocJoins, List.foldlM_cons] at hadd
    obtain ⟨joins₁, hj, hadd⟩ := bind_eq_ok.mp hadd
    split at hj
    · cases hj
    · rename_i hany
      obtain rfl := Except.ok.inj hj
      have hnew : ∀ e ∈ joins, e.alias_ ≠ j.alias_ := by
        intro e he heq
        exact hany (List.any_eq_true.mpr ⟨e, he, decide_eq_true heq⟩)
      have hstep : Merged core model (done ++ [j]) W (joins ++ [j]) := by
        constructor
        · exact nodup_concat_alias h.nodup hnew
        · intro e he
          rcases List.mem_append.mp he with he | he
          · exact List.mem_append_left [j] (h.kept e he)
          · exact List.mem_append_right joins he
        · intro e he
          rcases List.mem_append.mp he with he | he
          · rcases h.ends e he with he | he
            · exact Or.inl (List.mem_append_left [j] he)
            · exact Or.inr he
          · exact Or.inl (List.mem_append_right done he)
        · intro p hp
          obtain ⟨e, he, hserves⟩ := h.served p hp
          exact ⟨e, List.mem_append_left [j] he, hserves⟩
      have hdone := ih hstep hadd
      rwa [List.append_assoc, List.singleton_append] at hdone

/-- The join of a path is added, or one that serves the path is there. -/
theorem Merged.mergeRelationJoin {adHoc joins joins' : List (Join L)} {p : List String} {j : Join L}
    (h : Merged core model adHoc W joins) (hj : EndsIn core model p j)
    (hmerge : mergeRelationJoin core (adHoc.map (·.alias_)) joins j = .ok joins') :
    Merged core model adHoc (fun p' => W p' ∨ p' = p) joins' := by
  rw [Query.mergeRelationJoin] at hmerge
  cases hfind : joins.find? fun e => e.alias_ = j.alias_ with
  | none =>
    rw [hfind] at hmerge
    obtain rfl := Except.ok.inj hmerge
    have hnew : ∀ e ∈ joins, e.alias_ ≠ j.alias_ := by
      intro e he
      have hne := List.find?_eq_none.mp hfind e he
      simpa using hne
    constructor
    · exact nodup_concat_alias h.nodup hnew
    · exact fun e he => List.mem_append_left [j] (h.kept e he)
    · intro e he
      rcases List.mem_append.mp he with he | he
      · rcases h.ends e he with he | ⟨p', hp', hends⟩
        · exact Or.inl he
        · exact Or.inr ⟨p', Or.inl hp', hends⟩
      · exact Or.inr ⟨p, Or.inr rfl, List.mem_singleton.mp he ▸ hj⟩
    · rintro p' (hp' | rfl)
      · obtain ⟨e, he, hserves⟩ := h.served p' hp'
        exact ⟨e, List.mem_append_left [j] he, hserves⟩
      · exact ⟨j, List.mem_append_right joins (List.mem_singleton_self j), Or.inl hj⟩
  | some e =>
    rw [hfind] at hmerge
    have he := List.mem_of_find?_eq_some hfind
    have halias : e.alias_ = j.alias_ := by simpa using List.find?_some hfind
    dsimp only at hmerge
    split at hmerge
    · cases hmerge
    · rename_i hrefused
      obtain rfl := Except.ok.inj hmerge
      -- The join that is there serves the path: it is the path's own, or ad hoc and the same.
      have hserves : Serves core model p e := by
        rcases h.ends e he with hadHoc | ⟨p', -, hends⟩
        · have hmem : j.alias_ ∈ adHoc.map (·.alias_) := List.mem_map.mpr ⟨e, hadHoc, halias⟩
          have hsame : sameJoin core e j = true := by simpa [hmem] using hrefused
          exact Or.inr ⟨j, hj, halias, hsame⟩
        · obtain rfl := hends.unique hj halias
          exact Or.inl hends
      constructor
      · exact h.nodup
      · exact h.kept
      · intro e' he'
        rcases h.ends e' he' with he' | ⟨p', hp', hends⟩
        · exact Or.inl he'
        · exact Or.inr ⟨p', Or.inl hp', hends⟩
      · rintro p' (hp' | rfl)
        · exact h.served p' hp'
        · exact ⟨e, he, hserves⟩

theorem Merged.foldlM_mergeRelationJoin {adHoc js joins joins' : List (Join L)}
    (h : Merged core model adHoc W joins) (hjs : PathsJoined core model V js)
    (hmerge : js.foldlM (Query.mergeRelationJoin core (adHoc.map (·.alias_))) joins = .ok joins') :
    Merged core model adHoc (fun p => W p ∨ V p) joins' := by
  have hstep : ∀ (js joins : List (Join L)) (W : List String → Prop), Merged core model adHoc W joins →
      (∀ j ∈ js, ∃ p, V p ∧ EndsIn core model p j) →
      js.foldlM (Query.mergeRelationJoin core (adHoc.map (·.alias_))) joins = .ok joins' →
      Merged core model adHoc (fun p => W p ∨ ∃ j ∈ js, EndsIn core model p j) joins' := by
    intro js
    induction js with
    | nil =>
      intro joins W h _ hmerge
      rw [List.foldlM_nil] at hmerge
      obtain rfl := Except.ok.inj hmerge
      apply h.congr
      simp
    | cons j js ih =>
      intro joins W h hends hmerge
      rw [List.foldlM_cons] at hmerge
      obtain ⟨joins₁, hj, hmerge⟩ := bind_eq_ok.mp hmerge
      obtain ⟨p, -, hp⟩ := hends j List.mem_cons_self
      apply (ih _ _ (h.mergeRelationJoin hp hj)
        (fun j' hj' => hends j' (List.mem_cons_of_mem j hj')) hmerge).congr
      intro p'
      have hunique : EndsIn core model p' j ↔ p' = p := by
        constructor
        · exact fun hp' => hp'.unique hp rfl
        · rintro rfl
          exact hp
      simp [hunique, or_assoc]
  apply (hstep js joins W h hjs.ends hmerge).congr
  intro p
  apply or_congr_right
  constructor
  · rintro ⟨j, hj, hp⟩
    obtain ⟨p', hp', hends⟩ := hjs.ends j hj
    obtain rfl := hends.unique hp rfl
    exact hp'
  · exact hjs.joined p

end Merge

end Rustango.Query
