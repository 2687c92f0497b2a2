import Rustango.Query.Where

/-!
# The text of a `WHERE` clause keeps its tree

Read back with the precedence of SQL, the condition that was written has the truth of the predicate
tree, whatever its leaves are.
-/

namespace Rustango.Query

open Rustango.Precedence Rustango.Outcome

variable {L : Lang} {S : Type}

private theorem not3_not3 (b : Option Bool) : not3 (not3 b) = b := by
  cases b <;> simp [not3]

/-- `o` joins operands whose truths `f` combines. -/
structure Joins (o : BinOp) (f : List (Option Bool) → Option Bool) : Prop where
  level : o.level ≤ notLevel
  singleton : ∀ b, f [b] = b
  cons : ∀ b b' bs, f (f [b, b'] :: bs) = f (b :: b' :: bs)
  eval : ∀ {A : Type} (v : A → Option Bool) (c c' : Cond A) (b b' : Option Bool),
    c.eval v = .truth b → c'.eval v = .truth b' →
      ((precedence A).binary o c c').eval v = .truth (f [b, b'])

private theorem joins_and : Joins .and and3 where
  level := by decide
  singleton b := by rcases b with _ | _ | _ <;> rfl
  cons b b' bs := by rcases b with _ | _ | _ <;> rcases b' with _ | _ | _ <;> simp [and3]
  eval v c c' b b' hc hc' := by
    show Cond.eval v (.and c c') = _
    rw [Cond.eval, hc, hc']
    rfl

private theorem joins_or : Joins .or or3 where
  level := by decide
  singleton b := by rcases b with _ | _ | _ <;> rfl
  cons b b' bs := by rcases b with _ | _ | _ <;> rcases b' with _ | _ | _ <;> simp [or3]
  eval v c c' b b' hc hc' := by
    show Cond.eval v (.or c c') = _
    rw [Cond.eval, hc, hc']
    rfl

section Eval
variable {A : Type} {v : A → Option Bool}

theorem Joins.eval_foldl {o : BinOp} {f : List (Option Bool) → Option Bool} (h : Joins o f)
    {c : Cond A} {cs : List (Cond A)} {b : Option Bool} {bs : List (Option Bool)}
    (hc : c.eval v = .truth b) (hcs : List.Forall₂ (fun c b => c.eval v = .truth b) cs bs) :
    (cs.foldl ((precedence A).binary o) c).eval v = .truth (f (b :: bs)) := by
  induction hcs generalizing c b with
  | nil => rw [List.foldl_nil, h.singleton, hc]
  | @cons c' b' cs bs hhead htail ih =>
    rw [List.foldl_cons, ih (h.eval v c c' b b' hc hhead), h.cons]

private theorem eval_oneIf {c : Cond A} {b : Option Bool} (hc : c.eval v = .truth b) :
    (Cond.ite c (.number 1) (.number 0)).eval v = .number (some ([b].count (some true))) := by
  rw [Cond.eval, hc]
  rcases b with _ | _ | _ <;> rfl

private theorem eval_foldl_plus {c : Cond A} {cs : List (Cond A)} {n : Nat} {bs : List (Option Bool)}
    (hc : c.eval v = .number (some n)) (hcs : List.Forall₂ (fun c b => c.eval v = .truth b) cs bs) :
    ((cs.map fun c => Cond.ite c (.number 1) (.number 0)).foldl
      ((precedence A).binary .plus) c).eval v = .number (some (n + bs.count (some true))) := by
  induction hcs generalizing c n with
  | nil => simpa using hc
  | @cons c' b' cs bs hhead htail ih =>
    have hsum : ((precedence A).binary .plus c (.ite c' (.number 1) (.number 0))).eval v =
        .number (some (n + [b'].count (some true))) := by
      show Cond.eval v (.plus _ _) = _
      rw [Cond.eval, hc, eval_oneIf hhead]
      rfl
    have hcount : (b' :: bs).count (some true) = [b'].count (some true) + bs.count (some true) := by
      rw [← List.singleton_append, List.count_append]
    rw [List.map_cons, List.foldl_cons, ih hsum, hcount, Nat.add_assoc]

end Eval

/-- On its own, `ts` reads as a condition with the truth `t`. -/
def Keeps (ts : List (Token (Atom L S))) (t : (Atom L S → Option Bool) → Option Bool) : Prop :=
  ∃ c, ReadsAlone ts c ∧ ∀ v, c.eval v = .truth (t v)

/-- Among the operands of `NOT`, `AND` and `OR`, `ts` reads as one with the truth `t`. -/
def KeepsIn (ts : List (Token (Atom L S))) (t : (Atom L S → Option Bool) → Option Bool) : Prop :=
  ∃ c, ReadsIn notLevel ts c ∧ ∀ v, c.eval v = .truth (t v)

variable {ts : List (Token (Atom L S))} {t : (Atom L S → Option Bool) → Option Bool}

theorem KeepsIn.alone (h : KeepsIn ts t) : Keeps ts t := by
  obtain ⟨c, hc, hv⟩ := h
  exact ⟨c, hc.alone, hv⟩

theorem Keeps.group (h : Keeps ts t) : KeepsIn (group ts) t := by
  obtain ⟨c, hc, hv⟩ := h
  exact ⟨c, hc.group notLevel, hv⟩

theorem KeepsIn.not (h : KeepsIn ts t) : KeepsIn (.not :: ts) fun v => not3 (t v) := by
  obtain ⟨c, hc, hv⟩ := h
  refine ⟨.not c, hc.not, fun v => ?_⟩
  rw [Cond.eval, hv]
  rfl

private theorem keepsIn_shape (a : Atom L S) (s : Shape) : KeepsIn (s.tokens a) fun v => v a := by
  have hnegand : KeepsIn [.negand a] fun v => not3 (v a) :=
    ⟨.negand a, readsIn_negand notLevel a, fun _ => rfl⟩
  have htwice : (fun v : Atom L S → Option Bool => not3 (not3 (v a))) = fun v => v a :=
    funext fun v => not3_not3 (v a)
  cases s with
  | plain => exact ⟨.predicate a, readsIn_predicate notLevel a, fun _ => rfl⟩
  | negated => exact htwice ▸ hnegand.not
  | negatedGroup => exact htwice ▸ hnegand.alone.group.not
  | between => exact ⟨.predicate a, readsIn_between notLevel a, fun _ => rfl⟩

/-- The texts keep these truths, one each. -/
def AllKeepIn (tss : List (List (Token (Atom L S))))
    (bs : (Atom L S → Option Bool) → List (Option Bool)) : Prop :=
  ∃ cs, List.Forall₂ (ReadsIn notLevel) tss cs ∧
    ∀ v, List.Forall₂ (fun c b => c.eval v = .truth b) cs (bs v)

variable {tss : List (List (Token (Atom L S)))}
  {bs : (Atom L S → Option Bool) → List (Option Bool)}

theorem AllKeepIn.nil : AllKeepIn (L := L) (S := S) [] fun _ => [] :=
  ⟨[], .nil, fun _ => .nil⟩

theorem KeepsIn.cons (h : KeepsIn ts t) (hs : AllKeepIn tss bs) :
    AllKeepIn (ts :: tss) fun v => t v :: bs v := by
  obtain ⟨c, hc, hv⟩ := h
  obtain ⟨cs, hcs, hvs⟩ := hs
  exact ⟨c :: cs, .cons hc hcs, fun v => .cons (hv v) (hvs v)⟩

theorem AllKeepIn.joined {o : BinOp} {f : List (Option Bool) → Option Bool} (hf : Joins o f)
    (h : AllKeepIn tss bs) (hne : tss ≠ []) : Keeps (joined o tss) fun v => f (bs v) := by
  obtain ⟨cs, hcs, hvs⟩ := h
  cases hcs with
  | nil => exact absurd rfl hne
  | @cons _ c _ cs hhead htail =>
    refine ⟨_, readsAlone_joined (hf.level) htail hhead, fun v => ?_⟩
    show _ = Datum.truth (f (bs v))
    obtain ⟨b, bs', hc, hrest, hb⟩ := List.forall₂_cons_left_iff.mp (hvs v)
    rw [hb]
    exact hf.eval_foldl hc hrest

/-- The parity of the children that are true; each of them is evaluated once. -/
theorem AllKeepIn.parity (h : AllKeepIn tss bs) (hne : tss ≠ []) :
    Keeps (Query.group (Query.joined .plus (tss.map oneIf)) ++ [.percent, .number 2, .equals, .number 1])
      fun v => some ((bs v).count (some true) % 2 = 1) := by
  obtain ⟨cs, hcs, hvs⟩ := h
  cases hcs with
  | nil => exact absurd rfl hne
  | @cons ts c tss cs hhead htail =>
    have hterm : ∀ ts' c', ReadsIn notLevel ts' c' →
        ReadsIn BinOp.plus.level (oneIf ts') (Cond.ite c' (.number 1) (.number 0) : Cond (Atom L S)) :=
      fun ts' c' h => (h.alone.caseWhen 1 0).group _
    have hterms : List.Forall₂ (ReadsIn BinOp.plus.level) (tss.map oneIf)
        (cs.map fun c => Cond.ite c (.number 1) (.number 0)) := by
      rw [List.forall₂_map_left_iff, List.forall₂_map_right_iff]
      exact htail.imp hterm
    have hsum := (readsAlone_joined (le_refl _) hterms (hterm _ _ hhead)).group BinOp.percent.level
    refine ⟨_, hsum.odd, fun v => ?_⟩
    show _ = Datum.truth (some ((bs v).count (some true) % 2 = 1))
    obtain ⟨b, bs', hc, hrest, hb⟩ := List.forall₂_cons_left_iff.mp (hvs v)
    have hcount : (b :: bs').count (some true) = [b].count (some true) + bs'.count (some true) := by
      rw [← List.singleton_append, List.count_append]
    have htotal := eval_foldl_plus (eval_oneIf hc) hrest
    rw [hb, hcount]
    simp only [Cond.eval, htotal, Datum.number?, Option.bind_some, Option.map_some]

section Write
variable {leaf : WhereExpr L S → Except SqlError Shape}

private theorem keepsIn_leaf {w : WhereExpr L S} (h : writeLeaf leaf w = .ok ts) :
    KeepsIn ts fun v => v (.leaf w) := by
  obtain ⟨s, _, rfl⟩ := map_eq_ok.mp h
  exact keepsIn_shape (.leaf w) s

private theorem keepsIn_equals (x y : Nat) :
    KeepsIn (L := L) (S := S) [.number x, .equals, .number y] fun _ => some (x = y) :=
  ⟨_, readsIn_equals x y, fun _ => rfl⟩

theorem Keeps.child {w : WhereExpr L S} (h : Keeps ts t)
    (hleaf : w.isComposite = false → KeepsIn ts t) : KeepsIn (childText w ts) t := by
  cases hw : w.isComposite with
  | true =>
    rw [childText, hw, if_pos rfl]
    exact h.group
  | false =>
    rw [childText, hw, if_neg (by simp)]
    exact hleaf hw

private theorem keepsIn_of_leaf {w : WhereExpr L S} (hw : w.isComposite = false)
    (h : writeWhereExpr leaf w = .ok ts) : KeepsIn ts fun v => w.truth v := by
  cases w with
  | and items => simp [WhereExpr.isComposite] at hw
  | or items => simp [WhereExpr.isComposite] at hw
  | not child => simp [WhereExpr.isComposite] at hw
  | xor items => simp [WhereExpr.isComposite] at hw
  | predicate f =>
    rw [writeWhereExpr] at h
    exact keepsIn_leaf h
  | exprCompare lhs op rhs =>
    rw [writeWhereExpr] at h
    exact keepsIn_leaf h
  | leaf p =>
    rw [writeWhereExpr] at h
    exact keepsIn_leaf h
  | inSubquery column negated q =>
    rw [writeWhereExpr] at h
    exact keepsIn_leaf h

private theorem writeChildren_ne_nil {w : WhereExpr L S} {ws : List (WhereExpr L S)}
    (h : writeChildren leaf (w :: ws) = .ok tss) : tss ≠ [] := by
  rw [writeChildren] at h
  obtain ⟨ts, _, h⟩ := bind_eq_ok.mp h
  obtain ⟨tss', _, h⟩ := bind_eq_ok.mp h
  obtain rfl := Except.ok.inj h
  exact List.cons_ne_nil _ _

mutual

private theorem writeWhereExpr_keeps : ∀ (w : WhereExpr L S) (ts : List (Token (Atom L S))),
    writeWhereExpr leaf w = .ok ts → Keeps ts fun v => w.truth v
  | .predicate f, _, h => (keepsIn_of_leaf rfl h).alone
  | .exprCompare lhs op rhs, _, h => (keepsIn_of_leaf rfl h).alone
  | .leaf p, _, h => (keepsIn_of_leaf rfl h).alone
  | .inSubquery column negated q, _, h => (keepsIn_of_leaf rfl h).alone
  | .and [], ts, h => by
    rw [writeWhereExpr] at h
    obtain rfl := Except.ok.inj h
    exact (keepsIn_equals 1 1).alone
  | .and (w :: ws), ts, h => by
    rw [writeWhereExpr] at h
    obtain ⟨tss, htss, h⟩ := bind_eq_ok.mp h
    obtain rfl := Except.ok.inj h
    exact (writeChildren_keep (w :: ws) tss htss).joined joins_and (writeChildren_ne_nil htss)
  | .or [], ts, h => by simp [writeWhereExpr] at h
  | .or (w :: ws), ts, h => by
    rw [writeWhereExpr] at h
    obtain ⟨tss, htss, h⟩ := bind_eq_ok.mp h
    obtain rfl := Except.ok.inj h
    exact (writeChildren_keep (w :: ws) tss htss).joined joins_or (writeChildren_ne_nil htss)
  | .xor [], ts, h => by simp [writeWhereExpr] at h
  | .xor [w], ts, h => by
    rw [writeWhereExpr] at h
    exact writeWhereExpr_keeps w ts h
  | .xor (w :: w' :: ws), ts, h => by
    rw [writeWhereExpr] at h
    obtain ⟨tss, htss, h⟩ := bind_eq_ok.mp h
    obtain rfl := Except.ok.inj h
    exact (writeChildren_keep (w :: w' :: ws) tss htss).parity (writeChildren_ne_nil htss)
  | .not child, ts, h => by
    rw [writeWhereExpr] at h
    obtain ⟨ts', hts', h⟩ := bind_eq_ok.mp h
    obtain rfl := Except.ok.inj h
    exact (writeWhereExpr_keeps child ts' hts').group.not.alone

private theorem writeChildren_keep : ∀ (ws : List (WhereExpr L S)) (tss : List (List (Token (Atom L S)))),
    writeChildren leaf ws = .ok tss →
      AllKeepIn tss fun v => WhereExpr.truths v ws
  | [], tss, h => by
    rw [writeChildren] at h
    obtain rfl := Except.ok.inj h
    exact AllKeepIn.nil
  | w :: ws, tss, h => by
    rw [writeChildren] at h
    obtain ⟨ts, hts, h⟩ := bind_eq_ok.mp h
    obtain ⟨tss', htss', h⟩ := bind_eq_ok.mp h
    obtain rfl := Except.ok.inj h
    have hw := (writeWhereExpr_keeps w ts hts).child fun hw => keepsIn_of_leaf hw hts
    exact hw.cons (writeChildren_keep ws tss' htss')

end

private theorem writeLeaf_ok_iff {w : WhereExpr L S} :
    (∃ ts, writeLeaf leaf w = .ok ts) ↔ ∃ s, leaf w = .ok s := by
  constructor
  · intro ⟨ts, h⟩
    obtain ⟨s, hs, _⟩ := map_eq_ok.mp h
    exact ⟨s, hs⟩
  · intro ⟨s, hs⟩
    exact ⟨_, map_eq_ok.mpr ⟨s, hs, rfl⟩⟩

private theorem bind_ok_iff {α β : Type} {x : Except SqlError α} {f : α → β} :
    (∃ b, (x >>= fun a => .ok (f a)) = .ok b) ↔ ∃ a, x = .ok a := by
  constructor
  · intro ⟨b, h⟩
    obtain ⟨a, ha, _⟩ := bind_eq_ok.mp h
    exact ⟨a, ha⟩
  · intro ⟨a, ha⟩
    exact ⟨f a, bind_eq_ok.mpr ⟨a, ha, rfl⟩⟩

mutual

private theorem writeWhereExpr_ok_iff : ∀ w : WhereExpr L S,
    (∃ ts, writeWhereExpr leaf w = .ok ts) ↔ w.Writable leaf
  | .predicate f => by
    rw [writeWhereExpr, writeLeaf_ok_iff, WhereExpr.Writable]
  | .exprCompare lhs op rhs => by
    rw [writeWhereExpr, writeLeaf_ok_iff, WhereExpr.Writable]
  | .leaf p => by
    rw [writeWhereExpr, writeLeaf_ok_iff, WhereExpr.Writable]
  | .inSubquery column negated q => by
    rw [writeWhereExpr, writeLeaf_ok_iff, WhereExpr.Writable]
  | .and [] => by
    simp [writeWhereExpr, WhereExpr.Writable, WhereExpr.AllWritable]
  | .and (w :: ws) => by
    rw [writeWhereExpr, bind_ok_iff, WhereExpr.Writable]
    exact writeChildren_ok_iff (w :: ws)
  | .or [] => by
    simp [writeWhereExpr, WhereExpr.Writable]
  | .or (w :: ws) => by
    rw [writeWhereExpr, bind_ok_iff, WhereExpr.Writable, writeChildren_ok_iff (w :: ws)]
    exact (and_iff_right (List.cons_ne_nil w ws)).symm
  | .xor [] => by
    simp [writeWhereExpr, WhereExpr.Writable]
  | .xor [w] => by
    rw [writeWhereExpr, writeWhereExpr_ok_iff w, WhereExpr.Writable]
    simp [WhereExpr.AllWritable]
  | .xor (w :: w' :: ws) => by
    rw [writeWhereExpr, bind_ok_iff, WhereExpr.Writable, writeChildren_ok_iff (w :: w' :: ws)]
    exact (and_iff_right (List.cons_ne_nil w (w' :: ws))).symm
  | .not child => by
    rw [writeWhereExpr, bind_ok_iff, WhereExpr.Writable]
    exact writeWhereExpr_ok_iff child

private theorem writeChildren_ok_iff : ∀ ws : List (WhereExpr L S),
    (∃ tss, writeChildren leaf ws = .ok tss) ↔ WhereExpr.AllWritable leaf ws
  | [] => by
    simp [writeChildren, WhereExpr.AllWritable]
  | w :: ws => by
    rw [WhereExpr.AllWritable, ← writeWhereExpr_ok_iff w, ← writeChildren_ok_iff ws, writeChildren]
    constructor
    · intro ⟨tss, h⟩
      obtain ⟨ts, hts, h⟩ := bind_eq_ok.mp h
      obtain ⟨tss', htss', _⟩ := bind_eq_ok.mp h
      exact ⟨⟨ts, hts⟩, ⟨tss', htss'⟩⟩
    · intro ⟨⟨ts, hts⟩, ⟨tss', htss'⟩⟩
      exact ⟨_, bind_eq_ok.mpr ⟨ts, hts, bind_eq_ok.mpr ⟨tss', htss', rfl⟩⟩⟩

end

end Write

private theorem writeWhereWithSearch_ok_iff {leaf : WhereExpr L S → Except SqlError Shape}
    {w : WhereExpr L S} {search : Option SearchClause} :
    (∃ text, writeWhereWithSearch leaf w search = .ok text) ↔ w.Writable leaf := by
  have hempty : w.isEmpty = true → w.Writable leaf := by
    intro h
    cases w with
    | and items =>
      cases items with
      | nil => trivial
      | cons w ws => simp [WhereExpr.isEmpty] at h
    | _ => simp [WhereExpr.isEmpty] at h
  rw [writeWhereWithSearch]
  cases hw : w.isEmpty with
  | true =>
    have hok := hempty hw
    cases search.filter fun s => s.query ≠ "" with
    | none => exact iff_of_true ⟨none, rfl⟩ hok
    | some s => exact iff_of_true ⟨some (searchText s), rfl⟩ hok
  | false =>
    rw [← writeWhereExpr_ok_iff w]
    cases search.filter fun s => s.query ≠ "" with
    | none => exact ⟨fun ⟨_, h⟩ => (map_eq_ok.mp h).imp fun _ h => h.1,
        fun ⟨ts, h⟩ => ⟨some ts, map_eq_ok.mpr ⟨ts, h, rfl⟩⟩⟩
    | some s => exact bind_ok_iff

private theorem and3_append (bs : List (Option Bool)) (b : Option Bool) :
    and3 [and3 bs, b] = and3 (bs ++ [b]) := by
  by_cases hf : some false ∈ bs
  · simp [and3, hf]
  · by_cases hn : none ∈ bs
    · rcases b with _ | _ | _ <;> simp [and3, hf, hn]
    · rcases b with _ | _ | _ <;> simp [and3, hf, hn]

private theorem truths_eq_map (v : Atom L S → Option Bool) (ws : List (WhereExpr L S)) :
    WhereExpr.truths v ws = ws.map (·.truth v) := by
  induction ws with
  | nil => rfl
  | cons w ws ih => rw [WhereExpr.truths, ih, List.map_cons]

private theorem truth_of_isEmpty {w : WhereExpr L S} (h : w.isEmpty = true) (v : Atom L S → Option Bool) :
    w.truth v = some true := by
  cases w with
  | and items =>
    cases items with
    | nil => rfl
    | cons w ws => simp [WhereExpr.isEmpty] at h
  | _ => simp [WhereExpr.isEmpty] at h

private theorem and3_pair_true (b : Option Bool) : and3 [b, some true] = b := by
  rcases b with _ | _ | _ <;> rfl

private theorem and3_true_pair (b : Option Bool) : and3 [some true, b] = b := by
  rcases b with _ | _ | _ <;> rfl

private theorem truth_withGlobalScopes (m : ModelSchema L) (w : WhereExpr L S)
    (v : Atom L S → Option Bool) : (m.withGlobalScopes w).truth v =
      and3 (m.globalScopes.map (fun scope => (scope.apply.lift : WhereExpr L S).truth v) ++
        [w.truth v]) := by
  have hscopes : m.globalScopes.map (fun scope => (scope.apply.lift : WhereExpr L S).truth v) =
      (m.globalScopeExprs []).map fun scope => (scope.lift : WhereExpr L S).truth v := by
    simp [ModelSchema.globalScopeExprs]
  rw [hscopes, ModelSchema.withGlobalScopes]
  generalize m.globalScopeExprs [] = scopes
  cases scopes with
  | nil => exact (joins_and.singleton _).symm
  | cons scope scopes =>
    cases hw : w.isEmpty with
    | true => simp [WhereExpr.truth, truths_eq_map, truth_of_isEmpty hw, and3]
    | false => simp [WhereExpr.truth, truths_eq_map, Function.comp_def]

private theorem allKeepIn_matched (columns : List String) :
    AllKeepIn (L := L) (S := S) (columns.map fun c => [.predicate (.matched c)])
      fun v => columns.map fun c => v (.matched c) := by
  induction columns with
  | nil => exact AllKeepIn.nil
  | cons column columns ih => exact (keepsIn_shape (.matched column) .plain).cons ih

private theorem searchText_keeps {s : SearchClause} (hs : s.query ≠ "") :
    KeepsIn (L := L) (S := S) (searchText s) s.truth := by
  have htruth : s.truth = fun v : Atom L S → Option Bool => or3 (s.columns.map fun c => v (.matched c)) :=
    funext fun v => if_neg hs
  rw [htruth, searchText]
  cases hc : s.columns with
  | nil => exact keepsIn_equals 1 0
  | cons column columns =>
    have hjoined := (allKeepIn_matched (L := L) (S := S) (column :: columns)).joined joins_or (by simp)
    exact hjoined.group

theorem KeepsIn.and {ts' : List (Token (Atom L S))} {t' : (Atom L S → Option Bool) → Option Bool}
    (h : KeepsIn ts t) (h' : KeepsIn ts' t') : Keeps (ts ++ .and :: ts') fun v => and3 [t v, t' v] :=
  (h.cons (h'.cons AllKeepIn.nil)).joined joins_and (by simp)

/-- The clause accepts the rows whose truth `t` is; without a clause every row is accepted. -/
def Restricts (text : Option (List (Token (Atom L S))))
    (t : (Atom L S → Option Bool) → Option Bool) : Prop :=
  match text with
  | none => ∀ v, t v = some true
  | some ts => ∃ c, readCondition ts = some c ∧ ∀ v, c.eval v = .truth (t v)

theorem Keeps.restricts (h : Keeps ts t) : Restricts (some ts) t := by
  obtain ⟨c, hc, hv⟩ := h
  exact ⟨c, hc.readCondition, hv⟩

private theorem writeWhereWithSearch_restricts {leaf : WhereExpr L S → Except SqlError Shape}
    {w : WhereExpr L S} {search : Option SearchClause} {text : Option (List (Token (Atom L S)))}
    (h : writeWhereWithSearch leaf w search = .ok text) :
    Restricts text fun v => and3 [w.truth v, search.elim (some true) (·.truth v)] := by
  cases hsearch : search.filter fun s => s.query ≠ "" with
  | none =>
    have hnone : ∀ v : Atom L S → Option Bool, search.elim (some true) (·.truth v) = some true := by
      intro v
      cases search with
      | none => rfl
      | some s =>
        have hs : s.query = "" := by simpa using hsearch
        exact if_pos hs
    cases hw : w.isEmpty with
    | true =>
      rw [writeWhereWithSearch, hw, hsearch] at h
      obtain rfl := Except.ok.inj h
      intro v
      show and3 [w.truth v, search.elim (some true) (·.truth v)] = some true
      rw [hnone, and3_pair_true, truth_of_isEmpty hw]
    | false =>
      rw [writeWhereWithSearch, hw, hsearch] at h
      obtain ⟨ts, hts, rfl⟩ := map_eq_ok.mp h
      simp only [hnone, and3_pair_true]
      exact (writeWhereExpr_keeps w ts hts).restricts
  | some s =>
    obtain ⟨rfl, hs⟩ := Option.filter_eq_some_iff.mp hsearch
    have hquery : s.query ≠ "" := by simpa using hs
    cases hw : w.isEmpty with
    | true =>
      rw [writeWhereWithSearch, hw, hsearch] at h
      obtain rfl := Except.ok.inj h
      simp only [Option.elim_some, truth_of_isEmpty hw, and3_true_pair]
      exact (searchText_keeps hquery).alone.restricts
    | false =>
      rw [writeWhereWithSearch, hw, hsearch] at h
      obtain ⟨ts, hts, h⟩ := bind_eq_ok.mp h
      obtain rfl := Except.ok.inj h
      exact ((writeWhereExpr_keeps w ts hts).group.and (searchText_keeps hquery)).restricts

private theorem and3_append_pair (bs cs : List (Option Bool)) :
    and3 [and3 bs, and3 cs] = and3 (bs ++ cs) := by
  by_cases hf : some false ∈ bs <;> by_cases hf' : some false ∈ cs <;>
    by_cases hn : none ∈ bs <;> by_cases hn' : none ∈ cs <;> simp [and3, hf, hf', hn, hn']

private theorem or3_append_pair (bs cs : List (Option Bool)) : or3 [or3 bs, or3 cs] = or3 (bs ++ cs) := by
  by_cases ht : some true ∈ bs <;> by_cases ht' : some true ∈ cs <;>
    by_cases hn : none ∈ bs <;> by_cases hn' : none ∈ cs <;> simp [or3, ht, ht', hn, hn']

section Q
variable (v : Atom L S → Option Bool) (a b : Q L S)

private theorem truth_bitand : (a.bitand b).expr.truth v = and3 [a.expr.truth v, b.expr.truth v] := by
  rw [Q.bitand]
  split
  · next as bs ha hb =>
    rw [ha, hb, WhereExpr.truth, WhereExpr.truth, WhereExpr.truth, and3_append_pair]
    simp only [truths_eq_map, List.map_append]
  · next as ha _ =>
    rw [ha, WhereExpr.truth, WhereExpr.truth, ← joins_and.singleton (b.expr.truth v),
      and3_append_pair]
    simp [truths_eq_map]
  · next bs hb _ =>
    rw [hb, WhereExpr.truth, WhereExpr.truth, ← joins_and.singleton (a.expr.truth v),
      and3_append_pair]
    rfl
  · rfl

private theorem truth_bitor : (a.bitor b).expr.truth v = or3 [a.expr.truth v, b.expr.truth v] := by
  rw [Q.bitor]
  split
  · next as bs ha hb =>
    rw [ha, hb, WhereExpr.truth, WhereExpr.truth, WhereExpr.truth, or3_append_pair]
    simp only [truths_eq_map, List.map_append]
  · next as ha _ =>
    rw [ha, WhereExpr.truth, WhereExpr.truth, ← joins_or.singleton (b.expr.truth v),
      or3_append_pair]
    simp [truths_eq_map]
  · next bs hb _ =>
    rw [hb, WhereExpr.truth, WhereExpr.truth, ← joins_or.singleton (a.expr.truth v),
      or3_append_pair]
    rfl
  · rfl

private theorem truth_not : a.not.expr.truth v = not3 (a.expr.truth v) := by
  rw [Q.not]
  split
  · next inner ha => rw [ha, WhereExpr.truth, not3_not3]
  · rfl

private theorem truth_eval (e : QExpr L S) : e.eval.expr.truth v = e.truth v := by
  induction e with
  | raw q => rfl
  | and a b iha ihb => rw [QExpr.eval, truth_bitand, iha, ihb, QExpr.truth]
  | or a b iha ihb => rw [QExpr.eval, truth_bitor, iha, ihb, QExpr.truth]
  | xor a b iha ihb =>
    rw [QExpr.truth, ← iha, ← ihb]
    rfl
  | not a ih => rw [QExpr.eval, truth_not, ih, QExpr.truth]

end Q

section Rows
variable (m : Meaning L) (table : String) (sub : S → List L.Value) (env : Env L)

/-- What each predicate says of a row. -/
def atomTruth (matched : String → Option Bool) : Atom L S → Option Bool
  | .leaf w => w.holds m table sub env
  | .matched column => matched column

mutual

theorem WhereExpr.truth_atomTruth (matched : String → Option Bool) : ∀ w : WhereExpr L S,
    w.truth (atomTruth m table sub env matched) = w.holds m table sub env
  | .predicate _ => rfl
  | .exprCompare _ _ _ => rfl
  | .leaf _ => rfl
  | .inSubquery _ _ _ => rfl
  | .and items => congrArg and3 (WhereExpr.truths_atomTruth matched items)
  | .or items => congrArg or3 (WhereExpr.truths_atomTruth matched items)
  | .not child => congrArg not3 (child.truth_atomTruth matched)
  | .xor items => congrArg xor3 (WhereExpr.truths_atomTruth matched items)

theorem WhereExpr.truths_atomTruth (matched : String → Option Bool) : ∀ ws : List (WhereExpr L S),
    WhereExpr.truths (atomTruth m table sub env matched) ws = WhereExpr.holdsAll m table sub env ws
  | [] => rfl
  | w :: ws => by
    rw [WhereExpr.truths, WhereExpr.holdsAll, w.truth_atomTruth matched,
      WhereExpr.truths_atomTruth matched ws]

end

end Rows

/-- For any tree or `Q` expression, under the model's scopes and with a search: the clause is written
exactly when no `OR` and no `XOR` is empty and each predicate can be written, and the condition read
back has the truth of the tree, whatever its predicates are. -/
theorem where_keeps_tree (leaf : WhereExpr L S → Except SqlError Shape) (m : ModelSchema L)
    (e : QExpr L S) (search : Option SearchClause) :
    ((∃ text, writeWhereWithSearch leaf (m.withGlobalScopes e.eval.expr) search = .ok text) ↔
        (m.withGlobalScopes e.eval.expr).Writable leaf) ∧
      ∀ text, writeWhereWithSearch leaf (m.withGlobalScopes e.eval.expr) search = .ok text →
        Restricts text fun v => whereTruth v m e search := by
  refine ⟨writeWhereWithSearch_ok_iff, fun text h => ?_⟩
  have htruth : ∀ v : Atom L S → Option Bool, whereTruth v m e search =
      and3 [(m.withGlobalScopes e.eval.expr).truth v, search.elim (some true) (·.truth v)] := by
    intro v
    rw [truth_withGlobalScopes, and3_append, truth_eval, List.append_assoc]
    rfl
  simp only [htruth]
  exact writeWhereWithSearch_restricts h

/-- A model whose scope hides what is gone. -/
private def tome : ModelSchema IntLang where
  name := "Tome"
  table := "tome"
  fields := []
  globalScopes := [⟨"kept", .predicate ⟨"gone", .isNull, some 1⟩⟩]

private def tomeLeaf : WhereExpr IntLang Empty → Except SqlError Shape
  | .predicate ⟨_, .between, _⟩ => .ok .between
  | _ => .ok .plain

/-- `(old | !long) & !(old ^ long)` -/
private def tomeExpr : QExpr IntLang Empty :=
  let old := QExpr.raw ⟨.predicate ⟨"year", .between, some 0⟩⟩
  let long := QExpr.raw ⟨.predicate ⟨"pages", .gt, some 500⟩⟩
  .and (.or old (.not long)) (.not (.xor old long))

theorem where_keeps_tree_tome :
    ∃ text, writeWhereWithSearch tomeLeaf (tome.withGlobalScopes tomeExpr.eval.expr) none = .ok text ∧
      Restricts text fun v => whereTruth v tome tomeExpr none :=
  ⟨_, rfl, (where_keeps_tree tomeLeaf tome tomeExpr none).2 _ rfl⟩

end Rustango.Query
