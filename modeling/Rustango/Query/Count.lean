import Rustango.Query.Fetch
import Rustango.Query.SetOps

/-!
# Counting a query

`COUNT(*)` reads the table where only filters shape the rows, and the query as a derived table
elsewhere. An order that picks no rows is dropped there, which changes no count.
-/

namespace Rustango.Query

open Rustango.Firsts

variable {L : Lang}

/-- `source` counts the rows of a `SELECT` instead of the table. -/
structure CountQuery (L : Lang) where
  model : ModelSchema L
  whereClause : WhereExpr L Empty
  source : Option (SelectQuery L)

namespace SelectQuery
variable (q : SelectQuery L)

/-- Only `WHERE` shapes the row set. -/
def isPlainFilter : Bool :=
  q.joins.isEmpty && q.subqueryJoins.isEmpty && q.limit.isNone && q.offset.isNone &&
    q.distinct.isNone && q.compound.isEmpty

def isDistinctOn : Bool :=
  match q.distinct with
  | some (.on_ _) => true
  | _ => false

/-- An order with no limit, offset or `DISTINCT ON` next to it picks no rows. -/
def dropUnusedOrder : SelectQuery L :=
  { q with
    orderBy := if q.limit.isNone && q.offset.isNone && !q.isDistinctOn then [] else q.orderBy
    compoundOrderBy := if q.compoundLimit.isNone && q.compoundOffset.isNone then []
      else q.compoundOrderBy }

/-- The query as a derived table, where a row lock has no meaning. -/
def intoDerived : SelectQuery L := ({ q with lockMode := none } : SelectQuery L).dropUnusedOrder

end SelectQuery

namespace CountQuery

def new (model : ModelSchema L) (whereClause : WhereExpr L Empty) : CountQuery L :=
  ⟨model, whereClause, none⟩

/-- Counts the rows `select` returns. -/
def fromSelect (select : SelectQuery L) : CountQuery L :=
  if select.isPlainFilter then ⟨select.model, select.whereClause, none⟩
  else { new select.model (.and []) with source := some select.intoDerived }

/-- Counts at most one of the rows. -/
def exists_ (select : SelectQuery L) : CountQuery L :=
  let select := select.dropUnusedOrder
  let one (l : Option Int) : Option Int := some ((l.map fun n => min n 1).getD 1)
  if select.compound.isEmpty then fromSelect { select with limit := one select.limit }
  else fromSelect { select with compoundLimit := one select.compoundLimit }

variable (m : Meaning L) (db : Database L) (c : CountQuery L)

/-- The count may be `n`. -/
def Counts (n : Nat) : Prop :=
  match c.source with
  | none => c.whereClause.reads m c.model.table = [] ∧
      n = (((db c.model.table).map Env.base).filter fun e =>
        c.whereClause.accepts m c.model.table e).length
  | some source => ∃ rows, source.Fetches m db rows ∧
      n = (rows.filter fun row => c.whereClause.accepts m c.model.table (mergedEnv m row)).length

end CountQuery

section Count
variable {m : Meaning L} {db : Database L} {q : SelectQuery L}

/-- Without set operations the number of rows is determined. -/
theorem fetches_length (hc : q.compound = []) {n : Nat} :
    (∃ rows, q.Fetches m db rows ∧ n = rows.length) ↔
      q.InScope m ∧ n = (slice q.limit q.offset (q.dedupFetched m (q.matching m db))).length := by
  have hlength : ∀ l, (q.matching m db).Perm l → (slice q.limit q.offset (q.dedupFetched m l)).length =
      (slice q.limit q.offset (q.dedupFetched m (q.matching m db))).length := fun l hl =>
    length_window_congr (length_dedupFetched_perm hl.symm) _ _
  constructor
  · rintro ⟨rows, hrows, rfl⟩
    obtain ⟨hscope, draw, l, hl, -, rfl⟩ := (fetches_plain hc).mp hrows
    exact ⟨hscope, by rw [List.length_map, hlength l hl]⟩
  · rintro ⟨hscope, rfl⟩
    obtain ⟨l, hl, hsorted⟩ := exists_arrangement m q.model.table (fun _ => 0) q.orderBy
      (q.matching m db)
    refine ⟨_, (fetches_plain hc).mpr ⟨hscope, fun _ => 0, l, hl, hsorted, rfl⟩, ?_⟩
    rw [List.length_map, hlength l hl]

theorem accepts_nil (table : String) (e : Env L) :
    (WhereExpr.and [] : WhereExpr L Empty).accepts m table e = true := rfl

/-- A count is the number of rows of the derived table. -/
theorem counts_fromSelect {n : Nat} : (CountQuery.fromSelect q).Counts m db n ↔
    ∃ rows, q.intoDerived.Fetches m db rows ∧ n = rows.length := by
  by_cases hplain : q.isPlainFilter = true
  · have hq := hplain
    simp only [SelectQuery.isPlainFilter, Bool.and_eq_true, List.isEmpty_iff,
      Option.isNone_iff_eq_none] at hq
    obtain ⟨⟨⟨⟨⟨hjoins, hsub⟩, hlimit⟩, hoffset⟩, hdistinct⟩, hcompound⟩ := hq
    have horder : q.intoDerived.orderBy = [] := by
      simp [SelectQuery.intoDerived, SelectQuery.dropUnusedOrder, SelectQuery.isDistinctOn, hlimit,
        hoffset, hdistinct]
    have haliases : q.aliases = [] := by simp [SelectQuery.aliases, hjoins, hsub]
    have hscope : q.intoDerived.InScope m ↔ q.whereClause.reads m q.model.table = [] := by
      change (q.model.table :: q.aliases).Nodup ∧ q.whereClause.reads m q.model.table ⊆ q.aliases ∧
        (∀ i ∈ q.intoDerived.orderBy, i.reads m q.model.table ⊆ q.aliases) ↔ _
      simp [horder, haliases]
    have hrows : slice q.limit q.offset (q.dedup m (q.matching m db)) =
        ((db q.model.table).map Env.base).filter fun e => q.whereClause.accepts m q.model.table e := by
      simp [slice, limitCount, offsetCount, SelectQuery.dedup, SelectQuery.matching,
        SelectQuery.sources, hjoins, hsub, hlimit, hoffset, hdistinct]
    have hderived : q.intoDerived.compound = [] := hcompound
    rw [CountQuery.fromSelect, if_pos hplain, fetches_length hderived, hscope,
      dedupFetched_of_unordered horder]
    change (_ ∧ _) ↔ _ ∧ n = (slice q.limit q.offset (q.dedup m (q.matching m db))).length
    rw [hrows]
  · rw [CountQuery.fromSelect, if_neg hplain]
    change (∃ rows, q.intoDerived.Fetches m db rows ∧ n = (rows.filter fun row =>
      (WhereExpr.and [] : WhereExpr L Empty).accepts m q.model.table (mergedEnv m row)).length) ↔ _
    simp only [accepts_nil, List.filter_true]

/-- The rows of one are the rows of the other, up to tied values and their arrangement. -/
def Alike (m : Meaning L) (a b : List (List (String × L.Value))) : Prop :=
  ∃ b', b.Perm b' ∧ List.Forall₂ (fun x y => sameOutput m x y = true) a b'

section Alike
variable {a a' b rows : List (List (String × L.Value))}

private theorem exists_partner_left (h : List.Forall₂ (fun x y => sameOutput m x y = true) a a')
    {x : List (String × L.Value)} (hx : x ∈ a) : ∃ y ∈ a', sameOutput m x y = true := by
  induction h with
  | nil => cases hx
  | @cons u v us vs huv _ ih =>
    rcases List.mem_cons.mp hx with rfl | hx
    · exact ⟨v, List.mem_cons_self, huv⟩
    · obtain ⟨y, hy, hxy⟩ := ih hx
      exact ⟨y, List.mem_cons_of_mem v hy, hxy⟩

private theorem exists_partner_right (h : List.Forall₂ (fun x y => sameOutput m x y = true) a a')
    {y : List (String × L.Value)} (hy : y ∈ a') : ∃ x ∈ a, sameOutput m x y = true := by
  induction h with
  | nil => cases hy
  | @cons u v us vs huv _ ih =>
    rcases List.mem_cons.mp hy with rfl | hy
    · exact ⟨u, List.mem_cons_self, huv⟩
    · obtain ⟨x, hx, hxy⟩ := ih hy
      exact ⟨x, List.mem_cons_of_mem u hx, hxy⟩

private theorem exists_alike_choice (p p' : List (String × L.Value) → Prop)
    (hp : ∀ x, p x → ∃ y, p' y ∧ sameOutput m x y = true)
    (hp' : ∀ y, p' y → ∃ x, p x ∧ sameOutput m x y = true) (hsub : ∀ r ∈ rows, p r)
    (hapart : Apart (sameOutput m) rows) (hcovers : ∀ r, p r → present m rows r) :
    ∃ rows', List.Forall₂ (fun x y => sameOutput m x y = true) rows rows' ∧ (∀ r ∈ rows', p' r) ∧
      Apart (sameOutput m) rows' ∧ ∀ r, p' r → present m rows' r := by
  have hchoice : ∀ l : List (List (String × L.Value)), (∀ r ∈ l, p r) → Apart (sameOutput m) l →
      ∃ l', List.Forall₂ (fun x y => sameOutput m x y = true) l l' ∧ (∀ r ∈ l', p' r) ∧
        Apart (sameOutput m) l' := by
    intro l
    induction l with
    | nil => exact fun _ _ => ⟨[], List.Forall₂.nil, by simp, List.Pairwise.nil⟩
    | cons x xs ih =>
      intro hl hap
      rw [Apart, List.pairwise_cons] at hap
      obtain ⟨y, hy, hxy⟩ := hp x (hl x List.mem_cons_self)
      obtain ⟨ys, hsame, hys, hapys⟩ := ih (fun r hr => hl r (List.mem_cons_of_mem x hr)) hap.2
      refine ⟨y :: ys, List.Forall₂.cons hxy hsame, ?_, ?_⟩
      · intro r hr
        rcases List.mem_cons.mp hr with rfl | hr
        · exact hy
        · exact hys r hr
      · rw [Apart, List.pairwise_cons]
        refine ⟨fun z hz => ?_, hapys⟩
        obtain ⟨w, hw, hwz⟩ := exists_partner_right hsame hz
        rw [Bool.eq_false_iff]
        intro hyz
        have hxw := sameOutput_trans hxy (sameOutput_trans hyz (sameOutput_symm hwz))
        rw [hap.1 w hw] at hxw
        cases hxw
  obtain ⟨rows', hsame, hsub', hapart'⟩ := hchoice rows hsub hapart
  refine ⟨rows', hsame, hsub', hapart', fun y hy => ?_⟩
  obtain ⟨x, hx, hxy⟩ := hp' y hy
  obtain ⟨r, hr, hrx⟩ := hcovers x hx
  obtain ⟨r', hr', hrr'⟩ := exists_partner_left hsame hr
  exact ⟨r', hr', sameOutput_trans (sameOutput_symm hrr') (sameOutput_trans hrx hxy)⟩

private theorem alike_of_perm (h : a.Perm a') : Alike m a a' :=
  ⟨a, h.symm, List.forall₂_same.mpr fun x _ => sameOutput_refl x⟩

private theorem alike_dedup (hon : q.isDistinctOn = false) {l l' : List (Env L)} (h : l.Perm l') :
    Alike m ((q.dedup m l).map (q.output m)) ((q.dedup m l').map (q.output m)) := by
  unfold SelectQuery.isDistinctOn at hon
  unfold SelectQuery.dedup
  cases hd : q.distinct with
  | none => exact alike_of_perm (h.map _)
  | some mode =>
    cases mode with
    | on_ cols =>
      rw [hd] at hon
      cases hon
    | all =>
      let r (a b : Env L) : Bool := sameOutput m (q.output m a) (q.output m b)
      have hrefl : ∀ e, r e e = true := fun e => sameOutput_refl _
      have hsymm : ∀ e e', r e e' = true → r e' e = true := fun _ _ => sameOutput_symm
      have htrans : ∀ e e' e'', r e e' = true → r e' e'' = true → r e e'' = true :=
        fun _ _ _ => sameOutput_trans
      have hfirsts := transversal_firsts hrefl htrans l
      have hfirsts' : Transversal r l (firsts r l') :=
        ⟨fun e he => h.mem_iff.mpr ((firsts_sublist r l').subset he), firsts_apart r l',
          fun e he => exists_mem_firsts r hrefl htrans (h.mem_iff.mp he)⟩
      obtain ⟨k, hk, hmatch⟩ := hfirsts.exists_matching hrefl hsymm htrans hfirsts'
      refine ⟨k.map (q.output m), hk.map _, ?_⟩
      rw [List.forall₂_map_left_iff, List.forall₂_map_right_iff]
      exact hmatch

/-- A set operation takes alike rows to alike rows. -/
private theorem combines_alike {op : SetOp} (ha : Alike m a a') (h : op.Combines m a b rows) :
    ∃ rows', op.Combines m a' b rows' ∧ Alike m rows rows' := by
  obtain ⟨a'', hperm, hsame⟩ := ha
  suffices hfor : ∃ rows', op.Combines m a'' b rows' ∧ Alike m rows rows' by
    obtain ⟨rows', hcombines, halike⟩ := hfor
    exact ⟨rows', QuerySet.combines_perm hperm.symm (List.Perm.refl _) hcombines, halike⟩
  have hpresent : ∀ {x y}, sameOutput m x y = true → (present m b x ↔ present m b y) := by
    intro x y hxy
    constructor
    · intro ⟨r, hr, hrx⟩
      exact ⟨r, hr, sameOutput_trans hrx hxy⟩
    · intro ⟨r, hr, hry⟩
      exact ⟨r, hr, sameOutput_trans hry (sameOutput_symm hxy)⟩
  cases op with
  | unionAll =>
    have hboth : List.Forall₂ (fun x y => sameOutput m x y = true) (a ++ b) (a'' ++ b) :=
      List.rel_append hsame (List.forall₂_same.mpr fun x _ => sameOutput_refl x)
    obtain ⟨rows', hrows, hperm'⟩ := List.perm_comp_forall₂ h.symm hboth
    exact ⟨rows', hperm'.symm, rows', List.Perm.refl _, hrows⟩
  | union =>
    obtain ⟨hsub, hapart, hcovers⟩ := h
    obtain ⟨rows', hrows, hsub', hapart', hcovers'⟩ := exists_alike_choice
      (fun r => r ∈ a ++ b) (fun r => r ∈ a'' ++ b) (fun x hx => by
        rcases List.mem_append.mp hx with hx | hx
        · obtain ⟨y, hy, hxy⟩ := exists_partner_left hsame hx
          exact ⟨y, List.mem_append_left b hy, hxy⟩
        · exact ⟨x, List.mem_append_right a'' hx, sameOutput_refl x⟩) (fun y hy => by
        rcases List.mem_append.mp hy with hy | hy
        · obtain ⟨x, hx, hxy⟩ := exists_partner_right hsame hy
          exact ⟨x, List.mem_append_left b hx, hxy⟩
        · exact ⟨y, List.mem_append_right a hy, sameOutput_refl y⟩) (fun r hr => hsub hr) hapart hcovers
    exact ⟨rows', ⟨fun r hr => hsub' r hr, hapart', hcovers'⟩, rows', List.Perm.refl _, hrows⟩
  | intersection =>
    obtain ⟨hsub, hapart, hcovers⟩ := h
    obtain ⟨rows', hrows, hsub', hapart', hcovers'⟩ := exists_alike_choice
      (fun r => r ∈ a ∧ present m b r) (fun r => r ∈ a'' ∧ present m b r) (fun x hx => by
        obtain ⟨y, hy, hxy⟩ := exists_partner_left hsame hx.1
        exact ⟨y, ⟨hy, (hpresent hxy).mp hx.2⟩, hxy⟩) (fun y hy => by
        obtain ⟨x, hx, hxy⟩ := exists_partner_right hsame hy.1
        exact ⟨x, ⟨hx, (hpresent hxy).mpr hy.2⟩, hxy⟩) hsub hapart (fun r hr => hcovers r hr.1 hr.2)
    exact ⟨rows', ⟨hsub', hapart', fun r hr hb => hcovers' r ⟨hr, hb⟩⟩, rows', List.Perm.refl _, hrows⟩
  | difference =>
    obtain ⟨hsub, hapart, hcovers⟩ := h
    obtain ⟨rows', hrows, hsub', hapart', hcovers'⟩ := exists_alike_choice
      (fun r => r ∈ a ∧ ¬ present m b r) (fun r => r ∈ a'' ∧ ¬ present m b r)
      (fun x hx => by
        obtain ⟨y, hy, hxy⟩ := exists_partner_left hsame hx.1
        exact ⟨y, ⟨hy, fun hb => hx.2 ((hpresent hxy).mpr hb)⟩, hxy⟩) (fun y hy => by
        obtain ⟨x, hx, hxy⟩ := exists_partner_right hsame hy.1
        exact ⟨x, ⟨hx, fun hb => hy.2 ((hpresent hxy).mp hb)⟩, hxy⟩) hsub hapart
        (fun r hr => hcovers r hr.1 hr.2)
    exact ⟨rows', ⟨hsub', hapart', fun r hr hb => hcovers' r ⟨hr, hb⟩⟩, rows', List.Perm.refl _, hrows⟩

private theorem folds_alike {branches : List (CompoundBranch L)} (ha : Alike m a a')
    (h : SelectQuery.Folds m db branches a rows) :
    ∃ rows', SelectQuery.Folds m db branches a' rows' ∧ Alike m rows rows' := by
  induction branches generalizing a a' with
  | nil =>
    rw [SelectQuery.Folds] at h
    exact ⟨a', by rw [SelectQuery.Folds], h ▸ ha⟩
  | cons branch branches ih =>
    obtain ⟨op, query⟩ := branch
    rw [SelectQuery.Folds] at h
    obtain ⟨b, combined, hb, hcombined, hrest⟩ := h
    obtain ⟨combined', hcombined', halike⟩ := combines_alike ha hcombined
    obtain ⟨rows', hrest', hrows⟩ := ih halike hrest
    refine ⟨rows', ?_, hrows⟩
    rw [SelectQuery.Folds]
    exact ⟨b, combined', hb, hcombined', hrest'⟩

theorem Alike.length_eq (h : Alike m a b) : a.length = b.length := by
  obtain ⟨b', hperm, hsame⟩ := h
  rw [hsame.length_eq, hperm.length_eq]

end Alike

private theorem windowed_length {table : String} {items : List (OrderItem L)} {limit offset : Option Int}
    {combined : List (List (String × L.Value))} {n : Nat} :
    (∃ rows, Windowed m table items limit offset combined rows ∧ n = rows.length) ↔
      (∀ i ∈ items, i.Unqualified m) ∧ n = (slice limit offset combined).length := by
  constructor
  · rintro ⟨rows, ⟨hitems, draw, l, hl, -, rfl⟩, rfl⟩
    exact ⟨hitems, length_window_congr hl.symm.length_eq _ _⟩
  · rintro ⟨hitems, rfl⟩
    obtain ⟨l, hl, hsorted⟩ := exists_arrangement m table (fun _ => 0) items (combined.map (mergedEnv m))
    obtain ⟨k, hk, rfl⟩ := exists_of_map_perm hl
    exact ⟨_, ⟨hitems, fun _ => 0, k, hk, hsorted, rfl⟩, length_window_congr hk.length_eq _ _⟩

private theorem answers_length_compound (hc : q.compound ≠ []) {n : Nat} :
    (∃ rows, q.Answers m db rows ∧ n = rows.length) ↔
      (∀ i ∈ q.compoundOrderBy, i.Unqualified m) ∧ ∃ envs, q.Selects m db envs ∧ ∃ combined,
        SelectQuery.Folds m db q.compound (envs.map (q.output m)) combined ∧
          n = (slice q.compoundLimit q.compoundOffset combined).length := by
  constructor
  · rintro ⟨rows, hrows, rfl⟩
    obtain ⟨envs, henvs, combined, hfolds, hwindow⟩ := (SelectQuery.answers_compound_iff hc).mp hrows
    have hlen := windowed_length.mp ⟨rows, hwindow, rfl⟩
    exact ⟨hlen.1, envs, henvs, combined, hfolds, hlen.2⟩
  · rintro ⟨hitems, envs, henvs, combined, hfolds, rfl⟩
    obtain ⟨rows, hwindow, hlen⟩ := windowed_length.mpr ⟨hitems, rfl⟩
    exact ⟨rows, (SelectQuery.answers_compound_iff hc).mpr ⟨envs, henvs, combined, hfolds, hwindow⟩, hlen⟩

theorem intoDerived_orderBy : q.intoDerived.orderBy = q.orderBy ∨
    q.intoDerived.orderBy = [] ∧ q.limit = none ∧ q.offset = none ∧ q.isDistinctOn = false := by
  by_cases h : (q.limit.isNone && q.offset.isNone && !q.isDistinctOn) = true
  · right
    have hq := h
    simp only [Bool.and_eq_true, Option.isNone_iff_eq_none, Bool.not_eq_true'] at hq
    exact ⟨if_pos h, hq.1.1, hq.1.2, hq.2⟩
  · exact Or.inl (if_neg h)

private theorem intoDerived_compoundOrderBy {i : OrderItem L} (h : i ∈ q.intoDerived.compoundOrderBy) :
    i ∈ q.compoundOrderBy := by
  change i ∈ (if q.compoundLimit.isNone && q.compoundOffset.isNone then [] else q.compoundOrderBy) at h
  split at h
  · cases h
  · exact h

/-- The order of a query in no set operation, and of the head of one. -/
theorem intoDerived_asBranch_orderBy : q.intoDerived.asBranch.orderBy = q.asBranch.orderBy ∨
    q.intoDerived.asBranch.orderBy = [] ∧ q.limit = none ∧ q.offset = none ∧
      q.isDistinctOn = false := by
  rcases intoDerived_orderBy (q := q) with horder | ⟨horder, hrest⟩
  · left
    have hhelpers : q.intoDerived.distinctOrderHelpers = q.distinctOrderHelpers := by
      rw [SelectQuery.distinctOrderHelpers, horder]
      rfl
    have hwritten : q.intoDerived.writtenOrder false = q.writtenOrder false := by
      simp only [SelectQuery.writtenOrder, SelectQuery.dropsOrder, SelectQuery.needsHelpers, hhelpers,
        horder]
      rfl
    change (if q.distinct = some .all then q.intoDerived.writtenOrder false else q.intoDerived.orderBy) =
      if q.distinct = some .all then q.writtenOrder false else q.orderBy
    rw [hwritten, horder]
  · right
    refine ⟨?_, hrest⟩
    have hwritten : q.intoDerived.writtenOrder false = [] := by
      rw [SelectQuery.writtenOrder, horder, ite_self]
    change (if q.distinct = some .all then q.intoDerived.writtenOrder false else q.intoDerived.orderBy) = []
    rw [hwritten, horder, ite_self]

/-- The database finds the tables that the orders of a set operation name. -/
structure OrdersInScope (m : Meaning L) (q : SelectQuery L) : Prop where
  head : ∀ i ∈ q.asBranch.orderBy, i.reads m q.model.table ⊆ q.aliases
  combined : ∀ i ∈ q.compoundOrderBy, i.Unqualified m

theorem OrdersInScope.of_fetches (hc : q.compound ≠ []) {rows : List (List (String × L.Value))}
    (h : q.Fetches m db rows) : OrdersInScope m q := by
  have hbranch : q.asBranch.compound ≠ [] := hc
  obtain ⟨envs, hselects, combined, -, hwindow⟩ :=
    (SelectQuery.answers_compound_iff hbranch).mp ((fetches_combined hc).mp h)
  exact ⟨hselects.1.2.2, hwindow.1⟩

theorem OrdersInScope.inScope_iff (h : OrdersInScope m q) :
    q.intoDerived.asBranch.InScope m ↔ q.asBranch.InScope m := by
  have hderived : ∀ i ∈ q.intoDerived.asBranch.orderBy, i.reads m q.model.table ⊆ q.aliases := by
    intro i hi
    rcases intoDerived_asBranch_orderBy (q := q) with horder | ⟨horder, -⟩
    · exact h.head i (horder ▸ hi)
    · rw [horder] at hi
      cases hi
  constructor
  · exact fun hscope => ⟨hscope.1, hscope.2.1, h.head⟩
  · exact fun hscope => ⟨hscope.1, hscope.2.1, hderived⟩

/-- The rows that the head of a derived table selects are alike with and without its order. -/
theorem OrdersInScope.selects_alike (h : OrdersInScope m q) :
    (∀ envs, q.intoDerived.asBranch.Selects m db envs → ∃ envs', q.asBranch.Selects m db envs' ∧
      Alike m (envs.map (q.output m)) (envs'.map (q.output m))) ∧
    ∀ envs, q.asBranch.Selects m db envs → ∃ envs', q.intoDerived.asBranch.Selects m db envs' ∧
      Alike m (envs.map (q.output m)) (envs'.map (q.output m)) := by
  rcases intoDerived_asBranch_orderBy (q := q) with horder | ⟨horder, hlimit, hoffset, hon⟩
  · have hiff : ∀ envs, q.intoDerived.asBranch.Selects m db envs ↔ q.asBranch.Selects m db envs := by
      intro envs
      rw [SelectQuery.Selects, SelectQuery.Selects, h.inScope_iff, horder]
      exact Iff.rfl
    exact ⟨fun envs henvs => ⟨envs, (hiff envs).mp henvs, alike_of_perm (List.Perm.refl _)⟩,
      fun envs henvs => ⟨envs, (hiff envs).mpr henvs, alike_of_perm (List.Perm.refl _)⟩⟩
  · have hslice : ∀ l : List (Env L), slice q.limit q.offset l = l := by
      rw [hlimit, hoffset]
      exact fun _ => rfl
    constructor
    · rintro envs ⟨hscope, draw, l, hl, -, rfl⟩
      obtain ⟨l', hl', hsorted⟩ := exists_arrangement m q.model.table draw q.asBranch.orderBy
        (q.matching m db)
      refine ⟨_, ⟨h.inScope_iff.mp hscope, draw, l', hl', hsorted, rfl⟩, ?_⟩
      change Alike m ((slice q.limit q.offset (q.dedup m l)).map _)
        ((slice q.limit q.offset (q.dedup m l')).map _)
      rw [hslice, hslice]
      exact alike_dedup hon (hl.symm.trans hl')
    · rintro envs ⟨hscope, draw, l, hl, -, rfl⟩
      have hunordered : l.Pairwise (ordered m q.model.table draw q.intoDerived.asBranch.orderBy) := by
        rw [horder]
        exact List.pairwise_of_forall fun _ _ => trivial
      exact ⟨_, ⟨h.inScope_iff.mpr hscope, draw, l, hl, hunordered, rfl⟩, alike_of_perm (List.Perm.refl _)⟩

/-- The count of a set operation is the number of rows that it returns. -/
theorem counts_combined (hc : q.compound ≠ []) (h : OrdersInScope m q) {n : Nat} :
    (CountQuery.fromSelect q).Counts m db n ↔ ∃ rows, q.Fetches m db rows ∧ n = rows.length := by
  have hderived : q.intoDerived.compound ≠ [] := hc
  have hbranch : q.asBranch.compound ≠ [] := hc
  have hboth : q.intoDerived.asBranch.compound ≠ [] := hc
  have hitems : ∀ i ∈ q.intoDerived.asBranch.compoundOrderBy, i.Unqualified m := fun i hi =>
    h.combined i (intoDerived_compoundOrderBy hi)
  simp only [counts_fromSelect, fetches_combined hderived, fetches_combined hc]
  rw [answers_length_compound hboth, answers_length_compound hbranch]
  constructor
  · rintro ⟨-, envs, henvs, combined, hfolds, rfl⟩
    obtain ⟨envs', henvs', halike⟩ := h.selects_alike.1 envs henvs
    obtain ⟨combined', hfolds', hsame⟩ := folds_alike halike hfolds
    exact ⟨h.combined, envs', henvs', combined', hfolds', length_window_congr hsame.length_eq _ _⟩
  · rintro ⟨-, envs, henvs, combined, hfolds, rfl⟩
    obtain ⟨envs', henvs', halike⟩ := h.selects_alike.2 envs henvs
    obtain ⟨combined', hfolds', hsame⟩ := folds_alike halike hfolds
    exact ⟨hitems, envs', henvs', combined', hfolds', length_window_congr hsame.length_eq _ _⟩

/-- Without a slice a count counts what `DISTINCT` keeps, without helper columns. -/
theorem counts_unsliced (hc : q.compound = []) (hlimit : q.limit = none) (hoffset : q.offset = none)
    (hscope : q.InScope m) {n : Nat} :
    (CountQuery.fromSelect q).Counts m db n ↔ n = (q.dedup m (q.matching m db)).length := by
  have hderived : q.intoDerived.compound = [] := hc
  have hinScope : q.intoDerived.InScope m := by
    refine ⟨hscope.1, hscope.2.1, fun i hi => ?_⟩
    rcases intoDerived_orderBy (q := q) with horder | ⟨horder, -⟩
    · exact hscope.2.2 i (horder ▸ hi)
    · rw [horder] at hi
      cases hi
  have hdedup : q.intoDerived.dedupFetched m (q.matching m db) = q.dedup m (q.matching m db) := by
    rcases intoDerived_orderBy (q := q) with horder | ⟨horder, -⟩
    · by_cases hd : q.distinct = some .all
      · rw [dedupFetched_of_unordered]
        · rfl
        · simp [SelectQuery.intoDerived, SelectQuery.dropUnusedOrder, SelectQuery.isDistinctOn, hlimit,
            hoffset, hd]
      · exact dedupFetched_of_ne (q := q.intoDerived) hd _
    · exact dedupFetched_of_unordered horder _
  rw [counts_fromSelect, fetches_length hderived]
  change (_ ∧ n = (slice q.limit q.offset (q.intoDerived.dedupFetched m (q.matching m db))).length) ↔ _
  rw [hdedup, hlimit, hoffset]
  exact and_iff_right hinScope

end Count

end Rustango.Query
