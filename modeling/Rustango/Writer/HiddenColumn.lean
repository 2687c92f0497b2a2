import Rustango.Writer.TreeFlows

/-!
# The hidden column of a page or of an annotated list

A page's total and the count of a row's children are columns the next SELECT body writes. They belong
to the outermost SELECT; an ORDER BY expression that DISTINCT repeats in the select list comes first.
-/

namespace Rustango.Writer

open Rustango.Query (Dialect DistinctMode SearchClause)
open Act

variable {L : Lang}

structure CountQuery (L : Lang) where
  model : L.Model
  whereClause : Tree L
  search : Option SearchClause
  source : Option (SelectQuery L)

/-- Only `WHERE` and search shape the rows. -/
def SelectQuery.isPlainFilter (q : SelectQuery L) : Bool :=
  q.joins.isEmpty && q.subqueryJoins.isEmpty && q.limit.isNone && q.offset.isNone
    && q.distinct.isNone && q.compound.isEmpty

def isDistinctOn : Option DistinctMode → Bool
  | some (.on_ _) => true
  | _ => false

def SelectQuery.dropUnusedOrder (q : SelectQuery L) : SelectQuery L :=
  { q with
    orderBy := if q.limit.isNone && q.offset.isNone && !isDistinctOn q.distinct then [] else q.orderBy
    compoundOrderBy :=
      if q.compoundLimit.isNone && q.compoundOffset.isNone then [] else q.compoundOrderBy }

def SelectQuery.intoDerived (q : SelectQuery L) : SelectQuery L :=
  { q with lockMode := none }.dropUnusedOrder

/-- `CountQuery::from_select` -/
def CountQuery.fromSelect (q : SelectQuery L) : CountQuery L :=
  if q.isPlainFilter then ⟨q.model, q.whereClause, q.search, none⟩
  else ⟨q.model, .and [], none, some q.intoDerived⟩

variable (layout : Layout L)

def writeCount (c : CountQuery L) : Act L :=
  let scope := Scope.plain c.model
  under (fun e => e.push scope) (seq [text "SELECT COUNT(*)",
    writeFromSource scope (SelectQuery.sourceAct layout c.source),
    writeWhereWithSearch layout.search (c.whereClause.act layout) c.whereClause.isEmpty c.search
      (some c.model)])

def countText (c : CountQuery L) (e : Env L) : Except SqlError (Text L) := do
  let b ← writeCount layout c e .new
  .ok b.sql

/-- `write_distinct_with_total` -/
def writeDistinctWithTotal (q : SelectQuery L) : Act L := fun e b =>
  let count := CountQuery.fromSelect { q with limit := none, offset := none, lockMode := none }
  (q.draft layout).write layout.search e { b with total := some (countText layout count) }

/-- `compile_select_with_child_count`, for a query that is no set operation -/
def writeWithChildCount (child : ChildCount) (q : SelectQuery L) : Act L := fun e b =>
  (q.draft layout).write layout.search e { b with childCount := some child }

/-- What a statement asks for beside its rows. -/
inductive Asked where
  | total
  | childCount (child : ChildCount)

def Asked.slot : Asked → Slot
  | .total => .total
  | .childCount _ => .childCount

/-- The queries whose hidden column goes through a slot: a page of a `DISTINCT` the dialect has, an
annotated list of any query; neither a set operation. -/
def Asked.fits (d : Dialect) (q : SelectQuery L) : Asked → Bool
  | .total => q.compound.isEmpty && q.distinct.isSome && !windowed q.distinct d
  | .childCount _ => q.compound.isEmpty

def Asked.act (q : SelectQuery L) : Asked → Act L
  | .total => writeDistinctWithTotal layout q
  | .childCount child => writeWithChildCount layout child q

def compileAsked (asked : Asked) (d : Dialect) (q : SelectQuery L) : Except SqlError (Text L) :=
  (asked.act layout q).run d

/-- The column of `slot` stands once in the text: in the select list of the outermost SELECT, right
before its `FROM`. No other SELECT has the column of a slot. -/
def OuterColumn (slot : Slot) (text : Text L) : Prop :=
  ∃ before after, text
      = before ++ (1, .hidden slot) :: (1, .word (.text " FROM ")) :: after
    ∧ ∀ k, hiddenDepths k before = [] ∧ hiddenDepths k after = []

variable {layout}

theorem OuterColumn.depths {slot : Slot} {text : Text L} (h : OuterColumn slot text) :
    hiddenDepths slot text = [1] := by
  obtain ⟨before, after, htext, hnone⟩ := h
  rw [htext, hiddenDepths_append, (hnone slot).1]
  have hafter := (hnone slot).2
  simpa [hiddenDepths] using hafter

private theorem seq_cons_ok {a : Act L} {as : List (Act L)} {e : Env L} {b b' : Sql L}
    (h : seq (a :: as) e b = .ok b') : ∃ m, a e b = .ok m ∧ seq as e m = .ok b' := by
  simp only [seq, bind, Except.bind] at h
  cases hmid : a e b with
  | error error =>
    rw [hmid] at h
    cases h
  | ok m =>
    rw [hmid] at h
    exact ⟨m, rfl, h⟩

/-- Only `slot` is set, if any. -/
def Slots.Only (slot : Slot) (s : Slots L) : Prop := s.Clean ∧ ∀ k, k ≠ slot → s.has k = false

theorem Slots.Only.taken {slot : Slot} {s : Slots L} (h : s.Only slot) (t : Slot → Bool) :
    (s.taken t).Only slot := by
  refine ⟨h.1.taken t, fun k hk => ?_⟩
  rw [Slots.has_taken, h.2 k hk]
  rfl

section Column
variable {slot : Slot} {e : Env L} {b b' : Sql L}

theorem Flow.shows_nothing {least : Nat} {a : Act L} {t : Slot → Bool} (h : Flow e least a t)
    (hclean : b.slots.Clean) (hnone : ∀ k, b.slots.has k = false) (hrun : a e b = .ok b') :
    ∃ text, b'.sql = b.sql ++ text ∧ ∀ k, hiddenDepths k text = [] := by
  obtain ⟨_, text, htext, hshown⟩ := h b b' hclean hrun
  refine ⟨text, htext, fun k => ?_⟩
  have hk := hshown k
  rw [hnone k] at hk
  exact hk

private theorem takes_own_column {parent : String} {as : List (Act L)}
    (honly : b.slots.Only slot) (hset : b.slots.has slot = true)
    (hrun : seq (takeTotal :: takeChildCount parent :: as) e b = .ok b') :
    ∃ m before, m.sql = b.sql ++ before ++ [(e.depth, .hidden slot)]
      ∧ (∀ k, hiddenDepths k before = []) ∧ (∀ k, m.slots.has k = false)
      ∧ seq as e m = .ok b' := by
  obtain ⟨m, htotal, hrun⟩ := seq_cons_ok hrun
  obtain ⟨m', hchild, hrun⟩ := seq_cons_ok hrun
  cases slot with
  | total =>
    have hnochild : b.childCount = none :=
      Option.isNone_iff_eq_none.mp (by
        have hother := honly.2 .childCount (by decide)
        simpa [Sql.slots, Slots.has] using hother)
    obtain ⟨count, hcount⟩ : ∃ count, b.total = some count := Option.isSome_iff_exists.mp hset
    unfold takeTotal at htotal
    rw [hcount] at htotal
    simp only [bind, Except.bind] at htotal
    cases htext : count e with
    | error error =>
      rw [htext] at htotal
      cases htotal
    | ok text =>
      rw [htext] at htotal
      cases htotal
      have hclean := honly.1 count hcount e text htext
      unfold takeChildCount at hchild
      simp only [Sql.append, hnochild] at hchild
      cases hchild
      refine ⟨_, e.words [.text ", ("] ++ text ++ e.words [.text ") AS "], ?_, ?_, ?_, hrun⟩
      · simp only [List.append_assoc]
      · intro k
        simp [hclean k]
      · intro k
        cases k <;> rfl
  | childCount =>
    have hnototal : b.total = none :=
      Option.isNone_iff_eq_none.mp (by
        have hother := honly.2 .total (by decide)
        simpa [Sql.slots, Slots.has] using hother)
    obtain ⟨child, hcount⟩ : ∃ child, b.childCount = some child := Option.isSome_iff_exists.mp hset
    unfold takeTotal at htotal
    rw [hnototal] at htotal
    cases htotal
    unfold takeChildCount at hchild
    rw [hcount] at hchild
    cases hchild
    refine ⟨_, e.words (childCountColumn parent child), ?_, ?_, ?_, hrun⟩
    · simp only [Sql.append, List.append_assoc]
    · intro k
      exact hiddenDepths_words k e _
    · intro k
      cases k
      · simp [Sql.slots, Slots.has, Sql.append, hnototal]
      · rfl

private theorem outer_column {parent : String} {rest : Act L} {t : Slot → Bool}
    (hdepth : e.depth = 1) (honly : b.slots.Only slot) (hset : b.slots.has slot = true)
    (hsql : ∀ k, hiddenDepths k b.sql = []) (hrest : Flow e (e.depth + 1) rest t)
    (hrun : seq [takeTotal, takeChildCount parent, Act.text " FROM ", rest] e b = .ok b') :
    OuterColumn slot b'.sql := by
  obtain ⟨m, before, hm, hbefore, hnone, hrun⟩ := takes_own_column honly hset hrun
  obtain ⟨m', hfrom, hrun⟩ := seq_cons_ok hrun
  cases hfrom
  obtain ⟨after, hafter, hshown⟩ := hrest.one.shows_nothing (b := m.append (e.words [.text " FROM "]))
    (fun count hcount => by
      have hno := hnone .total
      simp only [Sql.slots, Sql.append] at hcount
      simp [Sql.slots, Slots.has, hcount] at hno) hnone hrun
  refine ⟨b.sql ++ before, after, ?_, fun k => ⟨?_, hshown k⟩⟩
  · rw [hafter]
    simp only [Sql.append, hm, Env.words, List.map_cons, List.map_nil, hdepth, List.append_assoc,
      List.cons_append, List.nil_append]
  · rw [hiddenDepths_append, hsql k, hbefore k]
    rfl

private theorem emit_first {ws : Env L → List (Word L)} (hsql : b.sql = [])
    (hrun : Act.emit ws e b = .ok b') : b'.slots = b.slots ∧ ∀ k, hiddenDepths k b'.sql = [] := by
  cases hrun
  refine ⟨rfl, fun k => ?_⟩
  rw [Sql.append, hsql]
  exact hiddenDepths_words k e _

/-- A SELECT body at the top writes the column itself, unless an ORDER BY expression that its DISTINCT
repeats takes the slot first. -/
private theorem plain_body_column {d : SelectDraft L} (h : d.Flows layout) (hdepth : e.depth = 1)
    (honly : b.slots.Only slot) (hset : b.slots.has slot = true) (hsql : b.sql = [])
    {projection : Option (List String)} {lock : Option Query.LockMode} {label : Bool}
    (hrun : d.writePlainBody layout.search projection lock true label e b = .ok b') :
    if d.query.distinct.isSome && OrderItem.takesAny layout e.dialect slot d.query.orderBy then
      ∃ n, 2 ≤ n ∧ hiddenDepths slot b'.sql = [n]
    else OuterColumn slot b'.sql := by
  unfold SelectDraft.writePlainBody at hrun
  obtain ⟨c, hselect, hrun⟩ := seq_cons_ok hrun
  obtain ⟨hc, hcsql⟩ := emit_first hsql hselect
  rw [← hc] at honly hset
  obtain ⟨m, hhelpers, hrun⟩ := seq_cons_ok hrun
  obtain ⟨hslots, text, htext, hshown⟩ := adds_nests (e := e) h projection c m honly.1 hhelpers
  obtain ⟨t, hrest⟩ := writeRest_flow (e := e) h lock (true && d.needsHelpers projection)
    (d.needsHelpers projection && !true && d.query.limit.isNone && d.query.offset.isNone)
  have hmonly : m.slots.Only slot := by
    rw [hslots]
    exact honly.taken _
  have hmset := Slots.has_taken c.slots (fun k => d.query.distinct.isSome
    && OrderItem.takesAny layout e.dialect k d.query.orderBy) slot
  have hk := hshown slot
  rw [hset, Bool.true_and] at hmset hk
  rw [← hslots] at hmset
  dsimp only at hk hmset
  split_ifs with htakes
  · rw [htakes] at hk hmset
    obtain ⟨n, hn, hds⟩ := hk
    have hmnone : ∀ k, m.slots.has k = false := by
      intro k
      by_cases hkslot : k = slot
      · rw [hkslot]
        exact hmset
      · exact hmonly.2 k hkslot
    have htail := (Flow.takeTotal (le_refl e.depth)).cons
      ((Flow.takeChildCount (e.scopeOr d.query.model).name (le_refl e.depth)).cons
        (Flow.cons_text " FROM " (hrest.weaken (Nat.le_succ e.depth)).one))
    obtain ⟨after, hafter, hafterShown⟩ := htail.shows_nothing hmonly.1 hmnone hrun
    refine ⟨n, by omega, ?_⟩
    rw [hafter, htext, hiddenDepths_append, hiddenDepths_append, hcsql, hds, hafterShown slot]
    rfl
  · rw [Bool.not_eq_true] at htakes
    rw [htakes] at hk hmset
    refine outer_column hdepth hmonly hmset (fun k => ?_) hrest hrun
    have hnone : hiddenDepths k text = [] := by
      by_cases hkslot : k = slot
      · rw [hkslot]
        exact hk
      · have hother := hshown k
        rw [honly.2 k hkslot] at hother
        exact hother
    rw [htext, hiddenDepths_append, hcsql, hnone]
    rfl

private theorem window_column {d : SelectDraft L} (h : d.Flows layout) (hdepth : e.depth = 1)
    (honly : b.slots.Only .childCount) (hset : b.slots.has .childCount = true) (hsql : b.sql = [])
    {projection : Option (List String)} {cols : List String}
    (hrun : d.writeDistinctOnViaWindow layout.search projection cols e b = .ok b') :
    OuterColumn .childCount b'.sql := by
  obtain ⟨c, hselect, hrun⟩ := seq_cons_ok hrun
  obtain ⟨hc, hcsql⟩ := emit_first hsql hselect
  rw [← hc] at honly hset
  have hnototal : c.total = none := by
    have hother := honly.2 .total (by decide)
    simpa [Sql.slots, Slots.has] using hother
  have hrest := writeRanked_nests h projection cols e
  have hrun' : seq [takeTotal, takeChildCount "sub", Act.text " FROM ",
      d.writeRanked layout.search projection cols] e c = .ok b' := by
    simp only [seq, takeTotal, hnototal, bind, Except.bind] at hrun ⊢
    exact hrun
  exact outer_column hdepth honly hset hcsql hrest hrun'

end Column

section Statement
variable {slot : Slot} {dialect : Dialect} {q : SelectQuery L} {b b' : Sql L}

/-- What an ORDER BY expression takes before the outermost SELECT does. -/
def SelectQuery.orderTakes (layout : Layout L) (dialect : Dialect) (slot : Slot) (q : SelectQuery L) :
    Bool :=
  q.distinct.isSome && !windowed q.distinct dialect
    && OrderItem.takesAny layout dialect slot q.orderBy

private theorem write_top (hempty : q.compound.isEmpty = true)
    (hrun : (q.draft layout).write layout.search (.new dialect) b = .ok b') :
    ∃ e : Env L, e.depth = 1 ∧ e.dialect = dialect ∧ (q.draft layout).writeBodyQualified
      layout.search q.projection q.lockMode true e b = .ok b' := by
  have hdraft : (q.draft layout).Flows layout ∧ (q.draft layout).query = q :=
    SelectQuery.draft_flows q
  unfold SelectDraft.write Act.reading SelectDraft.writeAs Act.under at hrun
  rw [hdraft.2, hempty] at hrun
  exact ⟨_, rfl, rfl, hrun⟩

private theorem body_cases {d : SelectDraft L} {e : Env L} {projection : Option (List String)}
    {lock : Option Query.LockMode} {orderHelpers : Bool}
    (hrun : d.writeBodyQualified layout.search projection lock orderHelpers e b = .ok b') :
    (∃ cols, windowed d.query.distinct e.dialect = true ∧
      d.writeDistinctOnViaWindow layout.search projection cols e
        { b with labelModelCols := false } = .ok b') ∨
    (windowed d.query.distinct e.dialect = false ∧ ∃ label,
      d.writePlainBody layout.search projection lock orderHelpers label e
        { b with labelModelCols := false } = .ok b') := by
  unfold SelectDraft.writeBodyQualified Act.takeLabel Act.reading at hrun
  cases hdistinct : d.query.distinct with
  | none =>
    rw [hdistinct] at hrun
    exact .inr ⟨rfl, _, hrun⟩
  | some mode =>
    rw [hdistinct] at hrun
    cases mode with
    | all => exact .inr ⟨rfl, _, hrun⟩
    | on_ cols =>
      dsimp only at hrun
      cases hdialect : e.dialect with
      | postgres =>
        rw [hdialect] at hrun
        exact .inr ⟨rfl, _, hrun⟩
      | mysql =>
        rw [hdialect] at hrun
        exact .inl ⟨cols, rfl, hrun⟩
      | sqlite =>
        rw [hdialect] at hrun
        exact .inl ⟨cols, rfl, hrun⟩

private theorem statement_column (hempty : q.compound.isEmpty = true)
    (hfits : slot = .total → windowed q.distinct dialect = false)
    (honly : b.slots.Only slot) (hset : b.slots.has slot = true) (hsql : b.sql = [])
    (hrun : (q.draft layout).write layout.search (.new dialect) b = .ok b') :
    OuterColumn slot b'.sql ↔ q.orderTakes layout dialect slot = false := by
  have hdraft : (q.draft layout).Flows layout ∧ (q.draft layout).query = q :=
    SelectQuery.draft_flows q
  obtain ⟨hflows, hquery⟩ := hdraft
  obtain ⟨e, hdepth, hdialect, hbody⟩ := write_top hempty hrun
  have hcases := body_cases hbody
  rw [hquery, hdialect] at hcases
  rcases hcases with ⟨cols, hwindowed, hwindow⟩ | ⟨hnative, label, hplain⟩
  · have hslot : slot = .childCount := by
      cases slot with
      | total =>
        rw [hfits rfl] at hwindowed
        cases hwindowed
      | childCount => rfl
    subst hslot
    have hcolumn := window_column (b := { b with labelModelCols := false }) hflows hdepth honly hset
      hsql hwindow
    simp [hcolumn, SelectQuery.orderTakes, hwindowed]
  · have hcolumn := plain_body_column (b := { b with labelModelCols := false }) hflows hdepth honly
      hset hsql hplain
    rw [hquery, hdialect] at hcolumn
    have htakes : q.orderTakes layout dialect slot
        = (q.distinct.isSome && OrderItem.takesAny layout dialect slot q.orderBy) := by
      rw [SelectQuery.orderTakes, hnative]
      simp
    rw [htakes]
    split_ifs at hcolumn with hfirst
    · obtain ⟨n, hn, hds⟩ := hcolumn
      rw [hfirst]
      refine iff_of_false ?_ (by decide)
      intro hcolumn
      have hone := hcolumn.depths
      rw [hds, List.cons.injEq] at hone
      omega
    · rw [Bool.not_eq_true] at hfirst
      exact iff_of_true hcolumn hfirst

private theorem countText_clean (c : CountQuery L) (e : Env L) (text : Text L)
    (h : countText layout c e = .ok text) : ∀ k, hiddenDepths k text = [] := by
  unfold countText at h
  simp only [bind, Except.bind] at h
  cases hrun : writeCount layout c e .new with
  | error error =>
    rw [hrun] at h
    cases h
  | ok b =>
    rw [hrun] at h
    cases h
    have hsource : Nests (writeFromSource (.plain c.model) (SelectQuery.sourceAct layout c.source))
        fun d k => SelectQuery.takesOption layout d k c.source :=
      writeFromSource_nests (SelectQuery.sourceAct_nests c.source) (.plain c.model)
    have hcondition : Nests (c.whereClause.act layout) fun d k => c.whereClause.takes layout d k :=
      Tree.act_nests c.whereClause
    have hwhere := writeWhereWithSearch_nests layout.search hcondition c.search (some c.model)
    have hflow : ∃ t, Flow e (e.depth + 1) (writeCount layout c) t :=
      ⟨_, Flow.under (Flow.cons_text "SELECT COUNT(*)" (((hsource _).weaken (Nat.le_succ _)).cons
        ((hwhere _).weaken (Nat.le_succ _)).one))⟩
    obtain ⟨t, hflow⟩ := hflow
    obtain ⟨written, hwritten, hshown⟩ := hflow.shows_nothing (b := Sql.new)
      (fun count hcount => by cases hcount) (fun k => by cases k <;> rfl) hrun
    rw [hwritten]
    exact hshown

end Statement

theorem hidden_column_iff (layout : Layout L) (asked : Asked) (d : Dialect) (q : SelectQuery L)
    (text : Text L) (hfits : asked.fits d q = true) (h : compileAsked layout asked d q = .ok text) :
    OuterColumn asked.slot text ↔ q.orderTakes layout d asked.slot = false := by
  unfold compileAsked Act.run at h
  simp only [bind, Except.bind] at h
  cases hrun : asked.act layout q (.new d) .new with
  | error error =>
    rw [hrun] at h
    cases h
  | ok b =>
    rw [hrun] at h
    cases h
    cases asked with
    | total =>
      simp only [Asked.fits, Bool.and_eq_true, Bool.not_eq_true'] at hfits
      refine statement_column hfits.1.1 (fun _ => hfits.2) ⟨?_, ?_⟩ rfl rfl hrun
      · intro count hcount
        cases hcount
        exact fun e text htext => countText_clean _ e text htext
      · intro k hk
        cases k with
        | total => exact absurd rfl hk
        | childCount => rfl
    | childCount child =>
      refine statement_column hfits (fun hslot => by cases hslot) ⟨?_, ?_⟩ rfl rfl hrun
      · intro count hcount
        cases hcount
      · intro k hk
        cases k with
        | total => rfl
        | childCount => exact absurd rfl hk

/-- Notes, and the one-column table of their kinds. -/
private abbrev noteModels : Lang where
  Head := Empty
  Value := Unit
  Model := Bool
  schema := fun isNote =>
    if isNote then ⟨"note", ["id", "kind"], ["id", "kind"]⟩ else ⟨"kind", ["name"], ["name"]⟩

private def noteLayout : Layout noteModels where
  pieces := fun _ head _ => head.elim
  search := fun _ _ _ => []

private def newestNotes : SelectQuery noteModels :=
  { SelectQuery.new true with distinct := some .all, orderBy := [.column "id" true .default] }

theorem hidden_column_newestNotes : ∃ text,
    compileAsked noteLayout .total .postgres newestNotes = .ok text ∧ OuterColumn .total text :=
  ⟨_, rfl, (hidden_column_iff noteLayout .total .postgres newestNotes _ rfl rfl).mpr rfl⟩

/-- `SELECT DISTINCT … FROM note ORDER BY (SELECT name FROM kind LIMIT 1)` -/
private def notesByKind : SelectQuery noteModels :=
  { SelectQuery.new true with
    distinct := some .all
    orderBy := [.expr (.subquery { SelectQuery.new false with limit := some 1 }) false .default] }

theorem hidden_column_misplaced :
    ¬ ∀ (asked : Asked) (d : Dialect) (q : SelectQuery noteModels) (text : Text noteModels),
      asked.fits d q = true → compileAsked noteLayout asked d q = .ok text →
        OuterColumn asked.slot text := by
  intro h
  have hnested : ∃ text, compileAsked noteLayout .total .postgres notesByKind = .ok text
      ∧ hiddenDepths .total text = [2] := ⟨_, rfl, rfl⟩
  obtain ⟨text, hcompile, hdepths⟩ := hnested
  have hone := (h .total .postgres notesByKind text rfl hcompile).depths
  rw [Asked.slot, hdepths] at hone
  simp at hone

end Rustango.Writer
