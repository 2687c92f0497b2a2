import Mathlib
import Rustango.Migrate.DiffTables
import Rustango.Migrate.Invert

/-!
# Child before parent

The order in which tables are dropped: each before those it references, unless a cycle of references leads
to it.
-/

namespace Rustango.Migrate

open Relation

/-- Of these tables the one references the other. -/
def RefersIn (tables : List TableSnapshot) (a b : TableSnapshot) : Prop :=
  a ∈ tables ∧ b ∈ tables ∧ references a b.name = true

/-- The table lies on a cycle of references. -/
def OnCycle (tables : List TableSnapshot) (t : TableSnapshot) : Prop := TransGen (RefersIn tables) t t

/-- The table lies on a cycle of references, or one leads to it. -/
def BehindCycle (tables : List TableSnapshot) (t : TableSnapshot) : Prop :=
  ∃ c, OnCycle tables c ∧ ReflTransGen (RefersIn tables) c t

theorem RefersIn.mono {tables more : List TableSnapshot} (h : tables ⊆ more) {a b : TableSnapshot}
    (hab : RefersIn tables a b) : RefersIn more a b := ⟨h hab.1, h hab.2.1, hab.2.2⟩

theorem BehindCycle.mono {tables more : List TableSnapshot} (h : tables ⊆ more) {t : TableSnapshot}
    (ht : BehindCycle tables t) : BehindCycle more t := by
  obtain ⟨c, hcycle, hpath⟩ := ht
  exact ⟨c, hcycle.lift id fun _ _ => RefersIn.mono h, hpath.lift id fun _ _ => RefersIn.mono h⟩

private theorem behindCycle_of_referenced {tables : List TableSnapshot}
    (h : ∀ t ∈ tables, ∃ o ∈ tables, references o t.name = true) {t : TableSnapshot} (ht : t ∈ tables) :
    BehindCycle tables t := by
  choose back hback hrefers using h
  let walk : Nat → {t // t ∈ tables} := fun n => Nat.rec ⟨t, ht⟩ (fun _ t => ⟨back t.1 t.2, hback t.1 t.2⟩) n
  have hstep : ∀ n, RefersIn tables (walk (n + 1)).1 (walk n).1 := fun n =>
    ⟨(walk (n + 1)).2, (walk n).2, hrefers (walk n).1 (walk n).2⟩
  have hpath : ∀ n k, ReflTransGen (RefersIn tables) (walk (n + k)).1 (walk n).1 := by
    intro n k
    induction k with
    | zero => exact .refl
    | succ k ih => exact .head (hstep (n + k)) ih
  have hfinite : Finite {t // t ∈ tables} := List.finite_toSet tables
  obtain ⟨i, j, hne, hsame⟩ := Finite.exists_ne_map_eq_of_infinite walk
  wlog hlt : i < j generalizing i j
  · exact this j i (Ne.symm hne) hsame.symm (by omega)
  have hcycle : OnCycle tables (walk i).1 := by
    have hback : TransGen (RefersIn tables) (walk j).1 (walk i).1 := by
      obtain ⟨k, hk⟩ : ∃ k, j = i + 1 + k := ⟨j - (i + 1), by omega⟩
      rw [hk]
      exact TransGen.tail' (hpath (i + 1) k) (hstep i)
    rwa [← hsame] at hback
  have hto : ReflTransGen (RefersIn tables) (walk i).1 t := by
    have hfirst := hpath 0 i
    rwa [Nat.zero_add] at hfirst
  exact ⟨_, hcycle, hto⟩

/-- A table goes before one that it references. -/
private theorem childFirst_order (fuel : Nat) (left : List TableSnapshot) (hlength : left.length = fuel)
    {a b : TableSnapshot} (ha : a ∈ left) (hb : b ∈ left) (hrefers : references a b.name = true)
    (hclear : ¬ BehindCycle left a) : [a, b].Sublist (childFirst fuel left) := by
  have hne : a ≠ b := by
    intro heq
    rw [heq] at hrefers
    simp [references] at hrefers
  induction fuel generalizing left with
  | zero =>
    rw [List.length_eq_zero_iff.1 hlength] at ha
    cases ha
  | succ fuel ih =>
    rw [childFirst]
    cases hfind : left.findIdx? fun t => !left.any fun o => references o t.name with
    | none =>
      exfalso
      apply hclear
      refine behindCycle_of_referenced ?_ ha
      intro t ht
      have hall := List.findIdx?_eq_none_iff.1 hfind t ht
      simpa using hall
    | some i =>
      obtain ⟨hlt, hfree, -⟩ := List.findIdx?_eq_some_iff_getElem.1 hfind
      simp only [Option.getD_some, List.getElem?_eq_getElem hlt]
      have hperm := List.getElem_cons_eraseIdx_perm hlt
      have hrest : (left.eraseIdx i).length = fuel := by
        rw [List.length_eraseIdx_of_lt hlt]
        omega
      have hnotb : b ≠ left[i] := by
        intro heq
        rw [← heq] at hfree
        have hnone := List.any_eq_false.1 (by simpa using hfree) a ha
        exact hnone hrefers
      have hmemb : b ∈ left.eraseIdx i := (List.mem_cons.1 (hperm.mem_iff.2 hb)).resolve_left hnotb
      by_cases heq : a = left[i]
      · rw [← heq]
        apply List.Sublist.cons_cons
        rw [List.singleton_sublist]
        exact (childFirst_perm fuel _ hrest).mem_iff.2 hmemb
      · have hmema : a ∈ left.eraseIdx i := (List.mem_cons.1 (hperm.mem_iff.2 ha)).resolve_left heq
        apply List.Sublist.cons
        apply ih _ hrest hmema hmemb
        intro hbehind
        exact hclear (hbehind.mono (List.eraseIdx_subset))

section Dropped
variable (prev current : SchemaSnapshot)

/-- The tables of `prev` that `current` has not. -/
def SchemaSnapshot.dropped : List TableSnapshot := prev.tables.filter fun t => (current.table t.name).isNone

/-- Each dropped table is named once, before those it references unless a cycle leads to it. -/
structure DropsChildFirst : Prop where
  once : (droppedTablesChildFirst prev current).Nodup
  mem_iff : ∀ name, name ∈ droppedTablesChildFirst prev current ↔
    name ∈ prev.tables.map (·.name) ∧ current.table name = none
  order : ∀ a b, RefersIn (prev.dropped current) a b → ¬ BehindCycle (prev.dropped current) a →
    [a.name, b.name].Sublist (droppedTablesChildFirst prev current)

variable {prev current}

private theorem drops_child_first (h : (prev.tables.map (·.name)).Nodup) : DropsChildFirst prev current := by
  have hperm : (childFirst (prev.dropped current).length (prev.dropped current)).Perm (prev.dropped current) :=
    childFirst_perm _ _ rfl
  have hnames : (droppedTablesChildFirst prev current).Perm ((prev.dropped current).map (·.name)) :=
    hperm.map TableSnapshot.name
  constructor
  · exact hnames.nodup_iff.2 (h.sublist (List.filter_sublist.map _))
  · intro name
    rw [hnames.mem_iff, SchemaSnapshot.dropped, List.mem_map, List.mem_map]
    constructor
    · intro hmem
      obtain ⟨t, ht, hname⟩ := hmem
      obtain ⟨hprev, hgone⟩ := List.mem_filter.1 ht
      subst hname
      exact ⟨⟨t, hprev, rfl⟩, Option.isNone_iff_eq_none.1 hgone⟩
    · intro hmem
      obtain ⟨⟨t, hprev, hname⟩, hgone⟩ := hmem
      subst hname
      exact ⟨t, List.mem_filter.2 ⟨hprev, Option.isNone_iff_eq_none.2 hgone⟩, rfl⟩
  · intro a b hrefers hclear
    exact (childFirst_order _ _ rfl hrefers.1 hrefers.2.1 hrefers.2.2 hclear).map (·.name)

end Dropped

section Refill
variable {created : List String}

private theorem droppedName_eq_some {op : Operation} {t : String} (h : droppedName created op = some t) :
    op = .schema (.dropTable t) ∧ t ∈ created := by
  unfold droppedName at h
  split at h
  · rename_i name
    split at h
    · rename_i hmem
      cases h
      exact ⟨rfl, hmem⟩
    · cases h
  · cases h

private theorem droppedName_dropTable {t : String} (h : t ∈ created) :
    droppedName created (.schema (.dropTable t)) = some t := by
  simp [droppedName, h]

private theorem refill_perm (ops : List Operation) (ordered : List String)
    (hlength : ordered.length = (ops.filterMap (droppedName created)).length) :
    (refill created ops ordered).Perm
      (ops.filter (fun op => (droppedName created op).isNone) ++ ordered.map fun t => .schema (.dropTable t)) := by
  induction ops generalizing ordered with
  | nil =>
    rw [List.length_eq_zero_iff.1 hlength]
    exact .refl _
  | cons op ops ih =>
    cases hname : droppedName created op with
    | none =>
      rw [List.filterMap_cons_none hname] at hlength
      have hkeep := ih ordered hlength
      simp only [refill, hname, List.filter_cons, Option.isNone_none, if_true, List.cons_append]
      exact hkeep.cons op
    | some t =>
      rw [List.filterMap_cons_some hname, List.length_cons] at hlength
      cases ordered with
      | nil => cases hlength
      | cons u ordered =>
        have hkeep := ih ordered (Nat.succ.inj hlength)
        simp only [refill, hname, List.filter_cons, Option.isNone_some, Bool.false_eq_true, if_false, List.map_cons]
        exact (hkeep.cons _).trans List.perm_middle.symm

private theorem refill_self (ops : List Operation) :
    refill created ops (ops.filterMap (droppedName created)) = ops := by
  induction ops with
  | nil => rfl
  | cons op ops ih =>
    cases hname : droppedName created op with
    | none =>
      rw [List.filterMap_cons_none hname]
      simp only [refill, hname, ih]
    | some t =>
      obtain ⟨hop, hmem⟩ := droppedName_eq_some hname
      subst hop
      rw [List.filterMap_cons_some hname]
      simp only [refill, droppedName_dropTable hmem, ih]

private theorem sublist_refill (ops : List Operation) (ordered : List String)
    (hlength : ordered.length = (ops.filterMap (droppedName created)).length) :
    (ordered.map fun t => Operation.schema (.dropTable t)).Sublist (refill created ops ordered) := by
  induction ops generalizing ordered with
  | nil =>
    rw [List.length_eq_zero_iff.1 hlength]
    exact List.nil_sublist _
  | cons op ops ih =>
    cases hname : droppedName created op with
    | none =>
      rw [List.filterMap_cons_none hname] at hlength
      simp only [refill, hname]
      exact (ih ordered hlength).cons op
    | some t =>
      rw [List.filterMap_cons_some hname, List.length_cons] at hlength
      cases ordered with
      | nil => cases hlength
      | cons u ordered =>
        simp only [refill, hname, List.map_cons]
        exact (ih ordered (Nat.succ.inj hlength)).cons_cons _

section Reorder
variable (hcreated : created.Nodup) (out : List Operation)
include hcreated

private theorem reorderDrops_perm : (reorderDrops created out).Perm out := by
  unfold reorderDrops
  simp only
  split
  · rename_i hlength
    have hsub : (created.filter (· ∈ out.filterMap (droppedName created))) ⊆ out.filterMap (droppedName created) := by
      intro t ht
      simpa using (List.mem_filter.1 ht).2
    have hsame : (created.filter (· ∈ out.filterMap (droppedName created))).Perm (out.filterMap (droppedName created)) :=
      (List.subperm_of_subset (hcreated.filter _) hsub).perm_of_length_le hlength.ge
    have hself : (refill created out (out.filterMap (droppedName created))).Perm _ :=
      refill_perm out (out.filterMap (droppedName created)) rfl
    rw [refill_self] at hself
    exact (refill_perm out _ hlength).trans (((hsame.map _).append_left _).trans hself.symm)
  · exact .refl out

private theorem sublist_reorderDrops (honce : (out.filterMap (droppedName created)).Nodup) {a b : String}
    (hab : [a, b].Sublist created) (ha : a ∈ out.filterMap (droppedName created))
    (hb : b ∈ out.filterMap (droppedName created)) :
    [Operation.schema (.dropTable a), .schema (.dropTable b)].Sublist (reorderDrops created out) := by
  have hsame : (created.filter (· ∈ out.filterMap (droppedName created))).Perm (out.filterMap (droppedName created)) := by
    rw [List.perm_ext_iff_of_nodup (hcreated.filter _) honce]
    intro t
    rw [List.mem_filter, decide_eq_true_eq, and_iff_right_iff_imp]
    intro ht
    obtain ⟨op, -, hop⟩ := List.mem_filterMap.1 ht
    exact (droppedName_eq_some hop).2
  have hkept : [a, b].Sublist (created.filter (· ∈ out.filterMap (droppedName created))) := by
    have hfilter := hab.filter (· ∈ out.filterMap (droppedName created))
    rwa [List.filter_cons_of_pos (by simpa using ha), List.filter_cons_of_pos (by simpa using hb),
      List.filter_nil] at hfilter
  unfold reorderDrops
  simp only
  rw [if_pos hsame.length_eq]
  exact (hkept.map fun t => Operation.schema (.dropTable t)).trans (sublist_refill out _ hsame.length_eq)

end Reorder

end Refill

section Undo
variable {mig : Migration} {prev : SchemaSnapshot}

/-- The tables that the list drops among those the file created. -/
def createdDrops (mig : Migration) (prev : SchemaSnapshot) (ops : List Operation) : List String :=
  ops.filterMap (droppedName (droppedTablesChildFirst mig.snapshot prev))

/-- The operations are those of `invert`. No created table dropped twice, a drop comes before those of the
tables it references unless a cycle leads to it. -/
structure UndoneChildFirst (mig : Migration) (prev : SchemaSnapshot) (ops out : List Operation) : Prop where
  perm : out.Perm ops
  order : (createdDrops mig prev ops).Nodup → ∀ a b, RefersIn (mig.snapshot.dropped prev) a b →
    ¬ BehindCycle (mig.snapshot.dropped prev) a → a.name ∈ createdDrops mig prev ops →
    b.name ∈ createdDrops mig prev ops →
    [Operation.schema (.dropTable a.name), .schema (.dropTable b.name)].Sublist out

/-- What `invert` gives, child first; where it fails, `invertMigration` fails with the same message. -/
def InvertsChildFirst (mig : Migration) (prev : SchemaSnapshot) : Prop :=
  match invert mig.forward prev with
  | .ok ops => ∃ out, invertMigration mig prev = .ok out ∧ UndoneChildFirst mig prev ops out
  | .error message => invertMigration mig prev = .error message

private theorem undone_reorderDrops (h : DropsChildFirst mig.snapshot prev) (ops : List Operation) :
    UndoneChildFirst mig prev ops (reorderDrops (droppedTablesChildFirst mig.snapshot prev) ops) where
  perm := reorderDrops_perm h.once ops
  order honce a b hrefers hclear ha hb := sublist_reorderDrops h.once ops honce (h.order a b hrefers hclear) ha hb

private theorem inverts_child_first (h : DropsChildFirst mig.snapshot prev) : InvertsChildFirst mig prev := by
  unfold InvertsChildFirst invertMigration
  cases hinvert : invert mig.forward prev with
  | ok ops => exact ⟨_, rfl, undone_reorderDrops h ops⟩
  | error message => rfl

end Undo

/-- Dropped tables go child first, and so do the created tables of a migration undone. -/
theorem drops_and_undoes_child_first (prev current : SchemaSnapshot) (mig : Migration) (before : SchemaSnapshot)
    (hprev : (prev.tables.map (·.name)).Nodup) (hmig : (mig.snapshot.tables.map (·.name)).Nodup) :
    DropsChildFirst prev current ∧ InvertsChildFirst mig before :=
  ⟨drops_child_first hprev, inverts_child_first (drops_child_first hmig)⟩

/-- On a cycle of references, or reached through cycles alone. -/
def OnlyThroughCycle (tables : List TableSnapshot) (t : TableSnapshot) : Prop :=
  OnCycle tables t ∨ ∀ r, ReflTransGen (RefersIn tables) r t → BehindCycle tables r

private theorem not_onCycle_of_unreferenced {tables : List TableSnapshot} {t : TableSnapshot}
    (h : ∀ o, ¬ RefersIn tables o t) : ¬ OnCycle tables t := by
  intro hcycle
  obtain ⟨o, -, ho⟩ := TransGen.tail'_iff.1 hcycle
  exact h o ho

private theorem not_behindCycle_of_unreferenced {tables : List TableSnapshot} {t : TableSnapshot}
    (h : ∀ o, ¬ RefersIn tables o t) : ¬ BehindCycle tables t := by
  intro hbehind
  obtain ⟨c, hcycle, hpath⟩ := hbehind
  cases hpath with
  | refl => exact not_onCycle_of_unreferenced h hcycle
  | tail _ ho => exact h _ ho

/-- A table whose columns reference these tables. -/
private def referring (name : String) (targets : List String) : TableSnapshot :=
  ⟨name, name, targets.map fun target =>
    ⟨target, target, "i64", true, false, none, none, none, none, false, false, false, none, none,
      some ⟨"fk", target, "id", none⟩⟩, [], none⟩

private def tangled : SchemaSnapshot :=
  ⟨[referring "a" [], referring "b" ["a"], referring "p" ["b", "q"], referring "q" ["p"], referring "r" ["b"]],
    [], [], [], []⟩

private def nothing : SchemaSnapshot := ⟨[], [], [], [], []⟩

private theorem behind_tangle : ¬ OnlyThroughCycle tangled.tables (referring "b" ["a"]) := by
  intro honly
  cases honly with
  | inl hcycle =>
    -- from the only table that "b" references, nothing leads on
    obtain ⟨t, hfirst, hback⟩ := TransGen.head'_iff.1 hcycle
    have ht : t = referring "a" [] := by
      obtain ⟨-, hmem, hrefers⟩ := hfirst
      fin_cases hmem <;> revert hrefers <;> decide
    subst ht
    cases ReflTransGen.cases_head hback with
    | inl hsame => exact absurd hsame (by decide)
    | inr hnext =>
      obtain ⟨u, ⟨-, hmem, hrefers⟩, -⟩ := hnext
      fin_cases hmem <;> revert hrefers <;> decide
  | inr hall =>
    have hr : ReflTransGen (RefersIn tangled.tables) (referring "r" ["b"]) (referring "b" ["a"]) :=
      .single ⟨by decide, by decide, by decide⟩
    refine not_behindCycle_of_unreferenced ?_ (hall _ hr)
    intro o ho
    obtain ⟨hmem, -, hrefers⟩ := ho
    fin_cases hmem <;> revert hrefers <;> decide

/-- Cycles put off a table that is reached without them as well. -/
theorem drops_parent_first :
    ¬ ∀ prev current : SchemaSnapshot, (prev.tables.map (·.name)).Nodup → ∀ a b,
      RefersIn (prev.dropped current) a b → ¬ OnlyThroughCycle (prev.dropped current) a →
      [a.name, b.name].Sublist (droppedTablesChildFirst prev current) := by
  intro hall
  have horder := hall tangled nothing (by decide) (referring "b" ["a"]) (referring "a" [])
    ⟨by decide, by decide, by decide⟩ behind_tangle
  revert horder
  decide

private def shop : SchemaSnapshot := ⟨[referring "line" ["order"], referring "order" []], [], [], [], []⟩

private def createShop : Migration :=
  ⟨"0001_shop", none, true, [], [], shop, [.schema (.createTable "line"), .schema (.createTable "order")], .tenant⟩

theorem shop_drops_child_first : DropsChildFirst shop nothing ∧ InvertsChildFirst createShop nothing :=
  drops_and_undoes_child_first shop nothing createShop nothing (by decide) (by decide)

end Rustango.Migrate
