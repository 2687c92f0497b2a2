import Rustango.Lib.Settle
import Rustango.Migrate.Change

/-!
# Early creations

A system step that waits on a project chain may still make the tables that need nothing waiting, so
that a pending project FK to one does not fail. The tables that it makes early are the largest part
of the step that conflicts with nothing held back, whatever the order of the step's operations.
-/

namespace Rustango.Migrate

open Rustango.Settle

def FieldSnapshot.fkTo (table : String) (f : FieldSnapshot) : Bool :=
  f.fk.any fun r => r.to_ = table

/-- Whether a change writes `table` or adds an FK to it. FK targets live in the snapshot. -/
def SchemaChange.touches (c : SchemaChange) (table : String) (snapshot : SchemaSnapshot) : Bool :=
  c.table = table || match c with
    | .renameTable _ newName => newName = table
    | .createM2MTable _ srcTable _ dstTable _ => srcTable = table || dstTable = table
    | .addCompositeFk _ _ to_ _ _ => to_ = table
    | .createTable t => (snapshot.table t).any fun s =>
        s.fields.any (FieldSnapshot.fkTo table) || s.compositeFks.any fun fk => fk.to_ = table
    | .addColumn t column | .alterFkOnDelete t column _ _ =>
        ((snapshot.table t).bind (·.field column)).any (FieldSnapshot.fkTo table)
    | _ => false

def SchemaChange.names : SchemaChange → List String
  | .renameTable oldName newName => [oldName, newName]
  | c => [c.table]

def opWrites (c : SchemaChange) (table : String) : Bool :=
  c.table = table || match c with
    | .renameTable _ newName => newName = table
    | _ => false

/-- Whether `c` must run after the waiting `d`: either writes or references a table the other
writes. -/
def conflicts (c : SchemaChange) (snap : SchemaSnapshot) (d : SchemaChange) (at_ : SchemaSnapshot) :
    Bool :=
  d.names.any (c.touches · snap) || c.names.any (d.touches · at_)

def SchemaChange.creates : SchemaChange → Bool
  | .createTable _ | .createM2MTable .. | .createIndex .. => true
  | _ => false

/-- The table that a change makes. -/
def SchemaChange.created : SchemaChange → Option String
  | .createTable t | .createM2MTable t .. => some t
  | _ => none

/-- What waits and what is ready at first. -/
def parts (blocked : SchemaChange → Bool) (step : Migration) :
    List SchemaChange × List SchemaChange :=
  step.changes.partition fun c => !c.creates || blocked c

/-- What waits and what is ready once every creation that conflicts with a waiting change waits too.
A child may come before the parent it waits on. -/
def settled (blocked : SchemaChange → Bool) (step : Migration) :
    List SchemaChange × List SchemaChange :=
  settle (fun c d => conflicts c step.snapshot d step.snapshot) (parts blocked step).1
    (parts blocked step).2

/-- The tables, with their indexes, that a waiting step creates and that need nothing waiting. -/
def earlyCreations (blocked : SchemaChange → Bool) (step : Migration) : List (List SchemaChange) :=
  -- Opaque operations may depend on anything before them.
  if step.forward.any fun op => match op with | .schema _ => false | _ => true then []
  else
    let (waiting, ready) := settled blocked step
    let tables := ready.filterMap SchemaChange.created
    (tables.filter fun t => !waiting.any (opWrites · t)).map fun t =>
      ready.filter fun c => c.table = t

/-- A part of a step that may run before the rest of it: unblocked creations, none of which
conflicts with a change of the rest. An opaque operation may depend on anything. -/
structure Independent (blocked : SchemaChange → Bool) (snap : SchemaSnapshot)
    (early : List SchemaChange) (rest : List Operation) : Prop where
  creates : ∀ c ∈ early, c.creates
  unblocked : ∀ c ∈ early, blocked c = false
  apart : ∀ c ∈ early, ∀ o ∈ rest, ∃ d, o = .schema d ∧ conflicts c snap d snap = false

theorem SchemaChange.created_table {c : SchemaChange} {t : String} (h : c.created = some t) :
    c.table = t := by
  cases c with
  | createTable name => exact Option.some.inj h
  | createM2MTable through srcTable srcCol dstTable dstCol => exact Option.some.inj h
  | _ => cases h

private theorem mem_names {d : SchemaChange} {t : String} : t ∈ d.names ↔ opWrites d t := by
  unfold opWrites
  rw [Bool.or_eq_true, decide_eq_true_iff]
  cases d with
  | renameTable oldName newName =>
    rw [decide_eq_true_iff]
    simp only [SchemaChange.names, SchemaChange.table, List.mem_cons, List.not_mem_nil, or_false]
    exact or_congr eq_comm eq_comm
  | _ =>
    simp only [SchemaChange.names, SchemaChange.table, List.mem_singleton, Bool.false_eq_true,
      or_false]
    exact eq_comm

private theorem conflicts_of_opWrites {c d : SchemaChange} {snap at_ : SchemaSnapshot}
    (h : opWrites d c.table) : conflicts c snap d at_ := by
  have hself : c.touches c.table snap := by simp [SchemaChange.touches]
  unfold conflicts
  rw [Bool.or_eq_true]
  exact .inl (List.any_eq_true.mpr ⟨c.table, mem_names.mpr h, hself⟩)

private theorem map_changes {step : Migration}
    (h : ¬ step.forward.any fun op => match op with | .schema _ => false | _ => true) :
    step.changes.map Operation.schema = step.forward := by
  obtain ⟨name, prev, atomic, replaces, merges, snapshot, forward, scope⟩ := step
  simp only [Migration.changes] at h ⊢
  induction forward with
  | nil => rfl
  | cons op forward ih =>
    cases op with
    | schema c => simp_all
    | data op => simp at h
    | callback op => simp at h

section Parts
variable {blocked : SchemaChange → Bool} {step : Migration}

theorem Independent.not_opaque {snap : SchemaSnapshot} {early : List SchemaChange}
    {rest : List Operation} (h : Independent blocked snap early rest) {c : SchemaChange}
    (hc : c ∈ early) {o : Operation} (ho : o ∈ early.map Operation.schema ++ rest) :
    ∃ d, o = .schema d := by
  rcases List.mem_append.mp ho with ho | ho
  · obtain ⟨d, -, rfl⟩ := List.mem_map.mp ho
    exact ⟨d, rfl⟩
  · obtain ⟨d, hd, -⟩ := h.apart c hc o ho
    exact ⟨d, hd⟩

theorem Independent.unwritten {snap : SchemaSnapshot} {early : List SchemaChange}
    {rest : List Operation} (h : Independent blocked snap early rest) {c d : SchemaChange}
    (hc : c ∈ early) (hd : .schema d ∈ rest) : opWrites d c.table = false := by
  obtain ⟨d', hd', hfree⟩ := h.apart c hc _ hd
  obtain rfl := Operation.schema.inj hd'
  by_contra hwrites
  rw [conflicts_of_opWrites (Bool.of_not_eq_false hwrites)] at hfree
  cases hfree

private theorem parts_perm : ((parts blocked step).1 ++ (parts blocked step).2).Perm step.changes := by
  rw [parts, List.partition_eq_filter_filter]
  exact List.filter_append_perm _ _

private theorem mem_waiting {c : SchemaChange} :
    c ∈ (parts blocked step).1 ↔ c ∈ step.changes ∧ (c.creates = false ∨ blocked c) := by
  simp [parts]

private theorem mem_ready {c : SchemaChange} :
    c ∈ (parts blocked step).2 ↔ c ∈ step.changes ∧ c.creates ∧ blocked c = false := by
  simp [parts]

private theorem settled_perm : ((settled blocked step).1 ++ (settled blocked step).2).Perm step.changes :=
  (settle_perm ..).trans parts_perm

private theorem independent_settled : Independent blocked step.snapshot (settled blocked step).2
    ((settled blocked step).1.map Operation.schema) := by
  have hready : ∀ c ∈ (settled blocked step).2, c.creates ∧ blocked c = false := by
    intro c hc
    exact (mem_ready.mp (settle_subset _ _ _ hc)).2
  constructor
  case creates => exact fun c hc => (hready c hc).1
  case unblocked => exact fun c hc => (hready c hc).2
  case apart =>
    intro c hc o ho
    obtain ⟨d, hd, rfl⟩ := List.mem_map.mp ho
    exact ⟨d, rfl, settle_free _ _ _ c hc d hd⟩

theorem Independent.ready {early : List SchemaChange} {late : List Operation}
    (h : Independent blocked step.snapshot early late)
    (hcover : ∀ d ∈ step.changes, d ∈ early ∨ .schema d ∈ late) {c : SchemaChange} (hc : c ∈ early)
    (hchange : c ∈ step.changes) : c ∈ (settled blocked step).2 := by
  let rest := step.changes.filter fun d => .schema d ∈ late
  have hfree : ∀ c ∈ early, ∀ d ∈ rest, conflicts c step.snapshot d step.snapshot = false := by
    intro c hc d hd
    obtain ⟨d', hd', hfree⟩ := h.apart c hc _ (of_decide_eq_true (List.mem_filter.mp hd).2)
    exact Operation.schema.inj hd' ▸ hfree
  have hready : c ∈ (parts blocked step).2 :=
    mem_ready.mpr ⟨hchange, h.creates c hc, h.unblocked c hc⟩
  apply settle_greatest _ hfree _ _ _ _ c hready hc
  · intro d hd
    have hd := parts_perm.subset hd
    exact (hcover d hd).imp_right fun hlate => List.mem_filter.mpr ⟨hd, decide_eq_true hlate⟩
  · intro d hd hearly
    have hwaits := (mem_waiting.mp hd).2
    simp [h.creates d hearly, h.unblocked d hearly] at hwaits

private theorem mem_earlyCreations (hother : ¬ step.forward.any fun op => match op with
      | .schema _ => false
      | _ => true) {group : List SchemaChange} :
    group ∈ earlyCreations blocked step ↔ ∃ c ∈ (settled blocked step).2, c.created.isSome ∧
      group = (settled blocked step).2.filter fun d => d.table = c.table := by
  rw [earlyCreations, if_neg hother]
  simp only [List.mem_map, List.mem_filter, List.mem_filterMap]
  constructor
  · rintro ⟨t, ⟨⟨c, hc, ht⟩, -⟩, rfl⟩
    exact ⟨c, hc, Option.isSome_iff_exists.mpr ⟨t, ht⟩, by rw [SchemaChange.created_table ht]⟩
  · rintro ⟨c, hc, hmade, rfl⟩
    obtain ⟨t, ht⟩ := Option.isSome_iff_exists.mp hmade
    have htable := SchemaChange.created_table ht
    refine ⟨t, ⟨⟨c, hc, ht⟩, ?_⟩, by rw [htable]⟩
    have hnone : (settled blocked step).1.any (opWrites · t) = false := by
      rw [List.any_eq_false]
      intro d hd
      rw [← htable, independent_settled.unwritten hc (List.mem_map_of_mem hd)]
      exact Bool.false_ne_true
    rw [hnone]
    rfl

end Parts

/-- What a waiting step makes early is independent of what waits, and every table that some
independent part of the step makes is among it. -/
theorem earlyCreations_greatest (blocked : SchemaChange → Bool) (step : Migration) :
    ∃ ready rest, (ready.map Operation.schema ++ rest).Perm step.forward ∧
      Independent blocked step.snapshot ready rest ∧
      (∀ group ∈ earlyCreations blocked step, ∃ t, (∃ c ∈ group, c.created = some t) ∧
        (∀ c, c ∈ group ↔ c ∈ ready ∧ c.table = t) ∧
        ∀ d, .schema d ∈ rest → opWrites d t = false) ∧
      ∀ early late, (early.map Operation.schema ++ late).Perm step.forward →
        Independent blocked step.snapshot early late →
        ∀ c ∈ early, c.created.isSome → ∃ group ∈ earlyCreations blocked step, c ∈ group := by
  by_cases hother : step.forward.any fun op => match op with | .schema _ => false | _ => true
  · refine ⟨[], step.forward, List.Perm.refl _, ⟨?_, ?_, ?_⟩, ?_, ?_⟩
    iterate 3
      · intro c hc
        cases hc
    · intro group hgroup
      rw [earlyCreations, if_pos hother] at hgroup
      cases hgroup
    · intro early late hsplit hearly c hc _
      exfalso
      obtain ⟨o, ho, hkind⟩ := List.any_eq_true.mp hother
      obtain ⟨d, rfl⟩ := hearly.not_opaque hc (hsplit.symm.subset ho)
      cases hkind
  · have hchanges := map_changes hother
    refine ⟨(settled blocked step).2, (settled blocked step).1.map Operation.schema, ?_,
      independent_settled, ?_, ?_⟩
    · rw [← hchanges, ← List.map_append]
      exact (List.perm_append_comm.trans settled_perm).map _
    · intro group hgroup
      obtain ⟨c, hc, hmade, rfl⟩ := (mem_earlyCreations hother).mp hgroup
      obtain ⟨t, ht⟩ := Option.isSome_iff_exists.mp hmade
      have htable := SchemaChange.created_table ht
      refine ⟨t, ⟨c, List.mem_filter.mpr ⟨hc, decide_eq_true rfl⟩, ht⟩, ?_, ?_⟩
      · intro d
        rw [List.mem_filter, decide_eq_true_eq, htable]
      · intro d hd
        rw [← htable]
        exact independent_settled.unwritten hc hd
    · intro early late hsplit hearly c hc hmade
      have hinj : Function.Injective Operation.schema := fun _ _ => Operation.schema.inj
      have hcover : ∀ d ∈ step.changes, d ∈ early ∨ .schema d ∈ late := by
        intro d hd
        have hmem : Operation.schema d ∈ step.forward := hchanges ▸ List.mem_map_of_mem hd
        exact (List.mem_append.mp (hsplit.symm.subset hmem)).imp_left
          (List.mem_map_of_injective hinj).mp
      have hchange : c ∈ step.changes := by
        have hmem : Operation.schema c ∈ step.forward :=
          hsplit.subset (List.mem_append_left _ (List.mem_map_of_mem hc))
        rw [← hchanges] at hmem
        exact (List.mem_map_of_injective hinj).mp hmem
      have hready := hearly.ready hcover hc hchange
      refine ⟨_, (mem_earlyCreations hother).mpr ⟨c, hready, hmade, rfl⟩, ?_⟩
      exact List.mem_filter.mpr ⟨hready, decide_eq_true rfl⟩

end Rustango.Migrate
