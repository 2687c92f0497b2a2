import Rustango.Migrate.Snapshot

/-!
# Reference-closed snapshots

What each object of a snapshot names, and when every name is there.
-/

namespace Rustango.Migrate

open Rustango.Keyed

/-- A name an object holds: a table, a column of a table, or the key a junction end points at. -/
inductive Ref where
  | table (t : String)
  | column (t c : String)
  | key (t : String)
deriving DecidableEq, Repr

namespace SchemaSnapshot

/-- The column `m2m_end` lets a junction end reference: the primary key when it is one column,
`id` otherwise. -/
def m2mEnd (s : SchemaSnapshot) (t : String) : String :=
  match ((s.table t).elim [] (·.fields)).filter (·.primaryKey) with
  | [pk] => pk.column
  | _ => "id"

def Has (s : SchemaSnapshot) : Ref → Prop
  | .table t => (s.table t).isSome
  | .column t c => (s.columnAt t c).isSome
  | .key t => (s.columnAt t (s.m2mEnd t)).isSome

instance (s : SchemaSnapshot) (r : Ref) : Decidable (s.Has r) := by
  cases r <;> exact inferInstanceAs (Decidable (_ = true))

end SchemaSnapshot

def FieldSnapshot.refs (f : FieldSnapshot) : List Ref :=
  f.fk.elim [] fun rel => [.column rel.to_ rel.on_]

/-- The columns of `table` that the FK is made of, its target, and the target's columns. -/
def CompositeFkSnapshot.refs (table : String) (k : CompositeFkSnapshot) : List Ref :=
  k.from_.map (.column table) ++ .table k.to_ :: k.on_.map (.column k.to_)

def M2MTableSnapshot.refs (m : M2MTableSnapshot) : List Ref :=
  [.table m.srcTable, .key m.srcTable, .table m.dstTable, .key m.dstTable]

def IndexSnapshot.refs (i : IndexSnapshot) : List Ref :=
  .table i.table :: (i.columns ++ i.include_).map (.column i.table)

def CheckSnapshot.refs (c : CheckSnapshot) : List Ref := [.table c.table]

def ExclusionSnapshot.refs (x : ExclusionSnapshot) : List Ref :=
  .table x.table :: x.elements.map fun e => .column x.table e.1

namespace SchemaSnapshot

/-- Every object names tables and columns of the snapshot only. -/
structure Closed (s : SchemaSnapshot) : Prop where
  fields : ∀ t ∈ s.tables, ∀ f ∈ t.fields, ∀ r ∈ f.refs, s.Has r
  compositeFks : ∀ t ∈ s.tables, ∀ k ∈ t.compositeFks, ∀ r ∈ k.refs t.name, s.Has r
  m2mTables : ∀ m ∈ s.m2mTables, ∀ r ∈ m.refs, s.Has r
  indexes : ∀ i ∈ s.indexes, ∀ r ∈ i.refs, s.Has r
  checks : ∀ c ∈ s.checks, ∀ r ∈ c.refs, s.Has r
  excludes : ∀ x ∈ s.excludes, ∀ r ∈ x.refs, s.Has r

instance (s : SchemaSnapshot) : Decidable s.Closed :=
  decidable_of_iff ((∀ t ∈ s.tables, ∀ f ∈ t.fields, ∀ r ∈ f.refs, s.Has r) ∧
      (∀ t ∈ s.tables, ∀ k ∈ t.compositeFks, ∀ r ∈ k.refs t.name, s.Has r) ∧
      (∀ m ∈ s.m2mTables, ∀ r ∈ m.refs, s.Has r) ∧ (∀ i ∈ s.indexes, ∀ r ∈ i.refs, s.Has r) ∧
      (∀ c ∈ s.checks, ∀ r ∈ c.refs, s.Has r) ∧ ∀ x ∈ s.excludes, ∀ r ∈ x.refs, s.Has r)
    ⟨fun ⟨h1, h2, h3, h4, h5, h6⟩ => ⟨h1, h2, h3, h4, h5, h6⟩,
      fun ⟨h1, h2, h3, h4, h5, h6⟩ => ⟨h1, h2, h3, h4, h5, h6⟩⟩

/-- `Closed` read through the lookups. -/
structure ClosedAt (s : SchemaSnapshot) : Prop where
  columns : ∀ t c f, s.columnAt t c = some f → ∀ r ∈ f.refs, s.Has r
  compositeFks : ∀ t n k, s.compositeFkAt t n = some k → ∀ r ∈ k.refs t, s.Has r
  m2mTables : ∀ n m, s.m2mTable n = some m → ∀ r ∈ m.refs, s.Has r
  indexes : ∀ n i, s.index n = some i → ∀ r ∈ i.refs, s.Has r
  checks : ∀ n c, s.check n = some c → ∀ r ∈ c.refs, s.Has r
  excludes : ∀ n x, s.exclude n = some x → ∀ r ∈ x.refs, s.Has r

private theorem forall_lookup {α : Type} (key : α → String) {l : List α}
    (hn : (l.map key).Nodup) (p : α → Prop) :
    (∀ x ∈ l, p x) ↔ ∀ k x, lookup key l k = some x → p x := by
  constructor
  · exact fun h k x hx => h x (mem_of_lookup key hx)
  · exact fun h x hx => h (key x) x (lookup_of_mem key hn hx)

variable {s : SchemaSnapshot}

theorem columnAt_eq_some {t c : String} {f : FieldSnapshot} :
    s.columnAt t c = some f ↔ ∃ u, s.table t = some u ∧ u.field c = some f :=
  Option.bind_eq_some_iff

theorem compositeFkAt_eq_some {t n : String} {k : CompositeFkSnapshot} :
    s.compositeFkAt t n = some k ↔ ∃ u, s.table t = some u ∧ u.compositeFk n = some k :=
  Option.bind_eq_some_iff

theorem UniqueKeys.closed_iff (hs : s.UniqueKeys) : s.Closed ↔ s.ClosedAt := by
  constructor
  · intro h
    constructor
    · intro t c f hf
      obtain ⟨u, hu, hc⟩ := columnAt_eq_some.mp hf
      exact h.fields u (mem_of_table hu) f (mem_of_lookup _ hc)
    · intro t n k hk
      obtain ⟨u, hu, hn⟩ := compositeFkAt_eq_some.mp hk
      rw [← table_name hu]
      exact h.compositeFks u (mem_of_table hu) k (mem_of_lookup _ hn)
    · exact (forall_lookup _ hs.m2mTables _).mp h.m2mTables
    · exact (forall_lookup _ hs.indexes _).mp h.indexes
    · exact (forall_lookup _ hs.checks _).mp h.checks
    · exact (forall_lookup _ hs.excludes _).mp h.excludes
  · intro h
    constructor
    · intro t ht f hf
      have hu := hs.table_of_mem ht
      have hc : t.field f.column = some f := lookup_of_mem _ (hs.fields t ht) hf
      exact h.columns t.name f.column f (columnAt_eq_some.mpr ⟨t, hu, hc⟩)
    · intro t ht k hk
      have hu := hs.table_of_mem ht
      have hn : t.compositeFk k.name = some k := lookup_of_mem _ (hs.compositeFks t ht) hk
      exact h.compositeFks t.name k.name k (compositeFkAt_eq_some.mpr ⟨t, hu, hn⟩)
    · exact (forall_lookup _ hs.m2mTables _).mpr h.m2mTables
    · exact (forall_lookup _ hs.indexes _).mpr h.indexes
    · exact (forall_lookup _ hs.checks _).mpr h.checks
    · exact (forall_lookup _ hs.excludes _).mpr h.excludes

/-- Exactly one column of the table is a primary key. -/
def OneKey (cols : String → Option FieldSnapshot) : Prop :=
  ∃ c f, cols c = some f ∧ f.primaryKey ∧ ∀ c' f', cols c' = some f' → f'.primaryKey → c' = c

/-- A junction end finds the column it references. -/
def HasEnd (cols : String → Option FieldSnapshot) : Prop := OneKey cols ∨ (cols "id").isSome

private theorem filter_eq_singleton {α : Type} {p : α → Bool} {l : List α} (hl : l.Nodup) {x : α}
    (hx : x ∈ l) (hp : p x) (hu : ∀ y ∈ l, p y → y = x) : l.filter p = [x] := by
  have hm : ∀ y, y ∈ l.filter p ↔ y ∈ [x] := by
    intro y
    rw [List.mem_filter, List.mem_singleton]
    constructor
    · exact fun h => hu y h.1 h.2
    · intro h
      exact h ▸ ⟨hx, hp⟩
  have hperm := (List.perm_ext_iff_of_nodup (hl.filter p) (List.nodup_singleton x)).mpr hm
  exact List.perm_singleton.mp hperm

private theorem oneKey_iff {u : TableSnapshot} (hn : (u.fields.map (·.column)).Nodup) :
    OneKey u.field ↔ ∃ x, u.fields.filter (·.primaryKey) = [x] := by
  constructor
  · intro ⟨c, f, hf, hpk, huniq⟩
    have hmem := mem_of_lookup _ hf
    refine ⟨f, filter_eq_singleton (List.Nodup.of_map _ hn) hmem hpk fun y hy hyp => ?_⟩
    have hy' : u.field y.column = some y := lookup_of_mem _ hn hy
    have hyc : y.column = c := huniq y.column y hy' hyp
    rw [hyc, hf] at hy'
    exact (Option.some.inj hy').symm
  · intro ⟨x, hx⟩
    have hmem : ∀ y, (y ∈ u.fields ∧ y.primaryKey = true) ↔ y = x := by
      intro y
      rw [← List.mem_filter, hx, List.mem_singleton]
    have hxm := (hmem x).mpr rfl
    refine ⟨x.column, x, lookup_of_mem _ hn hxm.1, hxm.2, fun c' f' hf' hpk => ?_⟩
    have hfx : f' = x := (hmem f').mp ⟨mem_of_lookup _ hf', hpk⟩
    rw [← TableSnapshot.field_column hf', hfx]

theorem UniqueKeys.has_key_iff (hs : s.UniqueKeys) (t : String) :
    s.Has (.key t) ↔ HasEnd (s.columnAt t) := by
  cases ht : s.table t with
  | none =>
    have hc : ∀ c, s.columnAt t c = none := fun c => by simp [columnAt, attrAt, ht]
    simp [Has, HasEnd, OneKey, hc]
  | some u =>
    have hc : s.columnAt t = u.field := funext fun c => by simp [columnAt, attrAt, ht]
    have hn := hs.fields u (mem_of_table ht)
    have hend : s.m2mEnd t = match u.fields.filter (·.primaryKey) with
        | [pk] => pk.column
        | _ => "id" := by
      rw [m2mEnd, ht]
      rfl
    rw [Has, HasEnd, hc, oneKey_iff hn, hend]
    by_cases h : ∃ x, u.fields.filter (·.primaryKey) = [x]
    · obtain ⟨x, hx⟩ := h
      have hxm : x ∈ u.fields := (List.mem_filter.mp (hx ▸ List.mem_singleton_self x)).1
      have hxc : u.field x.column = some x := lookup_of_mem _ hn hxm
      simp [hx, hxc]
    · rw [or_iff_right h]
      split
      · rename_i pk hpk
        exact absurd ⟨pk, hpk⟩ h
      · rfl

end SchemaSnapshot

end Rustango.Migrate
