import Rustango.Migrate.DiffJunction

/-!
# Running a diff, phase by phase

Each phase of `detect_changes` works on one kind of slot and leaves the others alone. Its lemma says
which slots the phase meets and what it makes of them.
-/

namespace Rustango.Migrate

open Function hiding swap
open Rustango.Keyed Rustango.Slots

/-- A snapshot with unique keys and no dangling name, whose junctions have two columns each. -/
structure SchemaSnapshot.WellFormed (s : SchemaSnapshot) : Prop where
  keys : s.UniqueKeys
  closed : s.Closed
  junctions : ∀ m ∈ s.m2mTables, m.srcCol ≠ m.dstCol

instance (s : SchemaSnapshot) : Decidable s.WellFormed :=
  decidable_of_iff (s.UniqueKeys ∧ s.Closed ∧ ∀ m ∈ s.m2mTables, m.srcCol ≠ m.dstCol)
    ⟨fun ⟨h1, h2, h3⟩ => ⟨h1, h2, h3⟩, fun ⟨h1, h2, h3⟩ => ⟨h1, h2, h3⟩⟩

/-- Every name of `current` is among the tables `ts`. -/
def Resolves (current : SchemaSnapshot) (ts : String → Option Table) : Prop :=
  ∀ r, current.Has r → Schema.Has current { Schema.empty with tables := ts } r

section Objects
variable {prev current : SchemaSnapshot} {ts : String → Option Table}
variable {js : String → Option Junction} {is : String → Option IndexSnapshot}
variable {cs : String → Option CheckSnapshot} {xs : String → Option ExclusionSnapshot}

theorem Resolves.has (h : Resolves current ts) {r : Ref} (hr : current.Has r) :
    Schema.Has current ⟨ts, js, is, cs, xs⟩ r := by
  cases r <;> exact h _ hr

private theorem refs_has (h : Resolves current ts) {rs : List Ref} (hrs : ∀ r ∈ rs, current.Has r) :
    ∀ r ∈ rs, Schema.Has current ⟨ts, js, is, cs, xs⟩ r := fun r hr => h.has (hrs r hr)

private theorem exec_dropIndex {idx : IndexSnapshot} (h : is idx.name = some idx) :
    exec current ⟨ts, js, is, cs, xs⟩ (.dropIndex idx.name idx.table) =
      some ⟨ts, js, update is idx.name none, cs, xs⟩ := by
  simp [exec, h, drop]

private theorem exec_createIndex (hts : Resolves current ts) {idx : IndexSnapshot}
    (hrefs : ∀ r ∈ idx.refs, current.Has r) (h : is idx.name = none) :
    exec current ⟨ts, js, is, cs, xs⟩ (createIndex idx) =
      some ⟨ts, js, update is idx.name (some idx), cs, xs⟩ := by
  have hall : ∀ r ∈ idx.refs, Schema.Has current ⟨ts, js, is, cs, xs⟩ r := refs_has hts hrefs
  change (if _ then (create is idx.name idx).map _ else none) = _
  rw [if_pos hall, create_of_none h]
  rfl

private theorem exec_dropCheck {c : CheckSnapshot} (h : cs c.name = some c) :
    exec current ⟨ts, js, is, cs, xs⟩ (.dropCheckConstraint c.name c.table) =
      some ⟨ts, js, is, update cs c.name none, xs⟩ := by
  simp [exec, h, drop]

private theorem exec_addCheck (hts : Resolves current ts) {c : CheckSnapshot}
    (hrefs : ∀ r ∈ c.refs, current.Has r) (h : cs c.name = none) :
    exec current ⟨ts, js, is, cs, xs⟩ (addCheck c) =
      some ⟨ts, js, is, update cs c.name (some c), xs⟩ := by
  have hall : ∀ r ∈ c.refs, Schema.Has current ⟨ts, js, is, cs, xs⟩ r := refs_has hts hrefs
  change (if _ then (create cs c.name c).map _ else none) = _
  rw [if_pos hall, create_of_none h]
  rfl

private theorem exec_dropExclude {x : ExclusionSnapshot} (h : xs x.name = some x) :
    exec current ⟨ts, js, is, cs, xs⟩ (.dropExclusionConstraint x.name x.table) =
      some ⟨ts, js, is, cs, update xs x.name none⟩ := by
  simp [exec, h, drop]

private theorem exec_addExclude (hts : Resolves current ts) {x : ExclusionSnapshot}
    (hrefs : ∀ r ∈ x.refs, current.Has r) (h : xs x.name = none) :
    exec current ⟨ts, js, is, cs, xs⟩ (addExclude x) =
      some ⟨ts, js, is, cs, update xs x.name (some x)⟩ := by
  have hall : ∀ r ∈ x.refs, Schema.Has current ⟨ts, js, is, cs, xs⟩ r := refs_has hts hrefs
  change (if _ then (create xs x.name x).map _ else none) = _
  rw [if_pos hall, create_of_none h]
  rfl

private theorem indexChanged_eq {c idx : IndexSnapshot} (h : c.name = idx.name) :
    indexChanged c idx = decide (c ≠ idx) := by
  obtain ⟨n, t, co, u, m, w, i⟩ := c
  obtain ⟨n', t', co', u', m', w', i'⟩ := idx
  simp only at h
  rw [Bool.eq_iff_iff]
  simp only [indexChanged, Bool.or_eq_true, decide_eq_true_eq, ne_eq, h, IndexSnapshot.mk.injEq,
    true_and]
  tauto

private theorem dropIndexes_eq : dropIndexes prev current = prev.indexes.flatMap fun idx =>
    if lookup IndexSnapshot.name current.indexes idx.name = some idx then []
    else [.dropIndex idx.name idx.table] := by
  apply List.flatMap_congr
  intro idx _
  rw [SchemaSnapshot.index]
  cases hc : lookup IndexSnapshot.name current.indexes idx.name with
  | none => rfl
  | some c =>
    rw [Option.map_some, indexChanged_eq (lookup_key IndexSnapshot.name hc)]
    by_cases hci : c = idx <;> simp [hci]

private theorem recreateIndexes_eq : recreateIndexes prev current = prev.indexes.flatMap fun idx =>
    if lookup IndexSnapshot.name current.indexes idx.name = some idx then []
    else ((lookup IndexSnapshot.name current.indexes idx.name).map createIndex).toList := by
  apply List.flatMap_congr
  intro idx _
  rw [SchemaSnapshot.index]
  cases hc : lookup IndexSnapshot.name current.indexes idx.name with
  | none => rfl
  | some c =>
    dsimp only
    rw [indexChanged_eq (lookup_key IndexSnapshot.name hc)]
    by_cases hci : c = idx <;> simp [hci]

theorem run_dropIndexes (hp : prev.UniqueKeys) :
    run (exec current) ⟨ts, js, prev.index, cs, xs⟩ (dropIndexes prev current) =
      some ⟨ts, js, kept prev.index current.index, cs, xs⟩ := by
  rw [dropIndexes_eq]
  exact run_drops (fun is => (⟨ts, js, is, cs, xs⟩ : Schema)) IndexSnapshot.name hp.indexes _
    fun _ _ _ hf => exec_dropIndex hf

theorem run_dropChecks (hp : prev.UniqueKeys) :
    run (exec current) ⟨ts, js, is, prev.check, xs⟩ (dropChecks prev current) =
      some ⟨ts, js, is, kept prev.check current.check, xs⟩ :=
  run_drops (fun cs => (⟨ts, js, is, cs, xs⟩ : Schema)) CheckSnapshot.name hp.checks _
    fun _ _ _ hf => exec_dropCheck hf

theorem run_dropExcludes (hp : prev.UniqueKeys) :
    run (exec current) ⟨ts, js, is, cs, prev.exclude⟩ (dropExcludes prev current) =
      some ⟨ts, js, is, cs, kept prev.exclude current.exclude⟩ :=
  run_drops (fun xs => (⟨ts, js, is, cs, xs⟩ : Schema)) ExclusionSnapshot.name hp.excludes _
    fun _ _ _ hf => exec_dropExclude hf

section Create
variable (hp : prev.UniqueKeys) (hc : current.WellFormed) (hts : Resolves current ts)
include hc hts

theorem run_newIndexes :
    run (exec current) ⟨ts, js, kept prev.index current.index, cs, xs⟩ (newIndexes prev current) =
      some ⟨ts, js, withNew prev.index current.index, cs, xs⟩ :=
  run_news_kept (fun is => (⟨ts, js, is, cs, xs⟩ : Schema)) IndexSnapshot.name hc.keys.indexes
    fun _ x hx hf => exec_createIndex hts (hc.closed.indexes x hx) hf

include hp in
theorem run_recreateIndexes :
    run (exec current) ⟨ts, js, withNew prev.index current.index, cs, xs⟩
      (recreateIndexes prev current) = some ⟨ts, js, current.index, cs, xs⟩ := by
  rw [recreateIndexes_eq]
  exact run_recreates_withNew (fun is => (⟨ts, js, is, cs, xs⟩ : Schema)) IndexSnapshot.name
    hp.indexes fun _ x hx hf => exec_createIndex hts (hc.closed.indexes x hx) hf

include hp in
theorem run_recreateChecks :
    run (exec current) ⟨ts, js, is, kept prev.check current.check, xs⟩ (recreateChecks prev current) =
      some ⟨ts, js, is, withChanged prev.check current.check, xs⟩ :=
  run_recreates_kept (fun cs => (⟨ts, js, is, cs, xs⟩ : Schema)) CheckSnapshot.name hp.checks
    fun _ x hx hf => exec_addCheck hts (hc.closed.checks x hx) hf

theorem run_newChecks :
    run (exec current) ⟨ts, js, is, withChanged prev.check current.check, xs⟩
      (newChecks prev current) = some ⟨ts, js, is, current.check, xs⟩ :=
  run_news_withChanged (fun cs => (⟨ts, js, is, cs, xs⟩ : Schema)) CheckSnapshot.name hc.keys.checks
    fun _ x hx hf => exec_addCheck hts (hc.closed.checks x hx) hf

include hp in
theorem run_recreateExcludes :
    run (exec current) ⟨ts, js, is, cs, kept prev.exclude current.exclude⟩
      (recreateExcludes prev current) =
      some ⟨ts, js, is, cs, withChanged prev.exclude current.exclude⟩ :=
  run_recreates_kept (fun xs => (⟨ts, js, is, cs, xs⟩ : Schema)) ExclusionSnapshot.name hp.excludes
    fun _ x hx hf => exec_addExclude hts (hc.closed.excludes x hx) hf

theorem run_newExcludes :
    run (exec current) ⟨ts, js, is, cs, withChanged prev.exclude current.exclude⟩
      (newExcludes prev current) = some ⟨ts, js, is, cs, current.exclude⟩ :=
  run_news_withChanged (fun xs => (⟨ts, js, is, cs, xs⟩ : Schema)) ExclusionSnapshot.name
    hc.keys.excludes fun _ x hx hf => exec_addExclude hts (hc.closed.excludes x hx) hf

end Create

private theorem exec_createM2M (hts : Resolves current ts) {mt : M2MTableSnapshot}
    (hrefs : ∀ r ∈ mt.refs, current.Has r) (h : js mt.through = none) :
    exec current ⟨ts, js, is, cs, xs⟩ (createM2M mt) =
      some ⟨ts, update js mt.through (some mt.ends), is, cs, xs⟩ := by
  have hall : ∀ r ∈ mt.refs, Schema.Has current ⟨ts, js, is, cs, xs⟩ r := refs_has hts hrefs
  change (if _ then (create js mt.through mt.ends).map _ else none) = _
  rw [if_pos hall, create_of_none h]
  rfl

/-- The junction of `prev` after the drop phase: as it is now when its rows stay, gone when it is
dropped. -/
def keptJunction (prev current : SchemaSnapshot) (n : String) : Option Junction :=
  (prev.m2mTable n).bind fun mt => (current.m2mTable n).bind fun c =>
    if c == mt ∨ (m2mRenames mt c).isSome then some c.ends else none

private theorem m2mTable_wellFormed {s : SchemaSnapshot} (hs : s.WellFormed) {n : String}
    {m : M2MTableSnapshot} (h : s.m2mTable n = some m) : m.through = n ∧ m.srcCol ≠ m.dstCol :=
  ⟨lookup_key _ h, hs.junctions m (mem_of_lookup _ h)⟩

theorem run_dropM2MTables (hp : prev.WellFormed) (hc : current.WellFormed) :
    run (exec current) ⟨ts, prev.db.junctions, is, cs, xs⟩ (dropM2MTables prev current) =
      some ⟨ts, keptJunction prev current, is, cs, xs⟩ := by
  have h := run_phase (exec current) (fun js => (⟨ts, js, is, cs, xs⟩ : Schema))
    M2MTableSnapshot.through (fun mt => keptJunction prev current mt.through)
    (fun mt => (m2mChange current mt).1) prev.m2mTables hp.keys.m2mTables prev.db.junctions
    fun js mt hmt hjs => by
      have hpm : prev.m2mTable mt.through = some mt := lookup_of_mem _ hp.keys.m2mTables hmt
      have hj : js mt.through = some mt.ends := by simp [hjs, hpm]
      have hdrop : run (exec current) ⟨ts, js, is, cs, xs⟩ [.dropM2MTable mt.through] =
          some ⟨ts, update js mt.through none, is, cs, xs⟩ := by
        simp [run_singleton, exec, drop, hj]
      unfold m2mChange
      simp only [keptJunction, hpm, Option.bind_some]
      cases hcm : current.m2mTable mt.through with
      | none => exact hdrop
      | some c =>
        obtain ⟨hct, hcc⟩ := m2mTable_wellFormed hc hcm
        simp only [Option.bind_some]
        by_cases hb : (c == mt) = true
        · simp only [hb, true_or, if_true, run_nil]
          rw [M2MTableSnapshot.ends_eq_of_beq hb, ← hj, update_eq_self]
        · simp only [if_neg hb]
          cases hr : m2mRenames mt c with
          | none => simpa [hb] using hdrop
          | some renames =>
            simp only [Option.isSome_some, or_true, if_true]
            exact run_m2mRenames hr hct (Bool.eq_false_iff.mpr hb) (hp.junctions mt hmt) hcc hj
  refine h.trans ?_
  congr 2
  funext n
  rw [show lookup M2MTableSnapshot.through prev.m2mTables n = prev.m2mTable n from rfl]
  cases hn : prev.m2mTable n with
  | none => simp [SchemaSnapshot.db, keptJunction, hn]
  | some mt => simp [lookup_key _ hn]

/-- The junctions once the changed ones are back. -/
def changedJunction (prev current : SchemaSnapshot) (n : String) : Option Junction :=
  if (prev.m2mTable n).isSome then current.db.junctions n else none

theorem run_recreateM2MTables (hp : prev.WellFormed) (hc : current.WellFormed)
    (hts : Resolves current ts) :
    run (exec current) ⟨ts, keptJunction prev current, is, cs, xs⟩
      (recreateM2MTables prev current) = some ⟨ts, changedJunction prev current, is, cs, xs⟩ := by
  have h := run_phase (exec current) (fun js => (⟨ts, js, is, cs, xs⟩ : Schema))
    M2MTableSnapshot.through (fun mt => current.db.junctions mt.through)
    (fun mt => (m2mChange current mt).2) prev.m2mTables hp.keys.m2mTables
    (keptJunction prev current) fun js mt hmt hjs => by
      have hpm : prev.m2mTable mt.through = some mt := lookup_of_mem _ hp.keys.m2mTables hmt
      unfold m2mChange
      simp only [keptJunction, hpm, Option.bind_some, SchemaSnapshot.db] at hjs ⊢
      cases hcm : current.m2mTable mt.through with
      | none =>
        rw [hcm, Option.bind_none] at hjs
        simp only [Option.map_none, run_nil]
        rw [← hjs, update_eq_self]
      | some c =>
        have hct := (m2mTable_wellFormed hc hcm).1
        have hkeep : js mt.through = some c.ends → run (exec current) ⟨ts, js, is, cs, xs⟩ [] =
            some ⟨ts, update js mt.through (some c.ends), is, cs, xs⟩ := by
          intro hj
          rw [run_nil, ← hj, update_eq_self]
        simp only [hcm, Option.bind_some] at hjs ⊢
        by_cases hb : (c == mt) = true
        · simp only [if_pos hb]
          exact hkeep (by simpa [hb] using hjs)
        · simp only [if_neg hb]
          cases hr : m2mRenames mt c with
          | some renames => exact hkeep (by simpa [hr] using hjs)
          | none =>
            have hj : js c.through = none := by simpa [hb, hr, hct] using hjs
            rw [run_singleton, ← hct]
            exact exec_createM2M hts (hc.closed.m2mTables c (mem_of_lookup _ hcm)) hj
  refine h.trans ?_
  congr 2
  funext n
  rw [show lookup M2MTableSnapshot.through prev.m2mTables n = prev.m2mTable n from rfl]
  cases hn : prev.m2mTable n with
  | none => simp [changedJunction, keptJunction, hn]
  | some mt => simp [changedJunction, hn, lookup_key _ hn]

theorem run_newM2MTables (hc : current.WellFormed) (hts : Resolves current ts) :
    run (exec current) ⟨ts, changedJunction prev current, is, cs, xs⟩ (newM2MTables prev current) =
      some ⟨ts, current.db.junctions, is, cs, xs⟩ := by
  have h := run_phase (exec current) (fun js => (⟨ts, js, is, cs, xs⟩ : Schema))
    M2MTableSnapshot.through (fun c => some c.ends)
    (fun c => if (prev.m2mTable c.through).isNone then [createM2M c] else []) current.m2mTables
    hc.keys.m2mTables (changedJunction prev current) fun js c hcm hjs => by
      have hcc : current.m2mTable c.through = some c := lookup_of_mem _ hc.keys.m2mTables hcm
      cases hpm : prev.m2mTable c.through with
      | none =>
        have hj : js c.through = none := by simpa [changedJunction, hpm] using hjs
        simp only [Option.isNone_none, if_true, run_singleton]
        exact exec_createM2M hts (hc.closed.m2mTables c hcm) hj
      | some mt =>
        have hj : js c.through = some c.ends := by
          simpa [changedJunction, hpm, SchemaSnapshot.db, hcc] using hjs
        simp only [Option.isNone_some, Bool.false_eq_true, if_false, run_nil]
        rw [← hj, update_eq_self]
  refine h.trans ?_
  congr 2
  funext n
  rw [show lookup M2MTableSnapshot.through current.m2mTables n = current.m2mTable n from rfl]
  cases hn : current.m2mTable n with
  | none => simp [changedJunction, SchemaSnapshot.db, hn]
  | some c => simp [SchemaSnapshot.db, hn]

end Objects

end Rustango.Migrate
