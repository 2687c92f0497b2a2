import Rustango.Migrate.Runner

/-!
# Squashes and the files they replace

A run that holds a squash next to the files it replaces executes that history once exactly when, each
at its turn, the squash sees it in place and the files run whole, or the squash runs whole and its
files see it in place. The files are pending as soon as the ledger lacks them, so nothing else keeps
both from running.
-/

namespace Rustango.Migrate

open Rustango.Outcome

variable {D : Type}

section Runs
variable {step step' : List String → Migration → Live D → Except MigrateError (Outcome × Live D)}
variable {log : List (Migration × Outcome)} {s s' : Live D}

private theorem applyEach_files {ms : List Migration} {done : List String}
    (h : applyEach step ms done s = .ok (log, s')) : log.map (·.1) = ms := by
  induction ms generalizing done s s' log with
  | nil =>
    rw [applyEach] at h
    obtain ⟨rfl, -⟩ := Prod.mk.inj (Except.ok.inj h)
    rfl
  | cons m ms ih =>
    rw [applyEach] at h
    obtain ⟨⟨outcome, s₁⟩, -, h⟩ := bind_eq_ok.mp h
    obtain ⟨⟨log', s₂⟩, hrest, h⟩ := bind_eq_ok.mp h
    obtain ⟨rfl, -⟩ := Prod.mk.inj (Except.ok.inj h)
    rw [List.map_cons, ih hrest]

/-- A run splits at each file: the files before it, the file, the files after it. -/
private theorem applyEach_split {before after : List Migration} {m : Migration} {done : List String} :
    applyEach step (before ++ m :: after) done s = .ok (log, s') ↔
      ∃ log₁ s₁ outcome s₂ log₂, applyEach step before done s = .ok (log₁, s₁) ∧
        step (done ++ before.map (·.name)) m s₁ = .ok (outcome, s₂) ∧
        applyEach step after (done ++ before.map (·.name) ++ [m.name]) s₂ = .ok (log₂, s') ∧
        log = log₁ ++ (m, outcome) :: log₂ := by
  induction before generalizing done s log with
  | nil =>
    rw [List.nil_append, applyEach, List.map_nil, List.append_nil]
    simp only [applyEach]
    constructor
    · intro h
      obtain ⟨⟨outcome, s₂⟩, hstep, h⟩ := bind_eq_ok.mp h
      obtain ⟨⟨log₂, s₃⟩, hrest, h⟩ := bind_eq_ok.mp h
      obtain ⟨rfl, rfl⟩ := Prod.mk.inj (Except.ok.inj h)
      exact ⟨[], s, outcome, s₂, log₂, rfl, hstep, hrest, rfl⟩
    · intro ⟨log₁, s₁, outcome, s₂, log₂, hnil, hstep, hrest, hlog⟩
      obtain ⟨rfl, rfl⟩ := Prod.mk.inj (Except.ok.inj hnil)
      rw [hlog, hstep]
      exact bind_eq_ok.mpr ⟨_, rfl, bind_eq_ok.mpr ⟨_, hrest, rfl⟩⟩
  | cons n before ih =>
    have hdone : done ++ [n.name] ++ before.map (·.name) = done ++ (n :: before).map (·.name) := by simp
    rw [List.cons_append, applyEach, applyEach]
    constructor
    · intro h
      obtain ⟨⟨outcome, s₁⟩, hstep, h⟩ := bind_eq_ok.mp h
      obtain ⟨⟨log', s₂⟩, hrest, h⟩ := bind_eq_ok.mp h
      obtain ⟨rfl, rfl⟩ := Prod.mk.inj (Except.ok.inj h)
      obtain ⟨log₁, s₃, o, s₄, log₂, hbefore, hm, hafter, rfl⟩ := ih.mp hrest
      rw [hdone] at hm hafter
      refine ⟨(n, outcome) :: log₁, s₃, o, s₄, log₂, ?_, hm, hafter, rfl⟩
      exact bind_eq_ok.mpr ⟨_, hstep, bind_eq_ok.mpr ⟨_, hbefore, rfl⟩⟩
    · intro ⟨log₁, s₁, outcome, s₂, log₂, hbefore, hm, hafter, hlog⟩
      obtain ⟨⟨o, s₃⟩, hstep, h⟩ := bind_eq_ok.mp hbefore
      obtain ⟨⟨log', s₄⟩, hrest, h⟩ := bind_eq_ok.mp h
      obtain ⟨rfl, rfl⟩ := Prod.mk.inj (Except.ok.inj h)
      refine bind_eq_ok.mpr ⟨_, hstep, bind_eq_ok.mpr ⟨_, ih.mpr
        ⟨log', s₄, outcome, s₂, log₂, hrest, ?_, ?_, rfl⟩, ?_⟩⟩
      · rw [hdone]
        exact hm
      · rw [hdone]
        exact hafter
      · rw [hlog]
        rfl

private theorem applyEach_congr {ms : List Migration} {done : List String}
    (h : ∀ before m after log₁ s₁, ms = before ++ m :: after →
      applyEach step before done s = .ok (log₁, s₁) →
        step (done ++ before.map (·.name)) m s₁ = step' (done ++ before.map (·.name)) m s₁) :
    applyEach step ms done s = applyEach step' ms done s := by
  induction ms generalizing done s with
  | nil => rfl
  | cons m ms ih =>
    have hm : step done m s = step' done m s := by
      simpa using h [] m ms [] s rfl rfl
    rw [applyEach, applyEach, ← hm]
    cases hstep : step done m s with
    | error e => rfl
    | ok r =>
      obtain ⟨outcome, s₁⟩ := r
      have hrest : applyEach step ms (done ++ [m.name]) s₁ = applyEach step' ms (done ++ [m.name]) s₁ := by
        refine ih fun before n after log₁ s₂ hsplit hrun => ?_
        have hturn := h (m :: before) n after ((m, outcome) :: log₁) s₂ (by rw [hsplit]; rfl)
          (by rw [applyEach, hstep]; exact bind_eq_ok.mpr ⟨_, rfl, bind_eq_ok.mpr ⟨_, hrun, rfl⟩⟩)
        simpa using hturn
      simp only [ok_bind, hrest]

end Runs

section Verdicts
variable {b : Backend D} {all : List Migration} {applied : List String} {fakeInitial : Bool}
variable {m : Migration} {d : D}

private theorem presence_all :
    (m.replaces.filter (· ∈ applied)).length = m.replaces.length ↔ ∀ r ∈ m.replaces, r ∈ applied := by
  rw [List.length_filter_eq_length_iff]
  simp

private theorem presence_none :
    (m.replaces.filter (· ∈ applied)).length = 0 ↔ ∀ r ∈ m.replaces, r ∉ applied := by
  rw [List.length_eq_zero_iff, List.filter_eq_nil_iff]
  simp

private theorem countExistingTables_all {tables : List String} :
    countExistingTables b d tables = tables.length ↔ ∀ t ∈ tables, b.tableExists d t = true := by
  rw [countExistingTables, List.length_filter_eq_length_iff]

private theorem countExistingTables_none {tables : List String} :
    countExistingTables b d tables = 0 ↔ ∀ t ∈ tables, b.tableExists d t ≠ true := by
  rw [countExistingTables, List.length_eq_zero_iff, List.filter_eq_nil_iff]

private theorem absent_none :
    (appliedCounts b d (m.changes.filter fun c => c.table ∉ createTableTargets m)).2 = 0 ↔
      ∀ c ∈ m.changes, c.table ∉ createTableTargets m → changeApplied b d c ≠ some false := by
  rw [appliedCounts, List.length_eq_zero_iff, List.filter_eq_nil_iff]
  simp

/-- A squash sees the history it replaces: the ledger holds all of it, or holds none of it while the
tables of the squash exist and no change it makes to another table reads as missing. -/
def HistoryShown (b : Backend D) (m : Migration) (applied : List String) (d : D) : Prop :=
  (∀ r ∈ m.replaces, r ∈ applied) ∨
    (∀ r ∈ m.replaces, r ∉ applied) ∧ createTableTargets m ≠ [] ∧
      (∀ t ∈ createTableTargets m, b.tableExists d t = true) ∧
      ∀ c ∈ m.changes, c.table ∉ createTableTargets m → changeApplied b d c ≠ some false

/-- A squash sees nothing of the history it replaces: neither the ledger nor the database holds any. -/
def HistoryAbsent (b : Backend D) (m : Migration) (applied : List String) (d : D) : Prop :=
  (∀ r ∈ m.replaces, r ∉ applied) ∧ ∀ t ∈ createTableTargets m, b.tableExists d t ≠ true

/-- The verdict on a squash, by what it sees. It runs in part only where it has both a table to create
and a change to another table. -/
private theorem reconcileSquash_cases (b : Backend D) (m : Migration) (applied : List String) (d : D) :
    (reconcileSquash b m applied d = .ok .fake ∧ HistoryShown b m applied d) ∨
      ¬ HistoryShown b m applied d ∧
        (reconcileSquash b m applied d = .ok .run ∧ HistoryAbsent b m applied d ∨
          ¬ HistoryAbsent b m applied d ∧
            ((∃ e, reconcileSquash b m applied d = .error e) ∨
              reconcileSquash b m applied d = .ok (.runOutside (createTableTargets m)) ∧
                createTableTargets m ≠ [] ∧ ∃ c ∈ m.changes, c.table ∉ createTableTargets m)) := by
  have habsent := @absent_none D b m d
  rw [reconcileSquash]
  generalize appliedCounts b d (m.changes.filter fun c => c.table ∉ createTableTargets m) = counts
    at habsent
  obtain ⟨shown, absent⟩ := counts
  simp only at habsent ⊢
  by_cases hp : (m.replaces.filter (· ∈ applied)).length = m.replaces.length
  · rw [if_pos hp]
    exact Or.inl ⟨rfl, Or.inl (presence_all.mp hp)⟩
  rw [if_neg hp]
  have hall : ¬ ∀ r ∈ m.replaces, r ∈ applied := fun h => hp (presence_all.mpr h)
  by_cases hz : 0 < (m.replaces.filter (· ∈ applied)).length
  · rw [if_pos hz]
    have hsome : ¬ ∀ r ∈ m.replaces, r ∉ applied := fun h => hz.ne' (presence_none.mpr h)
    exact Or.inr ⟨fun h => h.elim hall fun h => hsome h.1, Or.inr ⟨fun h => hsome h.1, Or.inl ⟨_, rfl⟩⟩⟩
  rw [if_neg hz]
  have hnone : ∀ r ∈ m.replaces, r ∉ applied := presence_none.mp (by omega)
  by_cases ht : createTableTargets m = []
  · rw [if_pos (List.isEmpty_iff.mpr ht)]
    exact Or.inr ⟨fun h => h.elim hall fun h => h.2.1 ht, Or.inl ⟨rfl, hnone, by simp [ht]⟩⟩
  rw [if_neg fun h => ht (List.isEmpty_iff.mp h)]
  have hlength := List.length_pos_iff.mpr ht
  by_cases he : countExistingTables b d (createTableTargets m) = (createTableTargets m).length
  · rw [if_pos he]
    have hthere : ¬ HistoryAbsent b m applied d := by
      intro h
      have := countExistingTables_none.mpr h.2
      omega
    by_cases ha : absent = 0
    · rw [if_neg (by omega), if_neg (by omega)]
      exact Or.inl ⟨rfl, Or.inr ⟨hnone, ht, countExistingTables_all.mp he, habsent.mp ha⟩⟩
    have hmissing : ¬ HistoryShown b m applied d := fun h => h.elim hall fun h => ha (habsent.mpr h.2.2.2)
    refine Or.inr ⟨hmissing, Or.inr ⟨hthere, ?_⟩⟩
    by_cases hs : 0 < shown
    · rw [if_pos ⟨hs, by omega⟩]
      exact Or.inl ⟨_, rfl⟩
    rw [if_neg fun h => hs h.1, if_pos (by omega)]
    split
    · exact Or.inl ⟨_, rfl⟩
    · refine Or.inr ⟨rfl, ht, ?_⟩
      by_contra hout
      exact ha (habsent.mpr fun c hc hoff => absurd ⟨c, hc, hoff⟩ hout)
  · rw [if_neg he]
    have hmissing : ¬ HistoryShown b m applied d :=
      fun h => h.elim hall fun h => he (countExistingTables_all.mpr h.2.2.1)
    refine Or.inr ⟨hmissing, ?_⟩
    by_cases hz : 0 < countExistingTables b d (createTableTargets m)
    · rw [if_pos hz]
      exact Or.inr ⟨fun h => hz.ne' (countExistingTables_none.mpr h.2), Or.inl ⟨_, rfl⟩⟩
    · rw [if_neg hz]
      exact Or.inl ⟨rfl, hnone, countExistingTables_none.mp (by omega)⟩

/-- A file sees its work done. A plain file looks only under `fakeInitial`, and only when all it does
is to create tables. -/
def Shown (b : Backend D) (applied : List String) (fakeInitial : Bool) (m : Migration) (d : D) : Prop :=
  if m.replaces = [] then
    fakeInitial = true ∧ ∃ tables, createOnlyTables m = some tables ∧ ∀ t ∈ tables, b.tableExists d t = true
  else HistoryShown b m applied d

/-- A file sees nothing of its work. -/
def Absent (b : Backend D) (applied : List String) (fakeInitial : Bool) (m : Migration) (d : D) : Prop :=
  if m.replaces = [] then
    fakeInitial = true → ∀ tables, createOnlyTables m = some tables → ∀ t ∈ tables, b.tableExists d t ≠ true
  else HistoryAbsent b m applied d

private theorem createOnlyTables_eq_some {tables : List String} (h : createOnlyTables m = some tables) :
    tables = createTableTargets m ∧ tables ≠ [] := by
  unfold createOnlyTables at h
  simp only at h
  split at h
  · cases h
  · obtain rfl := Option.some.inj h
    rename_i hkinds
    refine ⟨rfl, fun hnil => hkinds ?_⟩
    simp [hnil]

private theorem Shown.not_absent (h : Shown b applied fakeInitial m d) :
    ¬ Absent b applied fakeInitial m d := by
  unfold Shown at h
  unfold Absent
  by_cases hrep : m.replaces = []
  · rw [if_pos hrep] at h ⊢
    obtain ⟨hinitial, tables, hcreate, hexist⟩ := h
    obtain ⟨t, ht⟩ := List.exists_mem_of_ne_nil tables (createOnlyTables_eq_some hcreate).2
    exact fun hnone => hnone hinitial tables hcreate t ht (hexist t ht)
  · rw [if_neg hrep] at h ⊢
    intro hnone
    rcases h with h | ⟨-, hne, hexist, -⟩
    · obtain ⟨r, hr⟩ := List.exists_mem_of_ne_nil _ hrep
      exact hnone.1 r hr (h r hr)
    · obtain ⟨t, ht⟩ := List.exists_mem_of_ne_nil _ hne
      exact hnone.2 t ht (hexist t ht)

private theorem exists_creating {t : String} (h : t ∈ createTableTargets m) :
    ∃ op ∈ m.forward, (∀ existing, op ∈ (withoutTables m existing).forward ↔ t ∉ existing) ∧
      ∀ existing, t ∈ existing → op ∉ (outsideTables m existing).forward := by
  obtain ⟨op, hop, htarget⟩ := List.mem_filterMap.mp h
  refine ⟨op, hop, ?_⟩
  split at htarget
  · obtain rfl := Option.some.inj htarget
    exact ⟨fun existing => by simp [withoutTables, hop], fun existing ht => by
      simp [outsideTables, SchemaChange.table, ht]⟩
  · obtain rfl := Option.some.inj htarget
    exact ⟨fun existing => by simp [withoutTables, hop], fun existing ht => by
      simp [outsideTables, SchemaChange.table, ht]⟩
  · cases htarget

private theorem withoutTables_part {t u : String} {existing : List String} (ht : t ∈ createTableTargets m)
    (hin : t ∈ existing) (hu : u ∈ createTableTargets m) (hout : u ∉ existing) :
    (withoutTables m existing).forward ≠ [] ∧ (withoutTables m existing).forward ≠ m.forward := by
  obtain ⟨op, hop, hkeeps, -⟩ := exists_creating ht
  obtain ⟨op', -, hkeeps', -⟩ := exists_creating hu
  exact ⟨List.ne_nil_of_mem ((hkeeps' existing).mpr hout), fun h => (hkeeps existing).mp (h ▸ hop) hin⟩

private theorem outsideTables_part (hne : createTableTargets m ≠ [])
    (hout : ∃ c ∈ m.changes, c.table ∉ createTableTargets m) :
    (outsideTables m (createTableTargets m)).forward ≠ [] ∧
      (outsideTables m (createTableTargets m)).forward ≠ m.forward := by
  obtain ⟨t, ht⟩ := List.exists_mem_of_ne_nil _ hne
  obtain ⟨op, hop, -, hleaves⟩ := exists_creating ht
  obtain ⟨c, hc, hoff⟩ := hout
  have hkept : Operation.schema c ∈ (outsideTables m (createTableTargets m)).forward := by
    obtain ⟨operation, hoperation, hchange⟩ := List.mem_filterMap.mp hc
    split at hchange
    · obtain rfl := Option.some.inj hchange
      simp [outsideTables, hoperation, hoff]
    · cases hchange
  exact ⟨List.ne_nil_of_mem hkept, fun h => hleaves _ ht (h ▸ hop)⟩

/-- The operations of the file that the run executed. -/
def executed (entry : Migration × Outcome) : List Operation :=
  match entry.2 with
  | .ran => entry.1.forward
  -- A squash skips its own tables, with everything on them; a plain file skips those that exist.
  | .ranPartial skipped =>
    if entry.1.replaces = [] then (withoutTables entry.1 skipped).forward
    else (outsideTables entry.1 skipped).forward
  | .faked => []

/-- The verdict on a file, by what it sees; where it sees neither, the file runs in part or not at all. -/
private theorem reconcile_cases (b : Backend D) (applied : List String) (fakeInitial : Bool) (m : Migration)
    (d : D) :
    (reconcile b m applied fakeInitial d = .ok .fake ∧ Shown b applied fakeInitial m d) ∨
      ¬ Shown b applied fakeInitial m d ∧
        (reconcile b m applied fakeInitial d = .ok .run ∧ Absent b applied fakeInitial m d ∨
          ¬ Absent b applied fakeInitial m d ∧
            ((∃ e, reconcile b m applied fakeInitial d = .error e) ∨
              ∃ skipped, (reconcile b m applied fakeInitial d = .ok (.runPartial skipped) ∨
                reconcile b m applied fakeInitial d = .ok (.runOutside skipped)) ∧
                executed (m, .ranPartial skipped) ≠ [] ∧ executed (m, .ranPartial skipped) ≠ m.forward)) := by
  unfold Shown Absent reconcile executed
  by_cases hrep : m.replaces = []
  · simp only [hrep, List.isEmpty_nil, Bool.not_true, Bool.false_eq_true, if_false, if_true]
    by_cases hinitial : fakeInitial = true
    · rw [if_pos hinitial]
      cases hcreate : createOnlyTables m with
      | none => simp
      | some tables =>
        obtain ⟨htargets, hne⟩ := createOnlyTables_eq_some hcreate
        have hall : (tables.filter fun t => b.tableExists d t).length = tables.length ↔
            ∀ t ∈ tables, b.tableExists d t = true := countExistingTables_all
        have hnone : (tables.filter fun t => b.tableExists d t).isEmpty = true ↔
            ∀ t ∈ tables, b.tableExists d t ≠ true := by
          rw [List.isEmpty_iff, List.filter_eq_nil_iff]
        simp only [hinitial, true_and, Option.some.injEq, exists_eq_left', forall_eq', forall_const]
        by_cases he : ∀ t ∈ tables, b.tableExists d t = true
        · rw [if_pos (hall.mpr he)]
          exact Or.inl ⟨rfl, he⟩
        rw [if_neg fun h => he (hall.mp h)]
        refine Or.inr ⟨he, ?_⟩
        by_cases hn : ∀ t ∈ tables, b.tableExists d t ≠ true
        · rw [if_neg (by rw [hnone.mpr hn]; decide)]
          exact Or.inl ⟨rfl, hn⟩
        · have hfalse : (tables.filter fun t => b.tableExists d t).isEmpty = false :=
            Bool.eq_false_iff.mpr fun h => hn (hnone.mp h)
          rw [if_pos (by rw [hfalse]; rfl)]
          push Not at he hn
          obtain ⟨u, hu, hout⟩ := he
          obtain ⟨t, ht, hin⟩ := hn
          refine Or.inr ⟨fun h => h t ht hin, Or.inr ⟨_, Or.inl rfl, ?_⟩⟩
          exact withoutTables_part (htargets ▸ ht) (by simp [ht, hin]) (htargets ▸ hu) (by simp [hout])
    · rw [if_neg hinitial]
      simp [hinitial]
  · have hsquash : (!m.replaces.isEmpty) = true := by simpa using hrep
    rw [if_pos hsquash, if_neg hrep, if_neg hrep]
    rcases reconcileSquash_cases b m applied d with
      hfake | ⟨hnot, hrun | ⟨hnone, herror | ⟨hpart, hne, hout⟩⟩⟩
    · exact Or.inl hfake
    · exact Or.inr ⟨hnot, Or.inl hrun⟩
    · exact Or.inr ⟨hnot, Or.inr ⟨hnone, Or.inl herror⟩⟩
    · refine Or.inr ⟨hnot, Or.inr ⟨hnone, Or.inr ⟨_, Or.inr hpart, ?_⟩⟩⟩
      simp only [if_neg hrep]
      exact outsideTables_part hne hout

private theorem executed_sublist (entry : Migration × Outcome) :
    (executed entry).Sublist entry.1.forward := by
  unfold executed
  split
  · exact List.Sublist.refl _
  · split <;> exact List.filter_sublist
  · exact List.nil_sublist _

section Step
variable {done : List String} {s s' : Live D} {outcome : Outcome}

private theorem reconcileAndApply_of_shown (h : Shown b applied fakeInitial m s.db) :
    reconcileAndApply b all applied fakeInitial done m s = .ok (.faked, fakeApply m s) := by
  rcases reconcile_cases b applied fakeInitial m s.db with
    ⟨hfake, -⟩ | ⟨hnot, -⟩
  · rw [reconcileAndApply, hfake]
    rfl
  · exact absurd h hnot

private theorem reconcileAndApply_of_absent (h : Absent b applied fakeInitial m s.db) :
    reconcileAndApply b all applied fakeInitial done m s =
      (applyOne b all done m s).map fun s => (.ran, s) := by
  rcases reconcile_cases b applied fakeInitial m s.db with
    ⟨-, hshown⟩ | ⟨-, ⟨hrun, -⟩ | ⟨hnot, -⟩⟩
  · exact absurd h hshown.not_absent
  · rw [reconcileAndApply, hrun]
    rfl
  · exact absurd h hnot

private theorem executed_step
    (h : reconcileAndApply b all applied fakeInitial done m s = .ok (outcome, s')) :
    (executed (m, outcome) = [] ↔ m.forward = [] ∨ Shown b applied fakeInitial m s.db) ∧
      (executed (m, outcome) = m.forward ↔ m.forward = [] ∨ Absent b applied fakeInitial m s.db) := by
  rcases reconcile_cases b applied fakeInitial m s.db with
    ⟨-, hshown⟩ | ⟨hnot, ⟨-, habsent⟩ | ⟨hnone, ⟨e, herror⟩ | ⟨skipped, hpart, hne, hproper⟩⟩⟩
  · rw [reconcileAndApply_of_shown hshown] at h
    obtain ⟨rfl, -⟩ := Prod.mk.inj (Except.ok.inj h)
    simp [executed, hshown, hshown.not_absent, eq_comm]
  · rw [reconcileAndApply_of_absent habsent] at h
    obtain ⟨_, -, h⟩ := map_eq_ok.mp h
    obtain ⟨rfl, -⟩ := Prod.mk.inj h
    simp [executed, hnot, habsent]
  · rw [reconcileAndApply, herror] at h
    cases h
  · have houtcome : outcome = .ranPartial skipped := by
      rcases hpart with hpart | hpart <;>
      · rw [reconcileAndApply, hpart] at h
        obtain ⟨_, -, h⟩ := map_eq_ok.mp h
        exact (Prod.mk.inj h).1.symm
    have hsome : m.forward ≠ [] := fun hnil =>
      hne (List.sublist_nil.mp (hnil ▸ executed_sublist (m, .ranPartial skipped)))
    rw [houtcome]
    simp [hne, hproper, hsome, hnot, hnone]

end Step

end Verdicts

/-- What the run executed of the file `name`. -/
def executedOf (log : List (Migration × Outcome)) (name : String) : List Operation :=
  (log.filter fun entry => entry.1.name = name).flatMap executed

/-- The history of a file is in place before the run: the ledger holds it, or an applied squash
replaces it. -/
def InPlace (all : List Migration) (applied : List String) (name : String) : Prop :=
  name ∈ applied ∨ (replacedBy all applied name).isSome

/-- The replaced history stands once: the run executed the squash and nothing of the files it
replaces, none of which stood before; or it executed nothing of the squash, and each file either
stood before or was executed, whole. -/
def Once (all : List Migration) (applied : List String) (squash : Migration)
    (log : List (Migration × Outcome)) : Prop :=
  (executedOf log squash.name = squash.forward ∧
      ∀ r ∈ squash.replaces, ¬ InPlace all applied r ∧ executedOf log r = []) ∨
    executedOf log squash.name = [] ∧
      ∀ r ∈ squash.replaces, InPlace all applied r ∨
        ∃ m ∈ all, m.name = r ∧ executedOf log r = m.forward

section Squash
variable (b : Backend D) (all : List Migration) (fakeInitial : Bool) (squash m : Migration) (s : Live D)

/-- The pending files before `m`. -/
def filesBefore : List Migration :=
  (pendingMigrations all s.ledger).takeWhile fun n => n.name ≠ m.name

/-- The pending files before `m` apply, and leave a database with `P`. -/
def AtTurn (P : D → Prop) : Prop :=
  ∃ log s₁, applyEach (reconcileAndApply b all s.ledger fakeInitial) (filesBefore all m s) s.ledger s =
    .ok (log, s₁) ∧ P s₁.db

/-- The file has nothing to do, or finds it done when its turn comes. -/
def Skipped : Prop :=
  m ∈ pendingMigrations all s.ledger → m.forward = [] ∨
    AtTurn b all fakeInitial m s (Shown b s.ledger fakeInitial m)

/-- The file has nothing to do, or finds nothing of it done when its turn comes. -/
def RunsWhole : Prop :=
  m.forward = [] ∨ m ∈ pendingMigrations all s.ledger ∧
    AtTurn b all fakeInitial m s (Absent b s.ledger fakeInitial m)

/-- One side of the squash is taken: its files where it is only recorded, else the squash itself. -/
def TakenOnce (recorded : Bool) : Prop :=
  if recorded then
    Skipped b all fakeInitial squash s ∧
      ∀ r ∈ squash.replaces, InPlace all s.ledger r ∨
        ∃ m ∈ all, m.name = r ∧ RunsWhole b all fakeInitial m s
  else
    RunsWhole b all fakeInitial squash s ∧
      ∀ r ∈ squash.replaces, ¬ InPlace all s.ledger r ∧
        ∀ m ∈ all, m.name = r → Skipped b all fakeInitial m s

/-- A step that runs one side of the squash whole and only records the other. -/
def onceStep (recorded : Bool) (done : List String) (n : Migration) (s' : Live D) :
    Except MigrateError (Outcome × Live D) :=
  let takes (whole : Bool) : Except MigrateError (Outcome × Live D) :=
    if whole then (applyOne b all done n s').map fun s => (.ran, s) else .ok (.faked, fakeApply n s')
  if n.forward = [] then reconcileAndApply b all s.ledger fakeInitial done n s'
  else if n.name = squash.name then takes !recorded
  else if n.name ∈ squash.replaces then takes recorded
  else reconcileAndApply b all s.ledger fakeInitial done n s'

/-- The run that takes one side of the squash. -/
def onceChain (recorded : Bool) : Except MigrateError (List (Migration × Outcome) × Live D) :=
  applyEach (onceStep b all fakeInitial squash s recorded) (pendingMigrations all s.ledger) s.ledger s

variable {b all fakeInitial squash m s}
variable {log : List (Migration × Outcome)} {s' : Live D}

private theorem mem_pending_iff :
    m ∈ pendingMigrations all s.ledger ↔ m ∈ all ∧ ¬ InPlace all s.ledger m.name := by
  rw [pendingMigrations, List.mem_filter, InPlace, migrationState]
  by_cases hin : m.name ∈ s.ledger
  · simp [hin]
  · by_cases hreplaced : (replacedBy all s.ledger m.name).isSome = true
    · simp [hin, hreplaced]
    · simp [hin, hreplaced]

private theorem not_inPlace_fresh (name : String) : ¬ InPlace all [] name := by
  simp [InPlace, replacedBy]

private theorem mem_pending_fresh {d : D} (hm : m ∈ all) :
    m ∈ pendingMigrations all (Live.mk d []).ledger :=
  mem_pending_iff.mpr ⟨hm, not_inPlace_fresh m.name⟩

private theorem filesBefore_split (hnames : (all.map (·.name)).Nodup) {before after : List Migration}
    (hsplit : pendingMigrations all s.ledger = before ++ m :: after) :
    filesBefore all m s = before ∧ (∀ n ∈ before, n.name ≠ m.name) ∧ ∀ n ∈ after, n.name ≠ m.name := by
  have hn : ((pendingMigrations all s.ledger).map (·.name)).Nodup :=
    hnames.sublist (List.filter_sublist.map _)
  rw [hsplit, List.map_append, List.map_cons, List.nodup_append, List.nodup_cons] at hn
  have hbefore : ∀ n ∈ before, n.name ≠ m.name := by
    intro n hn'
    exact hn.2.2 _ (List.mem_map_of_mem hn') _ List.mem_cons_self
  have hafter : ∀ n ∈ after, n.name ≠ m.name := by
    intro n hn' heq
    exact hn.2.1.1 (heq ▸ List.mem_map_of_mem hn')
  refine ⟨?_, hbefore, hafter⟩
  rw [filesBefore, hsplit, List.takeWhile_append_of_pos (by simpa using hbefore)]
  simp

private theorem atTurn_iff (hnames : (all.map (·.name)).Nodup) {before after : List Migration}
    (hsplit : pendingMigrations all s.ledger = before ++ m :: after) {s₁ : Live D}
    (hrun : applyEach (reconcileAndApply b all s.ledger fakeInitial) before s.ledger s = .ok (log, s₁))
    {P : D → Prop} : AtTurn b all fakeInitial m s P ↔ P s₁.db := by
  rw [AtTurn, (filesBefore_split hnames hsplit).1, hrun]
  constructor
  · intro ⟨log', s₂, heq, hP⟩
    obtain ⟨-, rfl⟩ := Prod.mk.inj (Except.ok.inj heq)
    exact hP
  · exact fun hP => ⟨log, s₁, rfl, hP⟩

private theorem executedOf_absent (name : String) (h : ∀ entry ∈ log, entry.1.name ≠ name) :
    executedOf log name = [] := by
  rw [executedOf, List.filter_eq_nil_iff.mpr fun entry he => by simpa using h entry he]
  rfl

private theorem executedOf_split {log₁ log₂ : List (Migration × Outcome)} {outcome : Outcome}
    (h₁ : ∀ n ∈ log₁.map (·.1), n.name ≠ m.name) (h₂ : ∀ n ∈ log₂.map (·.1), n.name ≠ m.name) :
    executedOf (log₁ ++ (m, outcome) :: log₂) m.name = executed (m, outcome) := by
  have hfirst := executedOf_absent m.name fun entry he => h₁ _ (List.mem_map_of_mem he)
  have hlast := executedOf_absent m.name fun entry he => h₂ _ (List.mem_map_of_mem he)
  unfold executedOf at hfirst hlast ⊢
  rw [List.filter_append, List.flatMap_append, hfirst, List.filter_cons_of_pos (by simp),
    List.flatMap_cons, hlast, List.nil_append, List.append_nil]

private theorem executedOf_run (hnames : (all.map (·.name)).Nodup) (hmem : m ∈ all)
    (h : applyChain b all fakeInitial s = .ok (log, s')) :
    (executedOf log m.name = [] ↔ Skipped b all fakeInitial m s) ∧
      (executedOf log m.name = m.forward ↔ RunsWhole b all fakeInitial m s) := by
  unfold Skipped RunsWhole
  by_cases hpending : m ∈ pendingMigrations all s.ledger
  · obtain ⟨before, after, hsplit⟩ := List.append_of_mem hpending
    obtain ⟨-, hbefore, hafter⟩ := filesBefore_split hnames hsplit
    rw [applyChain, hsplit] at h
    obtain ⟨log₁, s₁, outcome, s₂, log₂, hrun, hstep, hrest, rfl⟩ := applyEach_split.mp h
    have hexecuted : executedOf (log₁ ++ (m, outcome) :: log₂) m.name = executed (m, outcome) :=
      executedOf_split (by rwa [applyEach_files hrun]) (by rwa [applyEach_files hrest])
    rw [hexecuted, atTurn_iff hnames hsplit hrun, atTurn_iff hnames hsplit hrun]
    simpa [hpending] using executed_step hstep
  · have hnone : executedOf log m.name = [] := by
      refine executedOf_absent _ fun entry he hname => hpending ?_
      have hin : entry.1 ∈ pendingMigrations all s.ledger :=
        applyEach_files h ▸ List.mem_map_of_mem he
      exact List.inj_on_of_nodup_map hnames (List.mem_of_mem_filter hin) hmem hname ▸ hin
    simp [hnone, hpending, eq_comm]

private theorem once_iff_takenOnce (hnames : (all.map (·.name)).Nodup) (hmem : squash ∈ all)
    (h : applyChain b all fakeInitial s = .ok (log, s')) :
    Once all s.ledger squash log ↔ ∃ recorded, TakenOnce b all fakeInitial squash s recorded := by
  have hfile : ∀ m ∈ all, (executedOf log m.name = [] ↔ Skipped b all fakeInitial m s) ∧
      (executedOf log m.name = m.forward ↔ RunsWhole b all fakeInitial m s) :=
    fun m hm => executedOf_run hnames hm h
  have hnone : ∀ r, executedOf log r = [] ↔
      ∀ m ∈ all, m.name = r → Skipped b all fakeInitial m s := by
    intro r
    constructor
    · rintro hr m hm rfl
      exact (hfile m hm).1.mp hr
    · intro hr
      by_cases hdisk : ∃ m ∈ all, m.name = r
      · obtain ⟨m, hm, rfl⟩ := hdisk
        exact (hfile m hm).1.mpr (hr m hm rfl)
      · refine executedOf_absent _ fun entry he hname => hdisk ⟨entry.1, ?_, hname⟩
        have hin : entry.1 ∈ pendingMigrations all s.ledger :=
          applyEach_files h ▸ List.mem_map_of_mem he
        exact List.mem_of_mem_filter hin
  have hwhole : ∀ r, (∃ m ∈ all, m.name = r ∧ executedOf log r = m.forward) ↔
      ∃ m ∈ all, m.name = r ∧ RunsWhole b all fakeInitial m s := by
    intro r
    constructor
    · rintro ⟨m, hm, rfl, hr⟩
      exact ⟨m, hm, rfl, (hfile m hm).2.mp hr⟩
    · rintro ⟨m, hm, rfl, hr⟩
      exact ⟨m, hm, rfl, (hfile m hm).2.mpr hr⟩
  rw [Bool.exists_bool, Once]
  simp only [TakenOnce, Bool.false_eq_true, if_false, if_true, (hfile squash hmem).1,
    (hfile squash hmem).2, hnone, hwhole]

private theorem applyChain_of_takenOnce (hnames : (all.map (·.name)).Nodup) (hmem : squash ∈ all)
    {recorded : Bool} (h : TakenOnce b all fakeInitial squash s recorded) :
    applyChain b all fakeInitial s = onceChain b all fakeInitial squash s recorded := by
  refine applyEach_congr fun before m after log₁ s₁ hsplit hrun => ?_
  have hpending : m ∈ pendingMigrations all s.ledger := by
    rw [hsplit]
    simp
  obtain ⟨hm, hnot⟩ := mem_pending_iff.mp hpending
  have hskips : m.forward ≠ [] → Skipped b all fakeInitial m s → Shown b s.ledger fakeInitial m s₁.db :=
    fun hne hskip => (atTurn_iff hnames hsplit hrun).mp ((hskip hpending).resolve_left hne)
  have hruns : m.forward ≠ [] → RunsWhole b all fakeInitial m s → Absent b s.ledger fakeInitial m s₁.db :=
    fun hne hrun' => (atTurn_iff hnames hsplit hrun).mp (hrun'.resolve_left hne).2
  rw [onceStep]
  simp only
  by_cases hne : m.forward = []
  · rw [if_pos hne]
  rw [if_neg hne]
  by_cases hsquash : m.name = squash.name
  · rw [if_pos hsquash]
    obtain rfl := List.inj_on_of_nodup_map hnames hm hmem hsquash
    cases recorded with
    | true => exact reconcileAndApply_of_shown (hskips hne h.1)
    | false => exact reconcileAndApply_of_absent (hruns hne h.1)
  rw [if_neg hsquash]
  by_cases hreplaced : m.name ∈ squash.replaces
  · rw [if_pos hreplaced]
    cases recorded with
    | true =>
      obtain ⟨n, hn, hname, hwhole⟩ := (h.2 m.name hreplaced).resolve_left hnot
      obtain rfl := List.inj_on_of_nodup_map hnames hn hm hname
      exact reconcileAndApply_of_absent (hruns hne hwhole)
    | false => exact reconcileAndApply_of_shown (hskips hne ((h.2 m.name hreplaced).2 m hm rfl))
  · rw [if_neg hreplaced]

end Squash

section Authors
open Rustango.Slots

/-- A database that runs every operation on its schema. -/
private def schemaBackend : Backend Schema where
  tableExists d t := (d.tables t).isSome || (d.junctions t).isSome
  hasColumn d t c := (d.columnAt t c).isSome
  hasIndex d t n := (d.indexes n).any fun i => i.table = t
  applySnapshot _ _ m := m.snapshot
  apply _ m d :=
    match run (exec m.snapshot) d m.changes with
    | some d => .ok d
    | none => .error (.driver ("cannot apply " ++ m.name))

private def authorField (name : String) : FieldSnapshot :=
  ⟨name, name, "string", true, false, none, none, none, none, false, false, false, none, none, none⟩

private def authorSnapshot (columns : List String) : SchemaSnapshot :=
  ⟨[⟨"author", "Author", columns.map authorField, [], none⟩], [], [], [], []⟩

private def createAuthor : Migration :=
  ⟨"0001_initial", none, true, [], [], authorSnapshot ["name"], [.schema (.createTable "author")],
    .tenant⟩

private def addBio : Migration :=
  ⟨"0002_bio", some "0001_initial", true, [], [], authorSnapshot ["name", "bio"],
    [.schema (.addColumn "author" "bio")], .tenant⟩

private def squashBio : Migration :=
  { addBio with
    name := "0003_squash"
    prev := some "0002_bio"
    replaces := ["0002_bio"] }

private def squashAll : Migration :=
  ⟨"0003_squash", some "0002_bio", true, ["0001_initial", "0002_bio"], [], authorSnapshot ["name", "bio"],
    [.schema (.createTable "author")], .tenant⟩

private def squashInitial : Migration :=
  ⟨"0001_squash", none, true, ["0002_initial"], [], authorSnapshot ["name"],
    [.schema (.createTable "author")], .tenant⟩

private def createAfterSquash : Migration :=
  ⟨"0002_initial", some "0001_squash", true, [], [], authorSnapshot ["name"],
    [.schema (.createTable "author")], .tenant⟩

end Authors

end Rustango.Migrate
