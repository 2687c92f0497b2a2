import Rustango.Migrate.Segments

/-!
# An atomic run on SQLite

The ranges of a migration run one transaction each, the last of which writes the ledger row. The log
of what was committed is compared with what the run reports, wherever it fails.
-/

namespace Rustango.Migrate

open Rustango.Outcome

/-- A committed write: an operation, by its place, or the ledger row. -/
inductive Write where
  | op (i : ℕ)
  | ledger
deriving DecidableEq, Repr

/-- A step of a run, besides its operations, that can fail. The ranges are numbered. -/
inductive FailPoint where
  | acquire (range : ℕ)
  | begin_ (range : ℕ)
  | deferred (i : ℕ)
  | ledger
  | commit (range : ℕ)
  | restore (range : ℕ)
deriving DecidableEq, Repr

/-- What a run meets: whether rendering a change gives a rebuild, what an operation's statements do,
with the FK statements they leave for the end, and which other steps fail. -/
structure SqliteRun where
  rebuildOf : ℕ → SchemaChange → Except MigrateError Bool
  exec : ℕ → Operation → Except MigrateError (List String)
  fault : FailPoint → Option MigrateError

def SqliteRun.try_ (db : SqliteRun) (point : FailPoint) : Except MigrateError Unit :=
  match db.fault point with
  | some error => .error error
  | none => .ok ()

/-- The driver error that a partial failure carries. -/
inductive DriverError where
  | driver (message : String)
  | protocol (message : String)
deriving DecidableEq, Repr

/-- What `atomic_sqlite` returns: the error of a run, or `MigrateError::PartiallyApplied`. -/
inductive RunError where
  | failed (error : MigrateError)
  | partiallyApplied (migration : String) (applied total ddlApplied : ℕ) (source : DriverError)
deriving DecidableEq, Repr

/-- A failed range: `committed` when only the FK restore after its COMMIT failed. -/
structure SegmentFailed where
  committed : Bool
  error : MigrateError
deriving DecidableEq, Repr

/-- The run's result, `applied` counting this range if it committed. A committed last range wrote the
ledger row, so it only warns. -/
def SegmentFailed.outcome (failed : SegmentFailed) (name : String) (last : Bool)
    (applied ddlApplied total : ℕ) : Except RunError Unit :=
  if failed.committed && last then .ok ()
  else if applied = 0 then .error (.failed failed.error)
  else
    let source := match failed.error with
      | .driver message => .driver message
      | .validation message => .protocol message
    .error (.partiallyApplied name applied total ddlApplied source)

def callbackInAtomic (mig : String) (op : CallbackOp) : MigrateError :=
  .validation (mig ++ ": callback `" ++ op.name ++ "` needs `\"atomic\": false`")

section Run
variable (db : SqliteRun) (name : String) (ops : List Operation)

def runOp (i : ℕ) : Operation → Except MigrateError (List String)
  | .callback c => .error (callbackInAtomic name c)
  | op => db.exec i op

/-- The operations of a range, the first of them the `i`-th. -/
def runOps : ℕ → List Operation → Except MigrateError (List Write × List String)
  | _, [] => .ok ([], [])
  | i, op :: rest => do
    let fks ← runOp db name i op
    let (writes, more) ← runOps (i + 1) rest
    return (.op i :: writes, fks ++ more)

def runDeferred : ℕ → List String → Except MigrateError Unit
  | _, [] => .ok ()
  | i, _ :: rest => do
    db.try_ (.deferred i)
    runDeferred (i + 1) rest

/-- The transaction of a range: what it writes, and the FK statements it leaves. -/
def segmentTx (i : ℕ) (seg : Segment) (deferred : List String) (ledger : Bool) :
    Except MigrateError (List Write × List String) := do
  db.try_ (.begin_ i)
  let (writes, fks) ← runOps db name seg.start ((ops.drop seg.start).take (seg.stop - seg.start))
  if !ledger then
    db.try_ (.commit i)
    return (writes, deferred ++ fks)
  runDeferred db 0 (deferred ++ fks)
  db.try_ .ledger
  db.try_ (.commit i)
  return (writes ++ [.ledger], [])

/-- The range in one transaction, FK enforcement off around it when it rebuilds: what was committed
beside what is returned. -/
def atomicSqliteSegment (i : ℕ) (seg : Segment) (deferred : List String) (ledger : Bool) :
    List Write × Except SegmentFailed (List String) :=
  match db.try_ (.acquire i) with
  | .error e => ([], .error ⟨false, e⟩)
  | .ok () =>
    let result := segmentTx db name ops i seg deferred ledger
    let finished := if seg.rebuilds then db.try_ (.restore i) else .ok ()
    -- The migration's own error wins over a failed restore.
    match result, finished with
    | .error e, _ => ([], .error ⟨false, e⟩)
    | .ok (writes, _), .error e => (writes, .error ⟨true, e⟩)
    | .ok (writes, fks), .ok () => (writes, .ok fks)

def Operation.isSchema : Operation → Bool
  | .schema _ => true
  | _ => false

/-- The loop over the ranges, of which there are `count`. -/
def runSegments (count : ℕ) : List Segment → ℕ → List String → ℕ → ℕ →
    List Write × Except RunError Unit
  | [], _, _, _, _ => ([], .ok ())
  | seg :: segs, i, deferred, applied, ddlApplied =>
    let last := i + 1 == count
    let ran := atomicSqliteSegment db name ops i seg deferred last
    let size := seg.stop - seg.start
    let ranDdl := ((ops.drop seg.start).take size).countP Operation.isSchema
    match ran.2 with
    | .error failed =>
      if failed.committed then
        (ran.1, failed.outcome name last (applied + size) (ddlApplied + ranDdl) ops.length)
      else (ran.1, failed.outcome name last applied ddlApplied ops.length)
    | .ok fks =>
      let more := runSegments count segs (i + 1) fks (applied + size) (ddlApplied + ranDdl)
      (ran.1 ++ more.1, more.2)

/-- `atomic_sqlite`: the writes it committed beside its result. -/
def atomicSqlite : List Write × Except RunError Unit :=
  -- Refused before any range commits.
  match ops.findSome? fun op => match op with | .callback c => some c | _ => none with
  | some c => ([], .error (.failed (callbackInAtomic name c)))
  | none =>
    match sqliteSegments db.rebuildOf ops with
    | .error e => ([], .error (.failed e))
    | .ok segments => runSegments db name ops segments.length segments 0 [] 0 0

end Run

/-- What a range writes when it commits. -/
def Segment.writes (seg : Segment) : List Write :=
  (List.range' seg.start (seg.stop - seg.start)).map Write.op

def Write.isOp : Write → Bool
  | .op _ => true
  | .ledger => false

def committedOps (log : List Write) : ℕ := log.countP Write.isOp

/-- A report that agrees with what was committed. -/
structure Truthful (name : String) (total : ℕ) (log : List Write) (result : Except RunError Unit) :
    Prop where
  ok_iff : result = .ok () ↔ .ledger ∈ log
  partly : .ledger ∉ log → 0 < committedOps log → ∃ ddl source,
    result = .error (.partiallyApplied name (committedOps log) total ddl source)
  untouched : .ledger ∉ log → committedOps log = 0 → ∃ error, result = .error (.failed error)

section Report
variable {db : SqliteRun} {name : String} {ops : List Operation}

private theorem runOps_writes {rest : List Operation} {i : ℕ} {writes : List Write} {fks : List String}
    (h : runOps db name i rest = .ok (writes, fks)) :
    writes = (List.range' i rest.length).map Write.op := by
  induction rest generalizing i writes fks with
  | nil =>
    obtain rfl := congrArg Prod.fst (Except.ok.inj h)
    rfl
  | cons op rest ih =>
    obtain ⟨fks', -, h⟩ := bind_eq_ok.mp h
    obtain ⟨⟨writes', more⟩, hrest, h⟩ := bind_eq_ok.mp h
    obtain rfl := congrArg Prod.fst (Except.ok.inj h)
    rw [ih hrest, List.length_cons, List.range'_succ, List.map_cons]

private theorem consecutive_le {segs : List Segment} {a b : ℕ} (h : Consecutive a segs b) : a ≤ b := by
  induction segs generalizing a with
  | nil => exact Nat.le_of_eq h
  | cons seg segs ih =>
    obtain ⟨rfl, hle, hrest⟩ := h
    exact hle.trans (ih hrest)

private theorem segmentTx_writes {i : ℕ} {seg : Segment} {deferred fks : List String} {ledger : Bool}
    {writes : List Write} (hstop : seg.stop ≤ ops.length)
    (h : segmentTx db name ops i seg deferred ledger = .ok (writes, fks)) :
    writes = seg.writes ++ if ledger then [.ledger] else [] := by
  obtain ⟨-, -, h⟩ := bind_eq_ok.mp h
  obtain ⟨⟨writes', fks'⟩, hops, h⟩ := bind_eq_ok.mp h
  have hall : writes' = seg.writes := by
    rw [runOps_writes hops, List.length_take, List.length_drop, Segment.writes]
    congr 2
    omega
  cases ledger with
  | false =>
    obtain ⟨-, -, h⟩ := bind_eq_ok.mp h
    obtain rfl := congrArg Prod.fst (Except.ok.inj h)
    rw [hall]
    exact (List.append_nil _).symm
  | true =>
    obtain ⟨-, -, h⟩ := bind_eq_ok.mp h
    obtain ⟨-, -, h⟩ := bind_eq_ok.mp h
    obtain ⟨-, -, h⟩ := bind_eq_ok.mp h
    obtain rfl := congrArg Prod.fst (Except.ok.inj h)
    rw [hall]
    rfl

variable (db name) in
private theorem segment_cases (i : ℕ) {seg : Segment} (deferred : List String) (ledger : Bool)
    (hstop : seg.stop ≤ ops.length) :
    (∃ e, atomicSqliteSegment db name ops i seg deferred ledger = ([], .error ⟨false, e⟩)) ∨
    (∃ e, atomicSqliteSegment db name ops i seg deferred ledger =
      (seg.writes ++ (if ledger then [.ledger] else []), .error ⟨true, e⟩)) ∨
    ∃ fks, atomicSqliteSegment db name ops i seg deferred ledger =
      (seg.writes ++ (if ledger then [.ledger] else []), .ok fks) := by
  unfold atomicSqliteSegment
  cases db.try_ (.acquire i) with
  | error e => exact .inl ⟨e, rfl⟩
  | ok _ =>
    cases htx : segmentTx db name ops i seg deferred ledger with
    | error e => exact .inl ⟨e, rfl⟩
    | ok result =>
      obtain ⟨writes, fks⟩ := result
      rw [segmentTx_writes hstop htx]
      cases if seg.rebuilds then db.try_ (.restore i) else .ok () with
      | error e => exact .inr (.inl ⟨e, rfl⟩)
      | ok _ => exact .inr (.inr ⟨fks, rfl⟩)

/-- The result after `applied` committed operations, with or without the ledger row. -/
def Reports (name : String) (total applied : ℕ) (recorded : Prop) (result : Except RunError Unit) :
    Prop :=
  (recorded → result = .ok ()) ∧
  (¬ recorded → applied = 0 → ∃ error, result = .error (.failed error)) ∧
  (¬ recorded → 0 < applied → ∃ ddl source,
    result = .error (.partiallyApplied name applied total ddl source))

variable (name) in
private theorem outcome_reports (failed : SegmentFailed) (last : Bool) (applied ddlApplied total : ℕ) :
    Reports name total applied ((failed.committed && last) = true)
      (failed.outcome name last applied ddlApplied total) := by
  unfold SegmentFailed.outcome
  refine ⟨?_, ?_, ?_⟩
  · intro hrecorded
    exact if_pos hrecorded
  · intro hrecorded hzero
    rw [if_neg hrecorded, if_pos hzero]
    exact ⟨_, rfl⟩
  · intro hrecorded hpos
    rw [if_neg hrecorded, if_neg (Nat.pos_iff_ne_zero.mp hpos)]
    exact ⟨_, _, rfl⟩

@[simp] theorem committedOps_append (log more : List Write) :
    committedOps (log ++ more) = committedOps log + committedOps more := List.countP_append

@[simp] theorem committedOps_writes (seg : Segment) :
    committedOps seg.writes = seg.stop - seg.start := by
  have hall : ∀ w ∈ seg.writes, w.isOp := by
    intro w hw
    obtain ⟨i, -, rfl⟩ := List.mem_map.mp hw
    rfl
  rw [committedOps, List.countP_eq_length.mpr hall, Segment.writes, List.length_map,
    List.length_range']

@[simp] theorem committedOps_ledger : committedOps [.ledger] = 0 := rfl

/-- What the first `k` ranges write, with the ledger row when they are all. -/
def prefixWrites (segs : List Segment) (k : ℕ) : List Write :=
  (segs.take k).flatMap Segment.writes ++ if k = segs.length then [.ledger] else []

/-- The ranges from the `i`-th on: some first ones of them commit, and the result tells how many
operations did. `applied` is the start of the range, since the ranges are consecutive. -/
private theorem runSegments_spec {count i start : ℕ} {segs : List Segment} (ddlApplied : ℕ)
    (deferred : List String) (hcons : Consecutive start segs ops.length)
    (hcount : i + segs.length = count) (hne : segs ≠ []) :
    let ran := runSegments db name ops count segs i deferred start ddlApplied
    ∃ k ≤ segs.length, ran.1 = prefixWrites segs k ∧
      Reports name ops.length (start + committedOps ran.1) (k = segs.length) ran.2 := by
  induction segs generalizing i start ddlApplied deferred with
  | nil => exact absurd rfl hne
  | cons seg segs ih =>
    obtain ⟨rfl, hle, hrest⟩ := hcons
    have hstop : seg.stop ≤ ops.length := consecutive_le hrest
    have hlast : (i + 1 == count) = segs.isEmpty := by
      rw [List.length_cons] at hcount
      rw [Bool.eq_iff_iff, beq_iff_eq, List.isEmpty_iff_length_eq_zero]
      omega
    have hsize : seg.start + (seg.stop - seg.start) = seg.stop := Nat.add_sub_cancel' hle
    dsimp only
    unfold runSegments
    dsimp only
    rw [hlast]
    rcases segment_cases db name i deferred segs.isEmpty hstop with ⟨e, hran⟩ | ⟨e, hran⟩ | ⟨fks, hran⟩
    · rw [hran]
      refine ⟨0, Nat.zero_le _, rfl, ?_⟩
      have hreports := outcome_reports name ⟨false, e⟩ segs.isEmpty seg.start ddlApplied
        ops.length
      simpa [committedOps] using hreports
    · rw [hran]
      have hreports := outcome_reports name ⟨true, e⟩ segs.isEmpty
        (seg.start + (seg.stop - seg.start))
        (ddlApplied + ((ops.drop seg.start).take (seg.stop - seg.start)).countP Operation.isSchema)
        ops.length
      refine ⟨1, by simp, ?_, ?_⟩
      · cases segs with
        | nil => simp [prefixWrites]
        | cons next segs => simp [prefixWrites]
      · cases segs with
        | nil => simpa using hreports
        | cons next segs => simpa using hreports
    · rw [hran]
      cases segs with
      | nil =>
        refine ⟨1, by simp, ?_, ?_⟩
        · simp [prefixWrites, runSegments]
        · simp [Reports, runSegments]
      | cons next segs =>
        have hcount' : i + 1 + (next :: segs).length = count := by
          simp only [List.length_cons] at hcount ⊢
          omega
        obtain ⟨k, hk, hlog, hreports⟩ := ih
          (ddlApplied + ((ops.drop seg.start).take (seg.stop - seg.start)).countP Operation.isSchema)
          fks hrest hcount' (List.cons_ne_nil _ _)
        refine ⟨k + 1, by simpa using hk, ?_, ?_⟩
        · rw [hsize]
          simp only [hlog]
          simp [prefixWrites]
        · rw [hsize]
          simp only [List.isEmpty_cons, Bool.false_eq_true, if_false, List.append_nil,
            committedOps_append, committedOps_writes, ← Nat.add_assoc, hsize]
          simpa using hreports

private theorem ledger_mem_prefixWrites {segs : List Segment} {k : ℕ} :
    .ledger ∈ prefixWrites segs k ↔ k = segs.length := by
  unfold prefixWrites
  split
  · rename_i hall
    simp [hall]
  · rename_i hall
    simp [hall, Segment.writes]

private theorem consecutive_append {segs more : List Segment} {a b : ℕ} :
    Consecutive a (segs ++ more) b ↔ ∃ c, Consecutive a segs c ∧ Consecutive c more b := by
  induction segs generalizing a with
  | nil => simp [Consecutive]
  | cons seg segs ih => simp [Consecutive, ih, and_assoc]

private theorem mem_writes {segs : List Segment} {a b i : ℕ} (h : Consecutive a segs b) :
    .op i ∈ segs.flatMap Segment.writes ↔ a ≤ i ∧ i < b := by
  induction segs generalizing a with
  | nil =>
    obtain rfl : a = b := h
    simp only [List.flatMap_nil, List.not_mem_nil, false_iff]
    omega
  | cons seg segs ih =>
    obtain ⟨rfl, hle, hrest⟩ := h
    have hb := consecutive_le hrest
    rw [List.flatMap_cons, List.mem_append, ih hrest]
    simp only [Segment.writes, List.mem_map, List.mem_range'_1, Write.op.injEq, exists_eq_right]
    omega

private theorem ops_mem_prefixWrites {segs : List Segment} {k : ℕ} (hcons : Consecutive 0 segs ops.length)
    (hsize : ∀ seg ∈ segs, seg.start < seg.stop) (hk : k ≤ segs.length) :
    (∀ i < ops.length, .op i ∈ prefixWrites segs k) ↔ k = segs.length := by
  constructor
  · intro hall
    by_contra hlt
    rw [prefixWrites, if_neg hlt, List.append_nil] at hall
    obtain ⟨c, htake, hdrop⟩ := consecutive_append.mp ((List.take_append_drop k segs).symm ▸ hcons)
    have hc : c < ops.length := by
      cases hrest : segs.drop k with
      | nil => exact absurd (Nat.le_antisymm hk (List.drop_eq_nil_iff.mp hrest)) hlt
      | cons seg rest =>
        rw [hrest] at hdrop
        have hseg : seg ∈ segs := List.mem_of_mem_drop (hrest ▸ List.mem_cons_self)
        have hpos := hsize seg hseg
        have hend := consecutive_le hdrop.2.2
        have hstart := hdrop.1
        omega
    have hmem := (mem_writes htake).mp (hall c hc)
    omega
  · rintro rfl i hi
    rw [prefixWrites, List.take_length]
    exact List.mem_append_left _ ((mem_writes hcons).mpr ⟨Nat.zero_le i, hi⟩)

private theorem truthful_of_reports {total : ℕ} {log : List Write} {result : Except RunError Unit}
    (h : Reports name total (committedOps log) (.ledger ∈ log) result) :
    Truthful name total log result := by
  obtain ⟨hrecorded, huntouched, hpartly⟩ := h
  constructor
  case ok_iff =>
    constructor
    · intro hok
      by_contra hnot
      rcases Nat.eq_zero_or_pos (committedOps log) with hzero | hpos
      · obtain ⟨e, he⟩ := huntouched hnot hzero
        cases hok.symm.trans he
      · obtain ⟨ddl, source, he⟩ := hpartly hnot hpos
        cases hok.symm.trans he
    · exact hrecorded
  case partly => exact hpartly
  case untouched => exact huntouched

private theorem truthful_refused {total : ℕ} (e : MigrateError) :
    Truthful name total [] (.error (.failed e)) := by
  apply truthful_of_reports
  refine ⟨?_, ?_, ?_⟩
  · intro hmem
    cases hmem
  · intro _ _
    exact ⟨e, rfl⟩
  · intro _ hpos
    exact absurd hpos (Nat.lt_irrefl 0)

private theorem atomicSqlite_cases : (∃ e, atomicSqlite db name ops = ([], .error (.failed e))) ∨
    ∃ segs, sqliteSegments db.rebuildOf ops = .ok segs ∧
      atomicSqlite db name ops = runSegments db name ops segs.length segs 0 [] 0 0 := by
  unfold atomicSqlite
  split
  · exact .inl ⟨_, rfl⟩
  · split
    · exact .inl ⟨_, rfl⟩
    · rename_i segs hsegs
      exact .inr ⟨segs, hsegs, rfl⟩

end Report

/-- Wherever a run fails, a prefix of its ranges is committed, the ledger row with the last of them,
and the result says so. -/
theorem atomicSqlite_truthful (db : SqliteRun) (name : String) (ops : List Operation) :
    (∀ segs, sqliteSegments db.rebuildOf ops = .ok segs →
      Consecutive 0 segs ops.length ∧ ∀ seg ∈ segs, seg.Sound db.rebuildOf ops) ∧
    ((atomicSqlite db name ops).1 = [] ∨ ∃ segs k, sqliteSegments db.rebuildOf ops = .ok segs ∧
      k ≤ segs.length ∧ (atomicSqlite db name ops).1 = prefixWrites segs k) ∧
    Truthful name ops.length (atomicSqlite db name ops).1 (atomicSqlite db name ops).2 ∧
    (ops ≠ [] → (.ledger ∈ (atomicSqlite db name ops).1 ↔
      ∀ i < ops.length, .op i ∈ (atomicSqlite db name ops).1)) := by
  refine ⟨?_, ?_⟩
  · intro segs hsegs
    obtain ⟨hcons, -, hsound, -⟩ := sqliteSegments_spec hsegs
    exact ⟨hcons, hsound⟩
  · rcases atomicSqlite_cases with ⟨e, hrun⟩ | ⟨segs, hsegs, hrun⟩
    · rw [hrun]
      refine ⟨.inl rfl, truthful_refused e, ?_⟩
      intro hne
      have hpos := List.length_pos_iff.mpr hne
      constructor
      · intro hmem
        cases hmem
      · intro hall
        cases hall 0 hpos
    · obtain ⟨hcons, hne, -, hsize⟩ := sqliteSegments_spec hsegs
      obtain ⟨k, hk, hlog, hreports⟩ := runSegments_spec 0 [] hcons (Nat.zero_add _) hne
      rw [Nat.zero_add] at hreports
      rw [hrun]
      refine ⟨.inr ⟨segs, k, hsegs, hk, hlog⟩, ?_, ?_⟩
      · apply truthful_of_reports
        rw [hlog] at hreports ⊢
        rw [propext ledger_mem_prefixWrites]
        exact hreports
      · intro hops
        rw [hlog, ledger_mem_prefixWrites]
        exact (ops_mem_prefixWrites hcons (hsize (List.length_pos_iff.mpr hops)) hk).symm

/-- A run whose ledger row is refused. -/
private def ledgerRefused : SqliteRun where
  rebuildOf _ _ := .ok false
  exec _ _ := .ok []
  fault
    | .ledger => some (.driver "database is locked")
    | _ => none

/-- A merge file has no operations: all of them are committed, and the ledger row is not. -/
theorem atomicSqlite_noOps : ¬ (.ledger ∈ (atomicSqlite ledgerRefused "0003_merge" []).1 ↔
    ∀ i < ([] : List Operation).length, .op i ∈ (atomicSqlite ledgerRefused "0003_merge" []).1) := by
  decide

end Rustango.Migrate
