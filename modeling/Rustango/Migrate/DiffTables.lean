import Rustango.Migrate.DiffRun

/-!
# Running the table phases of a diff

Tables are created, altered column by column, and dropped; a table that stays goes through every
phase, and each phase leaves it in a stage of its own.
-/

namespace Rustango.Migrate

open Function hiding swap
open Rustango.Keyed Rustango.Slots

/-- The FK of a kept column: the new action when it is another one to the database. -/
def alteredFk (p c : Option RelationSnapshot) : Option ForeignKey :=
  match p, c with
  | some p, some c =>
    if fkIdentity p = fkIdentity c ∧ sameOnDelete p c = false
    then some { p.db with onDelete := effectiveAction c.onDelete } else some p.db
  | p, _ => p.map RelationSnapshot.db

/-- A kept column after the operations that `push_alter_changes` writes for it. -/
def altered (pf cf : FieldSnapshot) : Column :=
  { pf.db with
    ty := cf.ty
    caseInsensitive := ciOf cf.ty cf.caseInsensitive
    maxLength := cf.maxLength
    default := cf.default
    nullable := cf.nullable
    unique := cf.unique
    dbComment := cf.dbComment
    fk := alteredFk pf.fk cf.fk }

section Table
variable {current : SchemaSnapshot} {ts : String → Option Table}
variable {js : String → Option Junction} {is : String → Option IndexSnapshot}
variable {cs : String → Option CheckSnapshot} {xs : String → Option ExclusionSnapshot}
variable {n : String} {tb : Table}

private theorem alterTable_update {f : Table → Option Table} {tb' : Table} (hf : f tb = some tb') :
    Schema.alterTable ⟨update ts n (some tb), js, is, cs, xs⟩ n f =
      some ⟨update ts n (some tb'), js, is, cs, xs⟩ := by
  rw [Schema.alterTable, alter_of_some (update_self ..) hf, update_idem]
  rfl

private theorem alterColumns_update {cols cols' : String → Option Column}
    {f : (String → Option Column) → Option (String → Option Column)} (hf : f cols = some cols') :
    Schema.alterColumns ⟨update ts n (some { tb with columns := cols }), js, is, cs, xs⟩ n f =
      some ⟨update ts n (some { tb with columns := cols' }), js, is, cs, xs⟩ :=
  alterTable_update (by simp [hf])

private theorem alterCompositeFks_update {ks ks' : String → Option CompositeFkSnapshot}
    {f : (String → Option CompositeFkSnapshot) → Option (String → Option CompositeFkSnapshot)}
    (hf : f ks = some ks') :
    Schema.alterCompositeFks ⟨update ts n (some { tb with compositeFks := ks }), js, is, cs, xs⟩ n f =
      some ⟨update ts n (some { tb with compositeFks := ks' }), js, is, cs, xs⟩ :=
  alterTable_update (by simp [hf])

section Column
variable {cols : String → Option Column} {c : String}

/-- The schema with column `n.c` set to `col`. -/
private def withColumn (ts : String → Option Table) (js : String → Option Junction)
    (is : String → Option IndexSnapshot) (cs : String → Option CheckSnapshot)
    (xs : String → Option ExclusionSnapshot) (n : String) (tb : Table)
    (cols : String → Option Column) (c : String) (col : Column) : Schema :=
  ⟨update ts n (some { tb with columns := update cols c (some col) }), js, is, cs, xs⟩

private theorem alterColumn_withColumn (f : Column → Column) (col : Column) :
    (withColumn ts js is cs xs n tb cols c col).alterColumn n c f =
      some (withColumn ts js is cs xs n tb cols c (f col)) := by
  have hcol : alter (update cols c (some col)) c (fun col => some (f col)) =
      some (update (update cols c (some col)) c (some (f col))) :=
    alter_of_some (update_self ..) rfl
  refine alterColumns_update ?_
  rw [hcol, update_idem]

private theorem run_needed {p : Prop} [Decidable p] {op : SchemaChange} {s s' : Schema}
    (hop : p → exec current s op = some s') (hskip : ¬ p → s = s') :
    run (exec current) s (if p then [op] else []) = some s' := by
  by_cases hp : p
  · rw [if_pos hp, run_singleton, hop hp]
  · rw [if_neg hp, run_nil, hskip hp]

variable {pf cf : FieldSnapshot}

/-- `push_alter_changes` writes a type change. -/
private abbrev Typed (pf cf : FieldSnapshot) : Prop :=
  pf.ty ≠ cf.ty ∨ cf.ty = "string" ∧ pf.caseInsensitive ≠ cf.caseInsensitive

/-- A type change writes the new default too. -/
private def retyped (pf cf : FieldSnapshot) (col : Column) : Column :=
  if Typed pf cf then
    { col with ty := cf.ty, default := cf.default,
               caseInsensitive := ciOf cf.ty cf.caseInsensitive } else col

private def resized (cf : FieldSnapshot) (col : Column) : Column :=
  { col with maxLength := cf.maxLength }

private theorem not_typed (h : ¬ Typed pf cf) :
    pf.ty = cf.ty ∧ ciOf cf.ty cf.caseInsensitive = pf.db.caseInsensitive := by
  have hty : pf.ty = cf.ty := by
    by_contra hne
    exact h (Or.inl hne)
  refine ⟨hty, ?_⟩
  by_cases hs : cf.ty = "string"
  · have hci : pf.caseInsensitive = cf.caseInsensitive := by
      by_contra hne
      exact h (Or.inr ⟨hs, hne⟩)
    rw [FieldSnapshot.db, hty, hci]
  · simp [FieldSnapshot.db, ciOf, hty, hs]

private theorem run_resize (col : Column) (hcol : col.maxLength = pf.maxLength) :
    run (exec current) (withColumn ts js is cs xs n tb cols cf.column col)
      (if pf.maxLength ≠ cf.maxLength
        then [.alterColumnMaxLength n cf.column pf.maxLength cf.maxLength] else []) =
      some (withColumn ts js is cs xs n tb cols cf.column (resized cf col)) := by
  refine run_needed (fun _ => alterColumn_withColumn _ _) fun hp => congrArg _ ?_
  rw [not_not.mp hp] at hcol
  simp only [resized, ← hcol]

private theorem run_retype (hcf : current.columnAt n cf.column = some cf) (col : Column) :
    run (exec current) (withColumn ts js is cs xs n tb cols cf.column col)
      (if Typed pf cf then [.alterColumnType n cf.column pf.ty cf.ty] else []) =
      some (withColumn ts js is cs xs n tb cols cf.column (retyped pf cf col)) := by
  refine run_needed (fun hp => ?_) fun hp => ?_
  · simp only [exec, hcf, Option.bind_some, retyped, if_pos hp]
    exact alterColumn_withColumn _ _
  · simp only [retyped, if_neg hp]

private theorem run_stringChanges (hcf : current.columnAt n cf.column = some cf) :
    run (exec current) (withColumn ts js is cs xs n tb cols cf.column pf.db)
      ((if pf.ty ≠ cf.ty ∧ cf.ty ≠ "string" then
          (if pf.maxLength ≠ cf.maxLength
            then [.alterColumnMaxLength n cf.column pf.maxLength cf.maxLength] else []) else []) ++
        (if Typed pf cf then [.alterColumnType n cf.column pf.ty cf.ty] else []) ++
        if pf.ty ≠ cf.ty ∧ cf.ty ≠ "string" then [] else
          if pf.maxLength ≠ cf.maxLength
            then [.alterColumnMaxLength n cf.column pf.maxLength cf.maxLength] else []) =
      some (withColumn ts js is cs xs n tb cols cf.column (resized cf (retyped pf cf pf.db))) := by
  have hlength : (retyped pf cf pf.db).maxLength = pf.maxLength := by
    unfold retyped
    split <;> rfl
  have hcomm : retyped pf cf (resized cf pf.db) = resized cf (retyped pf cf pf.db) := by
    unfold retyped resized
    split <;> rfl
  by_cases hleave : pf.ty ≠ cf.ty ∧ cf.ty ≠ "string"
  · rw [if_pos hleave, if_pos hleave, List.append_nil, ← hcomm]
    exact run_append_of (run_resize _ rfl) (run_retype hcf _)
  · rw [if_neg hleave, if_neg hleave, List.nil_append]
    exact run_append_of (run_retype hcf _) (run_resize _ hlength)

/-- The column with the new type, length and default. -/
private def redefined (pf cf : FieldSnapshot) : Column :=
  { pf.db with
    ty := cf.ty
    caseInsensitive := ciOf cf.ty cf.caseInsensitive
    maxLength := cf.maxLength
    default := cf.default }

private theorem run_defaultChange :
    run (exec current)
      (withColumn ts js is cs xs n tb cols cf.column (resized cf (retyped pf cf pf.db)))
      (if pf.default ≠ cf.default ∧ pf.ty = cf.ty
        then [.alterColumnDefault n cf.column pf.default cf.default] else []) =
      some (withColumn ts js is cs xs n tb cols cf.column (redefined pf cf)) := by
  have htarget : redefined pf cf =
      { resized cf (retyped pf cf pf.db) with default := cf.default } := by
    by_cases ht : Typed pf cf
    · simp only [retyped, if_pos ht, resized, redefined]
    · obtain ⟨hty, hci⟩ := not_typed ht
      simp only [retyped, if_neg ht, resized, redefined]
      rw [hci, ← hty]
      rfl
  rw [htarget]
  refine run_needed (fun _ => alterColumn_withColumn _ _) fun hp => congrArg _ ?_
  by_cases ht : Typed pf cf
  · simp only [retyped, if_pos ht, resized]
  · have hd : pf.default = cf.default := by
      by_contra hne
      exact hp ⟨hne, (not_typed ht).1⟩
    simp only [retyped, if_neg ht, resized, ← hd]
    rfl

private theorem run_fkChange (col : Column) (hcol : col.fk = pf.fk.map RelationSnapshot.db) :
    run (exec current) (withColumn ts js is cs xs n tb cols cf.column col)
      (match pf.fk, cf.fk with
        | some p, some c =>
          if fkIdentity p = fkIdentity c ∧ sameOnDelete p c = false
          then [.alterFkOnDelete n cf.column p.onDelete c.onDelete] else []
        | _, _ => []) =
      some (withColumn ts js is cs xs n tb cols cf.column
        { col with fk := alteredFk pf.fk cf.fk }) := by
  have hsame : ∀ k, k = col.fk → withColumn ts js is cs xs n tb cols cf.column col =
      withColumn ts js is cs xs n tb cols cf.column { col with fk := k } := by
    intro k hk
    rw [hk]
  cases hp : pf.fk with
  | none => exact congrArg some (hsame _ (by rw [hcol, hp]; rfl))
  | some p =>
    cases hc : cf.fk with
    | none => exact congrArg some (hsame _ (by rw [hcol, hp]; rfl))
    | some c =>
      refine run_needed (fun hcond => ?_) fun hcond => hsame _ ?_
      · have halter : alter (update cols cf.column (some col)) cf.column (fun col => col.fk.map fun k =>
            { col with fk := some { k with onDelete := effectiveAction c.onDelete } }) =
            some (update (update cols cf.column (some col)) cf.column
              (some { col with fk := alteredFk (some p) (some c) })) :=
          alter_of_some (update_self ..) (by simp [hcol, hp, alteredFk, hcond])
        rw [update_idem] at halter
        simp only [exec]
        exact alterColumns_update halter
      · rw [hcol, hp]
        simp [alteredFk, hcond]

private theorem run_pushAlterChanges (hcf : current.columnAt n cf.column = some cf)
    (hcols : cols cf.column = some pf.db) :
    run (exec current) ⟨update ts n (some { tb with columns := cols }), js, is, cs, xs⟩
      (pushAlterChanges n pf cf) =
      some ⟨update ts n (some { tb with columns := update cols cf.column (some (altered pf cf)) }),
        js, is, cs, xs⟩ := by
  have hst : (⟨update ts n (some { tb with columns := cols }), js, is, cs, xs⟩ : Schema) =
      withColumn ts js is cs xs n tb cols cf.column pf.db := by
    simp only [withColumn, ← hcols, update_eq_self]
  let nulled : Column := { redefined pf cf with nullable := cf.nullable }
  let uniqued : Column := { nulled with unique := cf.unique }
  let commented : Column := { uniqued with dbComment := cf.dbComment }
  have hnull : run (exec current) (withColumn ts js is cs xs n tb cols cf.column (redefined pf cf))
      (if pf.nullable ≠ cf.nullable then [.alterColumnNullable n cf.column cf.nullable] else []) =
      some (withColumn ts js is cs xs n tb cols cf.column nulled) := by
    refine run_needed (fun _ => alterColumn_withColumn _ _) fun hp => congrArg _ ?_
    simp only [nulled, redefined, ← not_not.mp hp]
    rfl
  have hunique : run (exec current) (withColumn ts js is cs xs n tb cols cf.column nulled)
      (if pf.unique ≠ cf.unique then [.alterColumnUnique n cf.column cf.unique] else []) =
      some (withColumn ts js is cs xs n tb cols cf.column uniqued) := by
    refine run_needed (fun _ => alterColumn_withColumn _ _) fun hp => congrArg _ ?_
    simp only [uniqued, nulled, redefined, ← not_not.mp hp]
    rfl
  have hcomment : run (exec current) (withColumn ts js is cs xs n tb cols cf.column uniqued)
      (if pf.dbComment ≠ cf.dbComment
        then [.alterColumnComment n cf.column pf.dbComment cf.dbComment] else []) =
      some (withColumn ts js is cs xs n tb cols cf.column commented) := by
    refine run_needed (fun _ => alterColumn_withColumn _ _) fun hp => congrArg _ ?_
    simp only [commented, uniqued, nulled, redefined, ← not_not.mp hp]
    rfl
  rw [hst]
  exact run_append_of (run_append_of (run_append_of (run_append_of (run_append_of
    (run_stringChanges hcf) run_defaultChange) hnull) hunique) hcomment)
    (run_fkChange commented rfl)

end Column

end Table

section Stages
variable {prev current : SchemaSnapshot}

/-- The tables when those that stay are as `both` says, those that go as `gone` says, and those
that come as `new` says. -/
def staged (prev current : SchemaSnapshot) (both : TableSnapshot → TableSnapshot → Table)
    (gone new : TableSnapshot → Option Table) (n : String) : Option Table :=
  (prev.table n).elim ((current.table n).bind new) fun pt =>
    (current.table n).elim (gone pt) fun ct => some (both pt ct)

variable {both both' : TableSnapshot → TableSnapshot → Table} {gone new : TableSnapshot → Option Table}

theorem staged_kept {n : String} {pt ct : TableSnapshot} (hp : prev.table n = some pt)
    (hc : current.table n = some ct) : staged prev current both gone new n = some (both pt ct) := by
  simp [staged, hp, hc]

private theorem staged_gone {n : String} {pt : TableSnapshot} (hp : prev.table n = some pt)
    (hc : current.table n = none) : staged prev current both gone new n = gone pt := by
  simp [staged, hp, hc]

private theorem staged_new {n : String} (hp : prev.table n = none) :
    staged prev current both gone new n = (current.table n).bind new := by
  simp [staged, hp]

variable {step : TableSnapshot → TableSnapshot → List SchemaChange}
variable {js : String → Option Junction} {is : String → Option IndexSnapshot}
variable {cs : String → Option CheckSnapshot} {xs : String → Option ExclusionSnapshot}

section Kept
variable (h : ∀ n pt ct ts, prev.table n = some pt → current.table n = some ct →
  ts n = some (both pt ct) → run (exec current) ⟨ts, js, is, cs, xs⟩ (step pt ct) =
    some ⟨update ts n (some (both' pt ct)), js, is, cs, xs⟩)
include h

private theorem run_onKept (hp : prev.UniqueKeys) :
    run (exec current) ⟨staged prev current both gone new, js, is, cs, xs⟩
      (onKept prev current step) =
      some ⟨staged prev current both' gone new, js, is, cs, xs⟩ := by
  have hrun := run_phase (exec current) (fun ts => (⟨ts, js, is, cs, xs⟩ : Schema))
    TableSnapshot.name (fun pt => staged prev current both' gone new pt.name)
    (fun pt => (current.table pt.name).elim [] fun ct => step pt ct) prev.tables hp.tables
    (staged prev current both gone new) fun ts pt hpt hts => by
      have hpn := hp.table_of_mem hpt
      cases hcn : current.table pt.name with
      | none =>
        rw [staged_gone hpn hcn] at hts ⊢
        rw [Option.elim_none, run_nil, ← hts, update_eq_self]
      | some ct =>
        rw [staged_kept hpn hcn] at hts ⊢
        exact h pt.name pt ct ts hpn hcn hts
  refine hrun.trans ?_
  congr 2
  funext n
  rw [show lookup TableSnapshot.name prev.tables n = prev.table n from rfl]
  cases hn : prev.table n with
  | none => simp [staged, hn]
  | some pt => simp [SchemaSnapshot.table_name hn]

private theorem run_onKeptNow (hc : current.UniqueKeys) :
    run (exec current) ⟨staged prev current both gone new, js, is, cs, xs⟩
      (onKeptNow prev current step) =
      some ⟨staged prev current both' gone new, js, is, cs, xs⟩ := by
  have hrun := run_phase (exec current) (fun ts => (⟨ts, js, is, cs, xs⟩ : Schema))
    TableSnapshot.name (fun ct => staged prev current both' gone new ct.name)
    (fun ct => (prev.table ct.name).elim [] fun pt => step pt ct) current.tables hc.tables
    (staged prev current both gone new) fun ts ct hct hts => by
      have hcn := hc.table_of_mem hct
      cases hpn : prev.table ct.name with
      | none =>
        rw [staged_new hpn] at hts ⊢
        rw [Option.elim_none, run_nil, ← hts, update_eq_self]
      | some pt =>
        rw [staged_kept hpn hcn] at hts ⊢
        exact h ct.name pt ct ts hpn hcn hts
  refine hrun.trans ?_
  congr 2
  funext n
  rw [show lookup TableSnapshot.name current.tables n = current.table n from rfl]
  cases hn : current.table n with
  | none => simp [staged, hn]
  | some ct => simp [SchemaSnapshot.table_name hn]

end Kept

/-- The composite FKs of a kept table after the drop phase. -/
def withKeptFks (pt ct : TableSnapshot) : Table :=
  { pt.db with compositeFks := kept pt.compositeFk ct.compositeFk }

def columnsAdded (pt ct : TableSnapshot) (c : String) : Option Column :=
  ((pt.field c).map FieldSnapshot.db).or ((ct.field c).map FieldSnapshot.db)

def withAdded (pt ct : TableSnapshot) : Table :=
  { withKeptFks pt ct with columns := columnsAdded pt ct }

def columnsAltered (pt ct : TableSnapshot) (c : String) : Option Column :=
  match pt.field c, ct.field c with
  | some pf, some cf => some (altered pf cf)
  | some pf, none => some pf.db
  | none, cf => cf.map FieldSnapshot.db

def withAltered (pt ct : TableSnapshot) : Table :=
  { withKeptFks pt ct with columns := columnsAltered pt ct }

def withComment (pt ct : TableSnapshot) : Table :=
  { withAltered pt ct with comment := ct.dbTableComment }

def columnsNow (pt ct : TableSnapshot) (c : String) : Option Column :=
  (ct.field c).map fun cf => (pt.field c).elim cf.db (altered · cf)

def withColumns (pt ct : TableSnapshot) : Table :=
  { withComment pt ct with columns := columnsNow pt ct }

private theorem self_columns {ts : String → Option Table} {n : String} {tb : Table}
    (h : ts n = some tb) : (⟨ts, js, is, cs, xs⟩ : Schema) =
      ⟨update ts n (some { tb with columns := tb.columns }), js, is, cs, xs⟩ := by
  rw [← h, update_eq_self]

private theorem self_compositeFks {ts : String → Option Table} {n : String} {tb : Table}
    (h : ts n = some tb) : (⟨ts, js, is, cs, xs⟩ : Schema) =
      ⟨update ts n (some { tb with compositeFks := tb.compositeFks }), js, is, cs, xs⟩ := by
  rw [← h, update_eq_self]

theorem run_dropCompositeFks (hp : prev.UniqueKeys) :
    run (exec current) ⟨staged prev current (fun pt _ => pt.db) gone new, js, is, cs, xs⟩
      (dropCompositeFks prev current) =
      some ⟨staged prev current withKeptFks gone new, js, is, cs, xs⟩ := by
  refine run_onKept (fun n pt ct ts hpn hcn hts => ?_) hp
  obtain rfl := SchemaSnapshot.table_name hpn
  rw [self_compositeFks hts]
  refine run_drops (fun ks =>
    (⟨update ts pt.name (some { pt.db with compositeFks := ks }), js, is, cs, xs⟩ : Schema))
    CompositeFkSnapshot.name (hp.compositeFks pt (SchemaSnapshot.mem_of_table hpn)) _
    fun ks k _ hk => ?_
  simp only [exec]
  apply alterCompositeFks_update
  exact drop_of_some hk

theorem run_newColumns (hc : current.UniqueKeys) :
    run (exec current) ⟨staged prev current withKeptFks gone new, js, is, cs, xs⟩
      (newColumns prev current) =
      some ⟨staged prev current withAdded gone new, js, is, cs, xs⟩ := by
  refine run_onKeptNow (fun n pt ct ts hpn hcn hts => ?_) hc
  obtain rfl := SchemaSnapshot.table_name hcn
  have hfields := hc.fields ct (SchemaSnapshot.mem_of_table hcn)
  rw [self_columns hts]
  have h := run_phase (exec current) (fun cols =>
    (⟨update ts ct.name (some { withKeptFks pt ct with columns := cols }), js, is, cs, xs⟩ : Schema))
    FieldSnapshot.column (fun f => columnsAdded pt ct f.column)
    (fun f => if (pt.field f.column).isNone then [.addColumn ct.name f.column] else [])
    ct.fields hfields (withKeptFks pt ct).columns fun cols f hf hcols => by
      have hcf : ct.field f.column = some f := lookup_of_mem _ hfields hf
      change cols f.column = (pt.field f.column).map FieldSnapshot.db at hcols
      cases hpf : pt.field f.column with
      | some pf =>
        rw [hpf] at hcols
        simp only [Option.isNone_some, Bool.false_eq_true, if_false, run_nil, columnsAdded, hpf,
          Option.map_some, Option.some_or]
        rw [show some pf.db = cols f.column from hcols.symm, update_eq_self]
      | none =>
        rw [hpf] at hcols
        have hat : current.columnAt ct.name f.column = some f :=
          SchemaSnapshot.columnAt_eq_some.mpr ⟨ct, hcn, hcf⟩
        simp only [Option.isNone_none, if_true, run_singleton, exec, hat, Option.bind_some,
          columnsAdded, hpf, hcf, Option.map_none, Option.none_or, Option.map_some]
        exact alterColumns_update (create_of_none hcols _)
  refine h.trans ?_
  congr 4
  refine Table.ext rfl (funext fun c => ?_) rfl
  change (ct.field c).elim (pt.db.columns c) (columnsAdded pt ct ·.column) = columnsAdded pt ct c
  cases hcf : ct.field c with
  | none => simp [columnsAdded, hcf]
  | some f => simp [TableSnapshot.field_column hcf]

theorem run_alteredColumns (hc : current.UniqueKeys) :
    run (exec current) ⟨staged prev current withAdded gone new, js, is, cs, xs⟩
      (alteredColumns prev current) =
      some ⟨staged prev current withAltered gone new, js, is, cs, xs⟩ := by
  refine run_onKeptNow (fun n pt ct ts hpn hcn hts => ?_) hc
  obtain rfl := SchemaSnapshot.table_name hcn
  have hfields := hc.fields ct (SchemaSnapshot.mem_of_table hcn)
  rw [self_columns hts]
  have h := run_phase (exec current) (fun cols =>
    (⟨update ts ct.name (some { withAdded pt ct with columns := cols }), js, is, cs, xs⟩ : Schema))
    FieldSnapshot.column (fun f => columnsAltered pt ct f.column)
    (fun cf => (pt.field cf.column).elim [] fun pf => pushAlterChanges ct.name pf cf)
    ct.fields hfields (withAdded pt ct).columns fun cols cf hf hcols => by
      have hcf : ct.field cf.column = some cf := lookup_of_mem _ hfields hf
      change cols cf.column = columnsAdded pt ct cf.column at hcols
      cases hpf : pt.field cf.column with
      | some pf =>
        have hat : current.columnAt ct.name cf.column = some cf :=
          SchemaSnapshot.columnAt_eq_some.mpr ⟨ct, hcn, hcf⟩
        simp only [columnsAdded, hpf, Option.map_some, Option.some_or] at hcols
        simp only [columnsAltered, hpf, hcf, Option.elim_some]
        exact run_pushAlterChanges hat hcols
      | none =>
        simp only [columnsAdded, hpf, hcf, Option.map_none, Option.none_or, Option.map_some] at hcols
        simp only [columnsAltered, hpf, hcf, Option.elim_none, run_nil, Option.map_some]
        rw [← hcols, update_eq_self]
  refine h.trans ?_
  congr 4
  refine Table.ext rfl (funext fun c => ?_) rfl
  change (ct.field c).elim (columnsAdded pt ct c) (columnsAltered pt ct ·.column) =
    columnsAltered pt ct c
  cases hcf : ct.field c with
  | none => cases hpf : pt.field c <;> simp [columnsAdded, columnsAltered, hcf, hpf]
  | some f => simp [TableSnapshot.field_column hcf]

theorem run_alteredComments (hc : current.UniqueKeys) :
    run (exec current) ⟨staged prev current withAltered gone new, js, is, cs, xs⟩
      (alteredComments prev current) =
      some ⟨staged prev current withComment gone new, js, is, cs, xs⟩ := by
  refine run_onKeptNow (fun n pt ct ts hpn hcn hts => ?_) hc
  obtain rfl := SchemaSnapshot.table_name hcn
  have hself : ts = update ts ct.name (some (withAltered pt ct)) := by rw [← hts, update_eq_self]
  rw [hself, update_idem]
  by_cases hcomment : pt.dbTableComment ≠ ct.dbTableComment
  · rw [if_pos hcomment, run_singleton]
    exact alterTable_update rfl
  · rw [if_neg hcomment, run_nil]
    have hsame : withComment pt ct = withAltered pt ct := by
      rw [withComment, ← not_not.mp hcomment]
      rfl
    rw [hsame]

theorem run_droppedColumns (hp : prev.UniqueKeys) :
    run (exec current) ⟨staged prev current withComment gone new, js, is, cs, xs⟩
      (droppedColumns prev current) =
      some ⟨staged prev current withColumns gone new, js, is, cs, xs⟩ := by
  refine run_onKept (fun n pt ct ts hpn hcn hts => ?_) hp
  obtain rfl := SchemaSnapshot.table_name hpn
  have hfields := hp.fields pt (SchemaSnapshot.mem_of_table hpn)
  rw [self_columns hts]
  have h := run_phase (exec current) (fun cols =>
    (⟨update ts pt.name (some { withComment pt ct with columns := cols }), js, is, cs, xs⟩ : Schema))
    FieldSnapshot.column (fun f => columnsNow pt ct f.column)
    (fun f => if (ct.field f.column).isNone then [.dropColumn pt.name f.column] else [])
    pt.fields hfields (withComment pt ct).columns fun cols pf hf hcols => by
      have hpf : pt.field pf.column = some pf := lookup_of_mem _ hfields hf
      change cols pf.column = columnsAltered pt ct pf.column at hcols
      cases hcf : ct.field pf.column with
      | some cf =>
        simp only [columnsAltered, hpf, hcf] at hcols
        simp only [columnsNow, hpf, hcf, Option.isNone_some, Bool.false_eq_true, if_false, run_nil,
          Option.map_some, Option.elim_some]
        rw [← hcols, update_eq_self]
      | none =>
        simp only [columnsAltered, hpf, hcf] at hcols
        simp only [columnsNow, hcf, Option.isNone_none, if_true, run_singleton, Option.map_none]
        simp only [exec]
        apply alterColumns_update
        exact drop_of_some hcols
  refine h.trans ?_
  congr 4
  refine Table.ext rfl (funext fun c => ?_) rfl
  change (pt.field c).elim (columnsAltered pt ct c) (columnsNow pt ct ·.column) = columnsNow pt ct c
  cases hpf : pt.field c with
  | none => cases hcf : ct.field c <;> simp [columnsAltered, columnsNow, hcf, hpf]
  | some f => simp [TableSnapshot.field_column hpf]

theorem run_newTables (hc : current.UniqueKeys) :
    run (exec current) ⟨staged prev current both gone fun _ => none, js, is, cs, xs⟩
      (newTables prev current) =
      some ⟨staged prev current both gone fun ct => some ct.db, js, is, cs, xs⟩ := by
  have h := run_phase (exec current) (fun ts => (⟨ts, js, is, cs, xs⟩ : Schema))
    TableSnapshot.name (fun ct => staged prev current both gone (fun ct => some ct.db) ct.name)
    (fun t => if (prev.table t.name).isNone then [.createTable t.name] else []) current.tables
    hc.tables (staged prev current both gone fun _ => none) fun ts ct hct hts => by
      have hcn := hc.table_of_mem hct
      cases hpn : prev.table ct.name with
      | none =>
        rw [staged_new hpn, hcn, Option.bind_some] at hts
        rw [staged_new hpn, hcn, Option.bind_some]
        simp [run_singleton, exec, hcn, create_of_none hts]
      | some pt =>
        rw [staged_kept hpn hcn] at hts ⊢
        simp only [Option.isNone_some, Bool.false_eq_true, if_false, run_nil]
        rw [← hts, update_eq_self]
  refine h.trans ?_
  congr 2
  funext n
  change (current.table n).elim _ _ = _
  cases hn : current.table n with
  | none => simp [staged, hn]
  | some ct => simp [SchemaSnapshot.table_name hn]

/-- Whatever the references, every table of the list is dropped once. -/
theorem childFirst_perm (fuel : Nat) (left : List TableSnapshot) (hlen : left.length = fuel) :
    (childFirst fuel left).Perm left := by
  induction fuel generalizing left with
  | zero => rw [List.length_eq_zero_iff.mp hlen, childFirst]
  | succ fuel ih =>
    rw [childFirst]
    generalize hi : (left.findIdx? fun t => !left.any fun o => references o t.name).getD 0 = i
    have hlt : i < left.length := by
      subst hi
      cases hf : left.findIdx? fun t => !left.any fun o => references o t.name with
      | none => simp [hlen]
      | some j =>
        obtain ⟨hj, -⟩ := List.findIdx?_eq_some_iff_getElem.mp hf
        exact hj
    have hrest : (left.eraseIdx i).length = fuel := by
      rw [List.length_eraseIdx_of_lt hlt]
      omega
    simp only [List.getElem?_eq_getElem hlt]
    exact ((ih _ hrest).cons _).trans (List.getElem_cons_eraseIdx_perm hlt)

theorem run_droppedTables (hp : prev.UniqueKeys) :
    run (exec current) ⟨staged prev current both (fun pt => some pt.db) new, js, is, cs, xs⟩
      (droppedTables prev current) =
      some ⟨staged prev current both (fun _ => none) new, js, is, cs, xs⟩ := by
  let left := prev.tables.filter fun t => (current.table t.name).isNone
  have hperm : (childFirst left.length left).Perm left := childFirst_perm _ left rfl
  have hleft : (left.map (·.name)).Nodup := hp.tables.sublist (List.filter_sublist.map _)
  have hnodup := (hperm.map (·.name)).nodup_iff.mpr hleft
  have hops : droppedTables prev current =
      (childFirst left.length left).flatMap fun t => [.dropTable t.name] := by
    rw [droppedTables, droppedTablesChildFirst, List.map_map, List.map_eq_flatMap]
    rfl
  have h := run_phase (exec current) (fun ts => (⟨ts, js, is, cs, xs⟩ : Schema))
    TableSnapshot.name (fun _ => none) (fun t => [.dropTable t.name]) _ hnodup
    (staged prev current both (fun pt => some pt.db) new) fun ts t ht hts => by
      obtain ⟨hmem, hgone⟩ := List.mem_filter.mp (hperm.mem_iff.mp ht)
      rw [staged_gone (hp.table_of_mem hmem) (Option.isNone_iff_eq_none.mp hgone)] at hts
      simp [run_singleton, exec, drop_of_some hts]
  rw [hops]
  refine h.trans ?_
  congr 2
  funext n
  rw [lookup_perm _ hperm hnodup]
  cases hn : lookup TableSnapshot.name left n with
  | none =>
    rw [lookup_eq_none] at hn
    cases hpn : prev.table n with
    | none => simp [staged, hpn]
    | some pt =>
      cases hcn : current.table n with
      | some ct => simp [staged, hpn, hcn]
      | none =>
        have hname := SchemaSnapshot.table_name hpn
        have hmem : pt ∈ left :=
          List.mem_filter.mpr ⟨SchemaSnapshot.mem_of_table hpn, by simp [hname, hcn]⟩
        exact absurd hname (hn pt hmem)
  | some t =>
    obtain ⟨hmem, hgone⟩ := List.mem_filter.mp (mem_of_lookup _ hn)
    have hname := lookup_key _ hn
    have hpn := hp.table_of_mem hmem
    rw [hname] at hpn hgone
    simp [staged, hpn, Option.isNone_iff_eq_none.mp hgone]

-- The tables keep their columns from here on, so whatever a composite FK names stays there.

/-- The tables `ts` with the composite FKs `ks`. -/
def withFks (ts : String → Option Table) (ks : String → String → Option CompositeFkSnapshot)
    (n : String) : Option Table := (ts n).map fun tb => { tb with compositeFks := ks n }

private theorem update_withFks {ts : String → Option Table}
    {ks : String → String → Option CompositeFkSnapshot} {n : String} {tb : Table}
    (htb : ts n = some tb) (k : String → Option CompositeFkSnapshot) :
    update (withFks ts ks) n (some { tb with compositeFks := k }) = withFks ts (update ks n k) := by
  funext m
  by_cases hm : m = n
  · subst hm
    simp [withFks, htb]
  · simp [withFks, hm]

theorem Resolves.withFks {ts : String → Option Table} (h : Resolves current ts)
    (ks : String → String → Option CompositeFkSnapshot) : Resolves current (withFks ts ks) := by
  intro r hr
  have hts := h r hr
  have hcol : ∀ t c, Schema.columnAt { Schema.empty with tables := Migrate.withFks ts ks } t c =
      Schema.columnAt { Schema.empty with tables := ts } t c := by
    intro t c
    simp only [Schema.columnAt, Migrate.withFks]
    cases ts t <;> rfl
  cases r with
  | table t => simpa [Schema.Has, Migrate.withFks] using hts
  | column t c => exact (congrArg Option.isSome (hcol t c)).trans hts
  | key t => exact (congrArg Option.isSome (hcol t _)).trans hts

private theorem exec_addCompositeFk {ts : String → Option Table}
    {ks : String → String → Option CompositeFkSnapshot} {n : String} {tb : Table}
    {k : CompositeFkSnapshot} (hts : Resolves current ts) (htb : ts n = some tb)
    (hrefs : ∀ r ∈ k.refs n, current.Has r) (hk : ks n k.name = none) :
    exec current ⟨withFks ts ks, js, is, cs, xs⟩ (addCompositeFk n k) =
      some ⟨withFks ts (update ks n (update (ks n) k.name (some k))), js, is, cs, xs⟩ := by
  have hall : ∀ r ∈ k.refs n, Schema.Has current ⟨withFks ts ks, js, is, cs, xs⟩ r :=
    fun r hr => (hts.withFks ks).has (hrefs r hr)
  have hself : withFks ts ks = update (withFks ts ks) n (some { tb with compositeFks := ks n }) := by
    rw [update_withFks htb, update_eq_self]
  rw [← update_withFks htb]
  change (if _ then Schema.alterCompositeFks _ _ _ else none) = _
  rw [if_pos hall, hself, alterCompositeFks_update (create_of_none hk k), update_idem]

/-- The composite FKs of the tables of `current`: those of a kept table as `f` says. -/
def fks (prev current : SchemaSnapshot)
    (f : TableSnapshot → TableSnapshot → String → Option CompositeFkSnapshot) (n : String) :
    String → Option CompositeFkSnapshot :=
  (current.table n).elim (fun _ => none) fun ct => (prev.table n).elim ct.compositeFk (f · ct)

section Phases
variable (hc : current.WellFormed) {ts : String → Option Table} (hts : Resolves current ts)
include hc hts

private theorem exec_addCompositeFk_update {ks : String → String → Option CompositeFkSnapshot}
    {ct : TableSnapshot} (hct : ct ∈ current.tables) (g : String → Option CompositeFkSnapshot)
    (k : CompositeFkSnapshot) (hk : k ∈ ct.compositeFks) (hg : g k.name = none) :
    exec current ⟨withFks ts (update ks ct.name g), js, is, cs, xs⟩ (addCompositeFk ct.name k) =
      some ⟨withFks ts (update ks ct.name (update g k.name (some k))), js, is, cs, xs⟩ := by
  have htable : (ts ct.name).isSome := hts (.table ct.name) (by
    simp [SchemaSnapshot.Has, hc.keys.table_of_mem hct])
  obtain ⟨tb, htb⟩ := Option.isSome_iff_exists.mp htable
  rw [exec_addCompositeFk hts htb (hc.closed.compositeFks ct hct k hk) (by simpa using hg),
    update_idem, update_self]

theorem run_newCompositeFks :
    run (exec current) ⟨withFks ts (fks prev current fun pt ct => kept pt.compositeFk ct.compositeFk),
        js, is, cs, xs⟩ (newCompositeFks prev current) =
      some ⟨withFks ts (fks prev current fun pt ct => withNew pt.compositeFk ct.compositeFk),
        js, is, cs, xs⟩ := by
  have h := run_phase (exec current) (fun ks => (⟨withFks ts ks, js, is, cs, xs⟩ : Schema))
    TableSnapshot.name
    (fun ct => fks prev current (fun pt ct => withNew pt.compositeFk ct.compositeFk) ct.name)
    (fun ct => (prev.table ct.name).elim [] fun pt => ct.compositeFks.flatMap fun cf =>
      if (pt.compositeFk cf.name).isNone then [addCompositeFk ct.name cf] else [])
    current.tables hc.keys.tables (fks prev current fun pt ct => kept pt.compositeFk ct.compositeFk)
    fun ks ct hct hks => by
      have hcn := hc.keys.table_of_mem hct
      cases hpn : prev.table ct.name with
      | none =>
        simp only [fks, hcn, hpn, Option.elim_some, Option.elim_none, run_nil] at hks ⊢
        rw [← hks, update_eq_self]
      | some pt =>
        simp only [fks, hcn, hpn, Option.elim_some] at hks ⊢
        have hself : withFks ts ks =
            withFks ts (update ks ct.name (kept pt.compositeFk ct.compositeFk)) := by
          rw [← hks, update_eq_self]
        rw [hself]
        exact run_news_kept
          (fun k => (⟨withFks ts (update ks ct.name k), js, is, cs, xs⟩ : Schema))
          CompositeFkSnapshot.name (hc.keys.compositeFks ct hct)
          fun g k hk hg => exec_addCompositeFk_update hc hts hct g k hk hg
  refine h.trans ?_
  congr 3
  funext n
  change (current.table n).elim _ _ = _
  cases hn : current.table n with
  | none => simp [fks, hn]
  | some ct => simp [SchemaSnapshot.table_name hn]

theorem run_recreateCompositeFks (hp : prev.UniqueKeys) :
    run (exec current) ⟨withFks ts (fks prev current fun pt ct =>
        withNew pt.compositeFk ct.compositeFk), js, is, cs, xs⟩
        (recreateCompositeFks prev current) =
      some ⟨withFks ts (fks prev current fun _ ct => ct.compositeFk), js, is, cs, xs⟩ := by
  have h := run_phase (exec current) (fun ks => (⟨withFks ts ks, js, is, cs, xs⟩ : Schema))
    TableSnapshot.name (fun pt => fks prev current (fun _ ct => ct.compositeFk) pt.name)
    (fun pt => (current.table pt.name).elim [] fun ct => pt.compositeFks.flatMap fun pf =>
      if ct.compositeFk pf.name = some pf then []
      else ((ct.compositeFk pf.name).map (addCompositeFk ct.name)).toList)
    prev.tables hp.tables (fks prev current fun pt ct => withNew pt.compositeFk ct.compositeFk)
    fun ks pt hpt hks => by
      have hpn := hp.table_of_mem hpt
      cases hcn : current.table pt.name with
      | none =>
        simp only [fks, hcn, Option.elim_none, run_nil] at hks ⊢
        rw [← hks, update_eq_self]
      | some ct =>
        have hct := SchemaSnapshot.mem_of_table hcn
        have hname := SchemaSnapshot.table_name hcn
        simp only [fks, hcn, hpn, Option.elim_some] at hks ⊢
        have hself : withFks ts ks =
            withFks ts (update ks ct.name (withNew pt.compositeFk ct.compositeFk)) := by
          rw [← hks, hname, update_eq_self]
        rw [hself, ← hname]
        exact run_recreates_withNew
          (fun k => (⟨withFks ts (update ks ct.name k), js, is, cs, xs⟩ : Schema))
          CompositeFkSnapshot.name (hp.compositeFks pt hpt)
          fun g k hk hg => exec_addCompositeFk_update hc hts hct g k hk hg
  refine h.trans ?_
  congr 3
  funext n
  change (prev.table n).elim _ _ = _
  cases hn : prev.table n with
  | none => cases hcn : current.table n <;> simp [fks, hn, hcn]
  | some pt => simp [SchemaSnapshot.table_name hn]

end Phases

end Stages

end Rustango.Migrate
