import Rustango.Migrate.Merge

/-!
# What `merge_branch` keeps and what it loses

Key by key the merge is the three-way merge of the versions, and it fails exactly on a conflict,
except that the comment of a table both branches hold stays as ours has it.
-/

namespace Rustango.Migrate

open Rustango.Keyed Rustango.ThreeWay

private theorem lookup_was_fields (b : Option TableSnapshot) (c : String) :
    lookup FieldSnapshot.column (b.elim [] (·.fields)) c = b.bind (·.field c) := by
  cases b <;> rfl

private theorem lookup_was_fks (b : Option TableSnapshot) (n : String) :
    lookup CompositeFkSnapshot.name (b.elim [] (·.compositeFks)) n = b.bind (·.compositeFk n) := by
  cases b <;> rfl

section MergeInto
variable (b : Option TableSnapshot) (o u : TableSnapshot)

private theorem was_model : (b.bind fun w => some w.model) = b.map (·.model) := by
  cases b <;> rfl

private theorem mergeModel_conflicts : (mergeModel b o u).2 = [] ↔
    ¬ Conflict (b.bind fun w => some w.model) (some o.model) (some u.model) := by
  rw [was_model, Conflict, mergeModel]
  generalize b.map (·.model) = w
  by_cases h1 : w = some u.model
  · simp [h1]
  · by_cases h2 : w = some o.model
    · by_cases h3 : o.model = u.model <;> simp [h2, h3]
    · by_cases h3 : o.model = u.model
      · simp [h3]
      · simp [h1, h2, h3, Ne.symm h1, Ne.symm h2]

private theorem mergeInto_conflicts : (mergeInto b o u).2 = [] ↔
    (∀ c, ¬ Conflict (b.bind (·.field c)) (o.field c) (u.field c)) ∧
    (∀ n, ¬ Conflict (b.bind (·.compositeFk n)) (o.compositeFk n) (u.compositeFk n)) ∧
    ¬ Conflict (b.bind fun w => some w.model) (some o.model) (some u.model) := by
  unfold mergeInto
  simp only [List.append_eq_nil_iff, List.map_eq_nil_iff, conflicts_mergeKeyed_eq_nil,
    lookup_was_fields, lookup_was_fks, and_assoc]
  rw [mergeModel_conflicts]
  rfl

variable {b o u}

private theorem mergeInto_field (h : (mergeInto b o u).2 = []) (c : String) :
    (mergeInto b o u).1.field c = merged (b.bind (·.field c)) (o.field c) (u.field c) := by
  have hc := ((mergeInto_conflicts b o u).mp h).1 c
  rw [← mergeSlot_of_not_conflict hc, ← lookup_was_fields]
  exact lookup_mergeKeyed o.fields c

private theorem mergeInto_compositeFk (h : (mergeInto b o u).2 = []) (n : String) :
    (mergeInto b o u).1.compositeFk n =
      merged (b.bind (·.compositeFk n)) (o.compositeFk n) (u.compositeFk n) := by
  have hc := ((mergeInto_conflicts b o u).mp h).2.1 n
  rw [← mergeSlot_of_not_conflict hc, ← lookup_was_fks]
  exact lookup_mergeKeyed o.compositeFks n

private theorem mergeInto_model (h : (mergeInto b o u).2 = []) :
    some (mergeInto b o u).1.model =
      merged (b.bind fun w => some w.model) (some o.model) (some u.model) := by
  have hc := ((mergeInto_conflicts b o u).mp h).2.2
  change some (mergeModel b o u).1 = _
  rw [was_model] at hc ⊢
  unfold mergeModel merged
  dsimp only
  unfold Conflict at hc
  generalize b.map (·.model) = w at hc ⊢
  by_cases h1 : w = some u.model
  · simp [h1]
  · by_cases h2 : w = some o.model
    · by_cases h3 : o.model = u.model
      · simp [h2, h3]
      · simp [h2, h3, Ne.symm h3]
    · by_cases h3 : o.model = u.model
      · simp [h1, h3, Ne.symm h1]
      · exact absurd ⟨by simp [Ne.symm h1], by simp [Ne.symm h2], by simp [h3]⟩ hc

@[simp] theorem mergeInto_comment : (mergeInto b o u).1.dbTableComment = o.dbTableComment := rfl

end MergeInto

section Slot
variable {α : Type} [BEq α] [LawfulBEq α] {b o t : Option TableSnapshot}

private theorem tableConflicts_of_attr {attr : TableSnapshot → Option α}
    (hattr : ∀ b o u, Conflict (b.bind attr) (attr o) (attr u) → (mergeInto b o u).2 ≠ [])
    (h : Conflict (b.bind attr) (o.bind attr) (t.bind attr)) : tableConflicts b o t := by
  obtain ⟨htb, hob, hot⟩ := h
  have hne : o ≠ b := by
    rintro rfl
    simp at hob
  cases t with
  | none =>
    refine ⟨?_, ?_, hne⟩
    · cases b with
      | none => simp at htb
      | some b => rfl
    · cases o with
      | none => simp at hot
      | some o => rfl
  | some u =>
    refine ⟨?_, ?_⟩
    · rintro rfl
      simp at htb
    · cases o with
      | none =>
        cases b with
        | none => simp at hob
        | some b => rfl
      | some o => exact hattr b o u ⟨htb, hob, hot⟩

private theorem tableSlot_attr {attr : TableSnapshot → Option α}
    (hattr : ∀ b o u, (mergeInto b o u).2 = [] →
      attr (mergeInto b o u).1 = merged (b.bind attr) (attr o) (attr u))
    (h : ¬ tableConflicts b o t) :
    (tableSlot b o t).bind attr = merged (b.bind attr) (o.bind attr) (t.bind attr) := by
  cases t with
  | none =>
    cases b with
    | none => simp [tableSlot, merged]
    | some b =>
      cases o with
      | none =>
        by_cases hb : attr b = none <;> simp [tableSlot, merged, hb]
      | some o =>
        have ho : o = b := by
          by_contra hne
          exact h ⟨rfl, rfl, by simpa using hne⟩
        subst ho
        by_cases hb : attr o = none <;> simp [tableSlot, merged, hb]
  | some u =>
    by_cases hb : b = some u
    · simp [tableSlot, merged, hb]
    · cases o with
      | none =>
        cases b with
        | none => by_cases hu : attr u = none <;> simp [tableSlot, merged, hu]
        | some b => exact absurd ⟨hb, rfl⟩ h
      | some o =>
        have hm : (mergeInto b o u).2 = [] := by
          by_contra hne
          exact h ⟨hb, hne⟩
        simpa [tableSlot, hb] using hattr b o u hm

private theorem tableSlot_comment (h : ¬ tableConflicts b o t) :
    (tableSlot b o t).bind (fun w => some w.dbTableComment) =
      if o.isSome ∧ t.isSome then o.bind fun w => some w.dbTableComment
      else merged (b.bind fun w => some w.dbTableComment) (o.bind fun w => some w.dbTableComment)
        (t.bind fun w => some w.dbTableComment) := by
  cases t with
  | none =>
    cases b with
    | none => simp [tableSlot, merged]
    | some b =>
      cases o with
      | none => simp [tableSlot, merged]
      | some o =>
        have ho : o = b := by
          by_contra hne
          exact h ⟨rfl, rfl, by simpa using hne⟩
        simp [tableSlot, merged, ho]
  | some u =>
    by_cases hb : b = some u
    · cases o <;> simp [tableSlot, merged, hb]
    · cases o with
      | none =>
        cases b with
        | none => simp [tableSlot, merged]
        | some b => exact absurd ⟨hb, rfl⟩ h
      | some o => simp [tableSlot, hb]

private theorem tableSlot_isSome (h : ¬ tableConflicts b o t) :
    (tableSlot b o t).isSome = merged b.isSome o.isSome t.isSome := by
  cases t with
  | none =>
    cases b with
    | none => simp [tableSlot, merged]
    | some b =>
      cases o with
      | none => simp [tableSlot, merged]
      | some o =>
        have ho : o = b := by
          by_contra hne
          exact h ⟨rfl, rfl, by simpa using hne⟩
        simp [tableSlot, merged, ho]
  | some u =>
    by_cases hb : b = some u
    · cases o <;> simp [tableSlot, merged, hb]
    · cases o with
      | none =>
        cases b with
        | none => simp [tableSlot, merged]
        | some b => exact absurd ⟨hb, rfl⟩ h
      | some o => cases b <;> simp [tableSlot, merged, hb]

end Slot

section Branch
variable {base ours theirs : SchemaSnapshot}

private theorem tableConflicts_iff (k : String) :
    tableConflicts (base.table k) (ours.table k) (theirs.table k) ↔
      DropConflict base ours theirs k ∨
      Conflict (base.modelAt k) (ours.modelAt k) (theirs.modelAt k) ∨
      (∃ c, Conflict (base.columnAt k c) (ours.columnAt k c) (theirs.columnAt k c)) ∨
      ∃ n, Conflict (base.compositeFkAt k n) (ours.compositeFkAt k n)
        (theirs.compositeFkAt k n) := by
  constructor
  · intro h
    unfold DropConflict SchemaSnapshot.modelAt SchemaSnapshot.columnAt SchemaSnapshot.compositeFkAt
      SchemaSnapshot.attrAt
    generalize base.table k = b at h ⊢
    generalize ours.table k = o at h ⊢
    generalize theirs.table k = t at h ⊢
    cases t with
    | none =>
      obtain ⟨hb, ho, hne⟩ := h
      obtain ⟨b, rfl⟩ := Option.isSome_iff_exists.mp hb
      obtain ⟨o, rfl⟩ := Option.isSome_iff_exists.mp ho
      exact Or.inl ⟨b, rfl, Or.inl ⟨rfl, o, rfl, fun he => hne (he ▸ rfl)⟩⟩
    | some u =>
      obtain ⟨hb, h⟩ := h
      cases o with
      | none =>
        obtain ⟨b, rfl⟩ := Option.isSome_iff_exists.mp h
        exact Or.inl ⟨b, rfl, Or.inr ⟨rfl, u, rfl, fun he => hb (he ▸ rfl)⟩⟩
      | some o =>
        replace h : ¬ (mergeInto b o u).2 = [] := h
        rw [mergeInto_conflicts, not_and_or, not_and_or, not_forall, not_forall] at h
        simp only [not_not] at h
        exact Or.inr (by tauto)
  · rintro (⟨b, hb, ⟨ht, o, ho, hne⟩ | ⟨ho, u, hu, hne⟩⟩ | h | ⟨c, h⟩ | ⟨n, h⟩)
    · rw [hb, ht, ho]
      exact ⟨rfl, rfl, by simpa using hne⟩
    · rw [hb, ho, hu]
      exact ⟨by simpa using Ne.symm hne, rfl⟩
    · exact tableConflicts_of_attr
        (fun b o u hc he => ((mergeInto_conflicts b o u).mp he).2.2 hc) h
    · exact tableConflicts_of_attr
        (fun b o u hc he => ((mergeInto_conflicts b o u).mp he).1 c hc) h
    · exact tableConflicts_of_attr
        (fun b o u hc he => ((mergeInto_conflicts b o u).mp he).2.1 n hc) h

private theorem keyedText_eq_nil (kind : String) (l : List String) :
    keyedText kind l = [] ↔ l = [] := List.map_eq_nil_iff

/-- The tables the loops build have unique names, columns and composite FKs. -/
private theorem mergedTables_nodup (hb : base.UniqueKeys) (ho : ours.UniqueKeys)
    (ht : theirs.UniqueKeys) :
    ((mergedTables base ours theirs).1.map TableSnapshot.name).Nodup ∧
    ∀ t ∈ (mergedTables base ours theirs).1, (t.fields.map FieldSnapshot.column).Nodup ∧
      (t.compositeFks.map CompositeFkSnapshot.name).Nodup := by
  have hn : ((mergedTables base ours theirs).1.map TableSnapshot.name).Nodup := by
    have hkept : ∀ (l : List TableSnapshot) (acc : MergeState),
        (acc.1.map TableSnapshot.name).Nodup →
        ((l.foldl (mergeDropped theirs) acc).1.map TableSnapshot.name).Nodup := by
      intro l
      induction l with
      | nil => exact fun acc h => h
      | cons x xs ih => exact fun acc h => ih _ (mergeDropped_nodup acc x h)
    have hall : ∀ (l : List TableSnapshot) (acc : MergeState),
        (acc.1.map TableSnapshot.name).Nodup →
        ((l.foldl (mergeTable base) acc).1.map TableSnapshot.name).Nodup := by
      intro l
      induction l with
      | nil => exact fun acc h => h
      | cons x xs ih => exact fun acc h => ih _ (mergeTable_nodup acc x h)
    exact hall _ _ (hkept _ _ ho.tables)
  refine ⟨hn, fun t htm => ?_⟩
  have hl := lookup_of_mem TableSnapshot.name hn htm
  rw [(mergedTables_run ours hb ht).1 t.name] at hl
  have hours : ∀ o, ours.table t.name = some o → (o.fields.map FieldSnapshot.column).Nodup ∧
      (o.compositeFks.map CompositeFkSnapshot.name).Nodup := fun o h =>
    ⟨ho.fields o (SchemaSnapshot.mem_of_table h), ho.compositeFks o (SchemaSnapshot.mem_of_table h)⟩
  unfold tableSlot at hl
  cases hu : theirs.table t.name with
  | none =>
    rw [hu] at hl
    dsimp only at hl
    split at hl
    · cases hl
    · exact hours t hl
  | some u =>
    rw [hu] at hl
    dsimp only at hl
    split at hl
    · exact hours t hl
    · cases hot : ours.table t.name with
      | none =>
        rw [hot] at hl
        dsimp only at hl
        split at hl
        · cases hl
        · obtain rfl := Option.some.inj hl
          have hm := SchemaSnapshot.mem_of_table hu
          exact ⟨ht.fields u hm, ht.compositeFks u hm⟩
      | some o =>
        rw [hot] at hl
        have he := (Option.some.inj hl).symm
        rw [he]
        exact ⟨nodup_mergeKeyed (hours o hot).1, nodup_mergeKeyed (hours o hot).2⟩

private theorem mergeBranch_ok {m : SchemaSnapshot} (h : mergeBranch ours base theirs = .ok m) :
    m = SchemaSnapshot.sort ⟨(mergedTables base ours theirs).1,
      (mergeKeyed M2MTableSnapshot.through base.m2mTables ours.m2mTables theirs.m2mTables).1,
      (mergeKeyed IndexSnapshot.name base.indexes ours.indexes theirs.indexes).1,
      (mergeKeyed CheckSnapshot.name base.checks ours.checks theirs.checks).1,
      (mergeKeyed ExclusionSnapshot.name base.excludes ours.excludes theirs.excludes).1⟩ := by
  unfold mergeBranch at h
  dsimp only at h
  split at h
  · exact (Except.ok.inj h).symm
  · cases h

/-- `merge_branch` succeeds exactly when nothing but comments conflicts. -/
theorem mergeBranch_ok_iff (hb : base.UniqueKeys) (ht : theirs.UniqueKeys) :
    (∃ m, mergeBranch ours base theirs = .ok m) ↔ ¬ OtherConflict base ours theirs := by
  have hok : (∃ m, mergeBranch ours base theirs = .ok m) ↔
      (mergedTables base ours theirs).2 = [] ∧
      (mergeKeyed M2MTableSnapshot.through base.m2mTables ours.m2mTables theirs.m2mTables).2 = [] ∧
      (mergeKeyed IndexSnapshot.name base.indexes ours.indexes theirs.indexes).2 = [] ∧
      (mergeKeyed CheckSnapshot.name base.checks ours.checks theirs.checks).2 = [] ∧
      (mergeKeyed ExclusionSnapshot.name base.excludes ours.excludes theirs.excludes).2 = [] := by
    unfold mergeBranch
    dsimp only
    split
    · rename_i h
      simpa [keyedText_eq_nil, and_assoc] using h
    · rename_i h
      simpa [keyedText_eq_nil, and_assoc] using h
  rw [hok, (mergedTables_run ours hb ht).2]
  simp only [conflicts_mergeKeyed_eq_nil, tableConflicts_iff, OtherConflict, not_or, not_exists,
    forall_and]
  tauto

variable (hb : base.UniqueKeys) (ho : ours.UniqueKeys) (ht : theirs.UniqueKeys)
include hb ho ht

private theorem merged_uniqueKeys : SchemaSnapshot.UniqueKeys ⟨(mergedTables base ours theirs).1,
      (mergeKeyed M2MTableSnapshot.through base.m2mTables ours.m2mTables theirs.m2mTables).1,
      (mergeKeyed IndexSnapshot.name base.indexes ours.indexes theirs.indexes).1,
      (mergeKeyed CheckSnapshot.name base.checks ours.checks theirs.checks).1,
      (mergeKeyed ExclusionSnapshot.name base.excludes ours.excludes theirs.excludes).1⟩ where
  tables := (mergedTables_nodup hb ho ht).1
  fields t h := ((mergedTables_nodup hb ho ht).2 t h).1
  compositeFks t h := ((mergedTables_nodup hb ho ht).2 t h).2
  m2mTables := nodup_mergeKeyed ho.m2mTables
  indexes := nodup_mergeKeyed ho.indexes
  checks := nodup_mergeKeyed ho.checks
  excludes := nodup_mergeKeyed ho.excludes

theorem mergeBranch_uniqueKeys {m : SchemaSnapshot} (h : mergeBranch ours base theirs = .ok m) :
    m.UniqueKeys := by
  rw [mergeBranch_ok h]
  exact (merged_uniqueKeys hb ho ht).sort

private theorem mergeBranch_table {m : SchemaSnapshot} (h : mergeBranch ours base theirs = .ok m)
    (k : String) : m.table k = (tableSlot (base.table k) (ours.table k) (theirs.table k)).map
      TableSnapshot.sortFields := by
  rw [mergeBranch_ok h, (merged_uniqueKeys hb ho ht).sort_table]
  congr 1
  exact (mergedTables_run ours hb ht).1 k

private theorem mergeBranch_columnAt {m : SchemaSnapshot}
    (h : mergeBranch ours base theirs = .ok m) (k c : String) : m.columnAt k c =
      (tableSlot (base.table k) (ours.table k) (theirs.table k)).bind (·.field c) := by
  have hslot := (mergedTables_run ours hb ht).1 k
  have hm := mergeBranch_table hb ho ht h k
  unfold SchemaSnapshot.columnAt SchemaSnapshot.attrAt
  cases hs : tableSlot (base.table k) (ours.table k) (theirs.table k) with
  | none => rw [hm, hs]; rfl
  | some t =>
    rw [mergeBranch_ok h]
    exact (merged_uniqueKeys hb ho ht).sort_field (hslot.trans hs) c

omit ho in
private theorem no_tableConflicts {m : SchemaSnapshot} (h : mergeBranch ours base theirs = .ok m)
    (k : String) : ¬ tableConflicts (base.table k) (ours.table k) (theirs.table k) := by
  have hc : ¬ OtherConflict base ours theirs := (mergeBranch_ok_iff hb ht).mp ⟨m, h⟩
  intro hk
  rw [tableConflicts_iff] at hk
  unfold OtherConflict at hc
  rcases hk with hk | hk | ⟨c, hk⟩ | ⟨n, hk⟩
  · exact hc (Or.inl ⟨k, hk⟩)
  · exact hc (Or.inr (Or.inl ⟨k, hk⟩))
  · exact hc (Or.inr (Or.inr (Or.inl ⟨k, c, hk⟩)))
  · exact hc (Or.inr (Or.inr (Or.inr (Or.inl ⟨k, n, hk⟩))))

/-- A successful merge loses nothing but comments. -/
theorem mergeBranch_merges {m : SchemaSnapshot} (h : mergeBranch ours base theirs = .ok m) :
    Merges base ours theirs m := by
  have hc : ¬ OtherConflict base ours theirs := (mergeBranch_ok_iff hb ht).mp ⟨m, h⟩
  have hts := no_tableConflicts hb ht h
  have hu := merged_uniqueKeys hb ho ht
  simp only [OtherConflict, not_or, not_exists] at hc
  constructor
  · intro k
    rw [mergeBranch_table hb ho ht h, Option.isSome_map, tableSlot_isSome (hts k)]
  · intro k
    unfold SchemaSnapshot.modelAt SchemaSnapshot.attrAt
    rw [mergeBranch_table hb ho ht h, ← tableSlot_attr (fun b o u hm => mergeInto_model hm) (hts k)]
    cases tableSlot (base.table k) (ours.table k) (theirs.table k) <;> rfl
  · intro k c
    rw [mergeBranch_columnAt hb ho ht h]
    exact tableSlot_attr (fun b o u hm => mergeInto_field hm c) (hts k)
  · intro k n
    unfold SchemaSnapshot.compositeFkAt SchemaSnapshot.attrAt
    rw [mergeBranch_table hb ho ht h,
      ← tableSlot_attr (fun b o u hm => mergeInto_compositeFk hm n) (hts k)]
    cases tableSlot (base.table k) (ours.table k) (theirs.table k) <;> rfl
  · intro n
    rw [mergeBranch_ok h, hu.sort_m2mTable, ← mergeSlot_of_not_conflict (hc.2.2.2.2.1 n)]
    exact lookup_mergeKeyed ours.m2mTables n
  · intro n
    rw [mergeBranch_ok h, hu.sort_index, ← mergeSlot_of_not_conflict (hc.2.2.2.2.2.1 n)]
    exact lookup_mergeKeyed ours.indexes n
  · intro n
    rw [mergeBranch_ok h, hu.sort_check, ← mergeSlot_of_not_conflict (hc.2.2.2.2.2.2.1 n)]
    exact lookup_mergeKeyed ours.checks n
  · intro n
    rw [mergeBranch_ok h, hu.sort_exclude, ← mergeSlot_of_not_conflict (hc.2.2.2.2.2.2.2 n)]
    exact lookup_mergeKeyed ours.excludes n

private theorem mergeBranch_commentAt {m : SchemaSnapshot} (h : mergeBranch ours base theirs = .ok m)
    (k : String) : m.commentAt k =
      if (ours.table k).isSome ∧ (theirs.table k).isSome then ours.commentAt k
      else merged (base.commentAt k) (ours.commentAt k) (theirs.commentAt k) := by
  have hts := no_tableConflicts hb ht h k
  unfold SchemaSnapshot.commentAt SchemaSnapshot.attrAt
  rw [mergeBranch_table hb ho ht h, ← tableSlot_comment hts]
  cases tableSlot (base.table k) (ours.table k) (theirs.table k) <;> rfl

/-- The merge is right exactly when some other object conflicts, so that it is refused anyway, or
no table of both branches has a comment that theirs changed and ours does not already have. -/
theorem mergesCorrectly_iff : MergesCorrectly base ours theirs ↔
    OtherConflict base ours theirs ∨
      ∀ t, (ours.table t).isSome → (theirs.table t).isSome →
        theirs.commentAt t = base.commentAt t ∨ ours.commentAt t = theirs.commentAt t := by
  have hok : (∃ m, mergeBranch ours base theirs = .ok m) ↔ ¬ OtherConflict base ours theirs :=
    mergeBranch_ok_iff hb ht
  by_cases hc : OtherConflict base ours theirs
  · have hno : ¬ ∃ m, mergeBranch ours base theirs = .ok m := fun h => hok.mp h hc
    refine iff_of_true ⟨?_, fun m h => absurd ⟨m, h⟩ hno⟩ (Or.inl hc)
    exact iff_of_false hno fun h => h (Or.inl hc)
  obtain ⟨m, hm⟩ := hok.mpr hc
  have hcomment := mergeBranch_commentAt hb ho ht hm
  rw [or_iff_right hc]
  constructor
  · rintro ⟨hiff, hall⟩ t hot htt
    have hnc := fun h => (hiff.mp ⟨m, hm⟩) (Or.inr ⟨t, h⟩)
    have hmerged := (hall m hm).2 t
    rw [hcomment t, if_pos ⟨hot, htt⟩] at hmerged
    by_cases hb' : theirs.commentAt t = base.commentAt t
    · exact Or.inl hb'
    · rw [merged_of_not_beq (by simpa using hb')] at hmerged
      exact Or.inr hmerged
  · intro hcond
    have hnc : ¬ CommentConflict base ours theirs := by
      rintro ⟨t, htb, hob, hoth⟩
      cases hot : ours.table t with
      | none =>
        have hbt : base.table t ≠ none := by
          intro hbt
          simp [SchemaSnapshot.commentAt, SchemaSnapshot.attrAt, hot, hbt] at hob
        have hut : theirs.table t ≠ none := by
          intro hut
          simp [SchemaSnapshot.commentAt, SchemaSnapshot.attrAt, hot, hut] at hoth
        obtain ⟨b, hbt⟩ := Option.ne_none_iff_exists'.mp hbt
        obtain ⟨u, hut⟩ := Option.ne_none_iff_exists'.mp hut
        refine hc (Or.inl ⟨t, b, hbt, Or.inr ⟨hot, u, hut, ?_⟩⟩)
        rintro rfl
        simp [SchemaSnapshot.commentAt, SchemaSnapshot.attrAt, hbt, hut] at htb
      | some o =>
        cases hut : theirs.table t with
        | none =>
          have hbt : base.table t ≠ none := by
            intro hbt
            simp [SchemaSnapshot.commentAt, SchemaSnapshot.attrAt, hut, hbt] at htb
          obtain ⟨b, hbt⟩ := Option.ne_none_iff_exists'.mp hbt
          refine hc (Or.inl ⟨t, b, hbt, Or.inl ⟨hut, o, hot, ?_⟩⟩)
          rintro rfl
          simp [SchemaSnapshot.commentAt, SchemaSnapshot.attrAt, hbt, hot] at hob
        | some u =>
          rcases hcond t (by simp [hot]) (by simp [hut]) with h | h
          · simp [h] at htb
          · simp [h] at hoth
    refine ⟨iff_of_true ⟨m, hm⟩ (not_or.mpr ⟨hc, hnc⟩), fun m' hm' => ?_⟩
    obtain rfl : m = m' := Except.ok.inj (hm.symm.trans hm')
    refine ⟨mergeBranch_merges hb ho ht hm, fun t => ?_⟩
    rw [hcomment t]
    split
    · rename_i hboth
      rcases hcond t hboth.1 hboth.2 with h | h
      · rw [merged_of_beq (by simp [h])]
      · by_cases hb' : theirs.commentAt t = base.commentAt t
        · rw [merged_of_beq (by simp [hb'])]
        · rw [merged_of_not_beq (by simpa using hb'), h]
    · rfl

end Branch

section CommentLost

private def authors (comment : Option String) : SchemaSnapshot :=
  { SchemaSnapshot.empty with tables := [⟨"author", "Author", [], [], comment⟩] }

theorem mergesCorrectly_iff_authors :
    MergesCorrectly (authors none) (authors (some "people")) (authors none) ↔
      OtherConflict (authors none) (authors (some "people")) (authors none) ∨
        ∀ t, ((authors (some "people")).table t).isSome → ((authors none).table t).isSome →
          (authors none).commentAt t = (authors none).commentAt t ∨
            (authors (some "people")).commentAt t = (authors none).commentAt t :=
  mergesCorrectly_iff (by decide) (by decide) (by decide)

/-- Theirs comments a table that ours left alone: the merge succeeds and the comment is gone. -/
theorem mergeBranch_loses_comment :
    ((authors none).UniqueKeys ∧ (authors (some "people")).UniqueKeys) ∧
      ¬ MergesCorrectly (authors none) (authors none) (authors (some "people")) := by
  refine ⟨by decide, fun h => ?_⟩
  have hm : mergeBranch (authors none) (authors none) (authors (some "people")) =
      .ok (authors none) := by decide
  have hc := (h.2 _ hm).2 "author"
  exact absurd hc (by decide)

end CommentLost

end Rustango.Migrate
