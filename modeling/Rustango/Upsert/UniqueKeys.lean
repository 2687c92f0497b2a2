import Mathlib.Data.List.Nodup
import Mathlib.Data.List.Pairwise
import Mathlib.Data.List.Perm.Subperm

/-!
# Upserts on MySQL

`ON DUPLICATE KEY UPDATE` fires on every unique key of the table. `my_target_is_only_unique_key` is to
accept a conflict target only when a new row can clash on nothing else.
-/

namespace Rustango.Upsert

structure FieldSchema where
  column : String
  primaryKey : Bool
  /-- The column is filled by the server when the insert leaves it out. -/
  auto : Bool
  unique : Bool
deriving DecidableEq, Repr

structure IndexSchema where
  columns : List String
  unique : Bool
deriving DecidableEq, Repr

/-- MySQL takes neither two columns of one name nor a column twice in an index. -/
structure ModelSchema where
  fields : List FieldSchema
  indexes : List IndexSchema
  columns_nodup : (fields.map (·.column)).Nodup
  index_nodup : ∀ i ∈ indexes, i.columns.Nodup

namespace ModelSchema
variable (model : ModelSchema)

def fieldByColumn (column : String) : Option FieldSchema :=
  model.fields.find? fun f => f.column = column

/-- The columns of the primary key. -/
def pk : List String := (model.fields.filter (·.primaryKey)).map (·.column)

/-- Every unique key that the schema declares; MySQL ignores the filter of a partial index. -/
def uniqueKeys : List (List String) :=
  (if model.pk.isEmpty then [] else [model.pk])
    ++ (model.fields.filter (·.unique)).map (fun f => [f.column])
    ++ (model.indexes.filter (·.unique)).map (·.columns)

end ModelSchema

section Check
variable (model : ModelSchema) (callerSet target : List String)

/-- A column of the key holds a generated value. -/
def generated (cols : List String) : Bool :=
  cols.any fun c => (model.fieldByColumn c).any fun f => f.auto && !callerSet.contains c

def fits (cols : List String) : Bool :=
  generated model callerSet cols ||
    (cols.length == target.length && cols.all fun c => target.contains c)

def myTargetIsOnlyUniqueKey : Bool :=
  (model.pk.isEmpty || fits model callerSet target model.pk)
    && (model.fields.filter fun f => f.unique && !f.primaryKey).all (fun f =>
      fits model callerSet target [f.column])
    && (model.indexes.filter (·.unique)).all fun i => fits model callerSet target i.columns

/-- A column of the primary key that is unique by itself is generated or all of the target. -/
def KeyColumnsFit : Prop :=
  ∀ f ∈ model.fields, f.primaryKey = true → f.unique = true →
    generated model callerSet [f.column] = true ∨ ∀ t ∈ target, t = f.column

end Check

/-- The values of columns and how the database compares them; each column can hold two values. -/
structure Values where
  Value : Type
  null : Value
  same : String → Value → Value → Prop
  refl : ∀ c v, same c v v
  symm : ∀ c v w, same c v w → same c w v
  trans : ∀ c u v w, same c u v → same c v w → same c u w
  two : ∀ c, ∃ v w, v ≠ null ∧ w ≠ null ∧ ¬ same c v w

section Rows
variable (d : Values)

abbrev Row := String → d.Value

/-- Two rows hold one value of the key; a key with a NULL is no value. -/
def Clash (cols : List String) (r r' : Row d) : Prop :=
  ∀ c ∈ cols, r c ≠ d.null ∧ r' c ≠ d.null ∧ d.same c (r c) (r' c)

/-- The table keeps the unique keys of its schema. -/
def Satisfies (model : ModelSchema) (rows : List (Row d)) : Prop :=
  rows.Pairwise fun r r' => ∀ key ∈ model.uniqueKeys, ¬ Clash d key r r'

/-- The values that the server generates for the new row are in no row. -/
def Fresh (model : ModelSchema) (callerSet : List String) (rows : List (Row d)) (new : Row d) : Prop :=
  ∀ f ∈ model.fields, f.auto = true → f.column ∉ callerSet →
    ∀ old ∈ rows, ¬ d.same f.column (new f.column) (old f.column)

/-- `ON DUPLICATE KEY UPDATE` may update `old`. -/
def OnDuplicateKey (model : ModelSchema) (rows : List (Row d)) (new old : Row d) : Prop :=
  old ∈ rows ∧ ∃ key ∈ model.uniqueKeys, Clash d key new old

/-- `ON CONFLICT (target) DO UPDATE` updates `old`. -/
def OnConflict (target : List String) (rows : List (Row d)) (new old : Row d) : Prop :=
  old ∈ rows ∧ Clash d target new old

/-- No row but those that the target asks for is updated. -/
def Sound (model : ModelSchema) (callerSet target : List String) : Prop :=
  ∀ rows new, Satisfies d model rows → Fresh d model callerSet rows new →
    ∀ old, OnDuplicateKey d model rows new old → OnConflict d target rows new old

variable {d} {model : ModelSchema} {callerSet target cols : List String} {rows : List (Row d)}
  {new old : Row d}

theorem Clash.of_subset (h : Clash d cols new old) (hsub : target ⊆ cols) : Clash d target new old :=
  fun c hc => h c (hsub hc)

theorem Fresh.not_clash (h : Fresh d model callerSet rows new) (hold : old ∈ rows)
    (hgen : generated model callerSet cols = true) : ¬ Clash d cols new old := by
  intro hclash
  simp only [generated, List.any_eq_true, Option.any_eq_true, Bool.and_eq_true,
    Bool.not_eq_true', List.contains_eq_mem, decide_eq_false_iff_not] at hgen
  obtain ⟨c, hc, f, hf, hauto, hset⟩ := hgen
  have hmem : f ∈ model.fields := List.mem_of_find?_eq_some hf
  have hcolumn : f.column = c := by simpa using List.find?_some hf
  have hnew := h f hmem hauto (hcolumn ▸ hset) old hold
  rw [hcolumn] at hnew
  exact hnew (hclash c hc).2.2

private theorem subset_of_fits (hnodup : cols.Nodup) (hlen : cols.length = target.length)
    (hsub : cols ⊆ target) : target ⊆ cols := by
  have hperm := (hnodup.subperm hsub).perm_of_length_le (Nat.le_of_eq hlen.symm)
  exact hperm.symm.subset

private theorem clash_of_fits (hfresh : Fresh d model callerSet rows new) (hold : old ∈ rows)
    (hnodup : cols.Nodup) (hfits : fits model callerSet target cols = true)
    (hclash : Clash d cols new old) : Clash d target new old := by
  rw [fits, Bool.or_eq_true] at hfits
  rcases hfits with hgen | hcols
  · exact absurd hclash (hfresh.not_clash hold hgen)
  · simp only [Bool.and_eq_true, beq_iff_eq, List.all_eq_true, List.contains_eq_mem,
      decide_eq_true_eq] at hcols
    exact hclash.of_subset (subset_of_fits hnodup hcols.1 hcols.2)

theorem ModelSchema.pk_nodup (model : ModelSchema) : model.pk.Nodup :=
  model.columns_nodup.sublist (List.filter_sublist.map _)

theorem ModelSchema.mem_uniqueKeys {key : List String} : key ∈ model.uniqueKeys ↔
    (model.pk ≠ [] ∧ key = model.pk) ∨ (∃ f ∈ model.fields, f.unique = true ∧ key = [f.column]) ∨
      ∃ i ∈ model.indexes, i.unique = true ∧ key = i.columns := by
  unfold uniqueKeys
  by_cases hpk : model.pk = []
  · simp [hpk, and_assoc, eq_comm (b := key)]
  · simp only [hpk, List.isEmpty_iff, if_false, List.mem_append, List.mem_singleton, List.mem_map,
      List.mem_filter, or_assoc, and_assoc, ne_eq, not_false_eq_true, true_and, eq_comm (b := key)]

private theorem accepts_iff : myTargetIsOnlyUniqueKey model callerSet target = true ↔
    (model.pk = [] ∨ fits model callerSet target model.pk = true) ∧
      (∀ f ∈ model.fields, f.unique = true → f.primaryKey = false →
        fits model callerSet target [f.column] = true) ∧
      ∀ i ∈ model.indexes, i.unique = true → fits model callerSet target i.columns = true := by
  simp only [myTargetIsOnlyUniqueKey, Bool.and_eq_true, Bool.or_eq_true, List.isEmpty_iff,
    List.all_eq_true, List.mem_filter, Bool.not_eq_true', and_imp, and_assoc]

private theorem sound_of_accepts (h : myTargetIsOnlyUniqueKey model callerSet target = true)
    (hkey : KeyColumnsFit model callerSet target) : Sound d model callerSet target := by
  intro rows new _ hfresh old hdup
  obtain ⟨hold, key, hmem, hclash⟩ := hdup
  obtain ⟨hpk, hfields, hindexes⟩ := accepts_iff.mp h
  refine ⟨hold, ?_⟩
  rcases ModelSchema.mem_uniqueKeys.mp hmem with ⟨hsome, rfl⟩ | ⟨f, hf, hunique, rfl⟩ | ⟨i, hi, hunique, rfl⟩
  · exact clash_of_fits hfresh hold model.pk_nodup (hpk.resolve_left hsome) hclash
  · cases hprimary : f.primaryKey with
    | false =>
      exact clash_of_fits hfresh hold (List.nodup_singleton _) (hfields f hf hunique hprimary) hclash
    | true =>
      rcases hkey f hf hprimary hunique with hgen | htarget
      · exact absurd hclash (hfresh.not_clash hold hgen)
      · apply hclash.of_subset
        intro t ht
        rw [htarget t ht]
        exact List.mem_singleton_self _
  · exact clash_of_fits hfresh hold (model.index_nodup i hi) (hindexes i hi hunique) hclash

private theorem not_sound_of_clash {f : FieldSchema} (hf : f ∈ model.fields) (hunique : f.unique = true)
    (hgen : generated model callerSet [f.column] = false) {t : String} (ht : t ∈ target)
    (hne : t ≠ f.column) : ¬ Sound d model callerSet target := by
  intro hsound
  choose v w hv hw hvw using d.two
  let old : Row d := v
  let new : Row d := fun c => if c = f.column then v c else w c
  have hsatisfies : Satisfies d model [old] := List.pairwise_singleton _ _
  have hfresh : Fresh d model callerSet [old] new := by
    intro g hg hauto hset r hr hsame
    rw [List.mem_singleton.mp hr] at hsame
    by_cases hcolumn : g.column = f.column
    · have hfield : model.fieldByColumn f.column = some g := by
        rw [← hcolumn]
        unfold ModelSchema.fieldByColumn
        have hfirst : (model.fields.find? fun h => h.column = g.column).isSome := by
          rw [List.find?_isSome]
          exact ⟨g, hg, by simp⟩
        obtain ⟨h, hh⟩ := Option.isSome_iff_exists.mp hfirst
        have hcol : h.column = g.column := by simpa using List.find?_some hh
        rw [hh, List.inj_on_of_nodup_map model.columns_nodup (List.mem_of_find?_eq_some hh) hg hcol]
      rw [hcolumn] at hset
      simp [generated, hfield, hauto, hset] at hgen
    · simp only [new, if_neg hcolumn] at hsame
      exact hvw g.column (d.symm _ _ _ hsame)
  have hclash : Clash d [f.column] new old := by
    intro c hc
    rw [List.mem_singleton.mp hc]
    simp only [new, if_true]
    exact ⟨hv _, hv _, d.refl _ _⟩
  have hkey : [f.column] ∈ model.uniqueKeys :=
    ModelSchema.mem_uniqueKeys.mpr (Or.inr (Or.inl ⟨f, hf, hunique, rfl⟩))
  have hconflict := hsound [old] new hsatisfies hfresh old ⟨by simp, _, hkey, hclash⟩
  have hsame := (hconflict.2 t ht).2.2
  simp only [new, if_neg hne] at hsame
  exact hvw t (d.symm _ _ _ hsame)

/-- An accepted target is the only one to be updated if and only if no unique column of the primary key
can clash by itself. -/
theorem accepted_target_sound_iff (h : myTargetIsOnlyUniqueKey model callerSet target = true) :
    Sound d model callerSet target ↔ KeyColumnsFit model callerSet target := by
  constructor
  · intro hsound f hf _ hunique
    by_contra hunfit
    rw [not_or, Bool.not_eq_true] at hunfit
    push Not at hunfit
    obtain ⟨hgen, t, ht, hne⟩ := hunfit
    exact not_sound_of_clash hf hunique hgen ht hne hsound
  · exact sound_of_accepts h

theorem OnConflict.unique (hkey : ∃ key ∈ model.uniqueKeys, key ⊆ target)
    (hrows : Satisfies d model rows) {old' : Row d} (h : OnConflict d target rows new old)
    (h' : OnConflict d target rows new old') : old = old' := by
  obtain ⟨key, hmem, hsub⟩ := hkey
  by_contra hne
  have hsymm : Std.Symm fun r r' : Row d => ∀ key ∈ model.uniqueKeys, ¬ Clash d key r r' := by
    constructor
    intro r r' hr key hkey hclash
    exact hr key hkey fun c hc => ⟨(hclash c hc).2.1, (hclash c hc).1, d.symm _ _ _ (hclash c hc).2.2⟩
  have happart := hrows.forall h.1 h'.1 hne key hmem
  apply happart
  intro c hc
  have hold := h.2 c (hsub hc)
  have hold' := h'.2 c (hsub hc)
  exact ⟨hold.2.1, hold'.2.1, d.trans _ _ _ _ (d.symm _ _ _ hold.2.2) hold'.2.2⟩

end Rows

private def optionValues : Values where
  Value := Option Nat
  null := none
  same _ v w := v = w
  refl _ _ := rfl
  symm _ _ _ h := h.symm
  trans _ _ _ _ h h' := h.trans h'
  two _ := ⟨some 0, some 1, by decide, by decide, by decide⟩

/-- An account has a generated key and a unique address. -/
private def accounts : ModelSchema where
  fields := [⟨"id", true, true, false⟩, ⟨"email", false, false, true⟩]
  indexes := []
  columns_nodup := by decide
  index_nodup := by simp

/-- A seat's key is its organisation and its number; the number is unique too. -/
private def seats : ModelSchema where
  fields := [⟨"org", true, false, false⟩, ⟨"no", true, false, true⟩]
  indexes := []
  columns_nodup := by decide
  index_nodup := by simp

/-- An account is updated by its address only. -/
theorem accepted_target_sound_accounts : Sound optionValues accounts ["email"] ["email"] := by
  apply (accepted_target_sound_iff (by decide)).mpr
  intro f hf hprimary hunique
  rcases List.mem_pair.mp hf with rfl | rfl
  · cases hunique
  · cases hprimary

/-- Seat 7 of another organisation is overwritten. -/
theorem accepted_target_sound_seats : ∃ rows new old : _,
    myTargetIsOnlyUniqueKey seats ["org", "no"] ["org", "no"] = true ∧
      Satisfies optionValues seats rows ∧ Fresh optionValues seats ["org", "no"] rows new ∧
      OnDuplicateKey optionValues seats rows new old ∧
      ¬ OnConflict optionValues ["org", "no"] rows new old := by
  let old : Row optionValues := fun c => if c = "org" then some 1 else some 7
  let new : Row optionValues := fun c => if c = "org" then some 2 else some 7
  refine ⟨[old], new, old, by decide, List.pairwise_singleton _ _, ?_, ⟨by simp, ["no"], by decide, ?_⟩, ?_⟩
  · intro f hf hauto
    rcases List.mem_pair.mp hf with rfl | rfl <;> cases hauto
  · intro c hc
    rw [List.mem_singleton.mp hc]
    exact ⟨by simp [new, optionValues], by simp [old, optionValues], rfl⟩
  · intro hconflict
    have hsame : (some 2 : Option Nat) = some 1 := (hconflict.2 "org" (by simp)).2.2
    cases hsame

end Rustango.Upsert
