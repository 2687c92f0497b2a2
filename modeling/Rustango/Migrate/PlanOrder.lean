import Rustango.Migrate.MergeFile
import Rustango.Migrate.Plan

/-!
# Where a planned file goes

Files apply in the order of their names. A new name is numbered after one file, so whether it comes
last is decided by the digits of the last name.
-/

namespace Rustango.Migrate

open Rustango.Numeral Rustango.Outcome

/-- The ways to a new file. -/
inductive Planner where
  | planFrom (current : SchemaSnapshot) (nameOverride : Option String) (drops : DropAndAdd)
  | planScoped (current : SchemaSnapshot) (modelScope : ModelScope) (scope : MigrationScope)
      (nameOverride : Option String) (drops : DropAndAdd)
  | planSystemStep (models : SystemModels) (scope : ModelScope) (nameOverride : Option String)
  | makeMergeMigration (dir : String)

/-- The file planned after `prior`. -/
def Planner.plan (registry : Registry) (prior : List Migration) :
    Planner → Except MigrateError (Option Migration)
  | .planFrom current nameOverride drops =>
    Migrate.planFrom registry prior current nameOverride drops
  | .planScoped current modelScope scope nameOverride drops =>
    Migrate.planScoped registry prior current modelScope scope nameOverride drops
  | .planSystemStep models scope nameOverride =>
    Migrate.planSystemStep models scope nameOverride prior
  | .makeMergeMigration dir => Migrate.makeMergeMigration dir prior

/-- The file is applied after every prior one. -/
def GoesLast (prior : List Migration) (mig : Migration) : Prop := ∀ m ∈ prior, m.name < mig.name

/-- Whether the number after `name`'s own sorts after it. Fewer than four digits must be zeros, and
nothing above `'0'` may follow them; four and more must not be all nines. A number the counter cannot
hold or count on from needs leading zeros, since the next file is `0001_` or `0000_`. -/
def RoomAfter (name : String) : Prop :=
  let d := leadingDigits name
  if d.length < 4 then value d = 0 ∧ LowRest (afterDigits name)
  else if value d + 1 < UInt32.size then value d + 1 < 10 ^ d.length
  else if value d + 1 = UInt32.size then value d < 10 ^ (d.length - 4)
  else value d < 2 * 10 ^ (d.length - 4)

instance (name : String) : Decidable (RoomAfter name) := by
  delta RoomAfter
  infer_instance

/-- Whether `name` sorts before `k_suffix`: its digits, against as many of those of `k`, write a
smaller number. -/
def RoomBelow (k : Nat) (suffix name : String) : Prop :=
  let d := leadingDigits name
  let v := max 4 (Nat.toDigits 10 k).length
  if d.length < v then
    value d < k / 10 ^ (v - d.length) ∨
      value d = k / 10 ^ (v - d.length) ∧ LowRest (afterDigits name)
  else
    value d / 10 ^ (d.length - v) < k ∨
      value d / 10 ^ (d.length - v) = k ∧ (v < d.length ∨ afterDigits name < '_' :: suffix.toList)

/-- Whether the last of the prior files leaves room for the planned one. -/
def Planner.Room (prior : List Migration) : Planner → Prop
  | .makeMergeMigration _ =>
    ∀ last ∈ prior.getLast?, RoomBelow (nextIndex (highestIndex prior)).toNat "merge" last.name
  | _ => ∀ last ∈ prior.getLast?, RoomAfter last.name

section Names
variable {registry : Registry} {prior : List Migration} {nameOverride : Option String}
  {drops : DropAndAdd} {mig : Migration}

private theorem planFrom_name {current : SchemaSnapshot}
    (h : planFrom registry prior current nameOverride drops = .ok (some mig)) :
    ∃ suffix, mig.name = numbered (indexAfter prior) suffix := by
  obtain ⟨_, _, h⟩ := bind_eq_ok.mp h
  obtain ⟨_, _, h⟩ := bind_eq_ok.mp h
  obtain ⟨_, _, h⟩ := bind_eq_ok.mp h
  dsimp only at h
  split at h
  · cases h
  · obtain ⟨_, _, h⟩ := bind_eq_ok.mp h
    obtain rfl := Option.some.inj (Except.ok.inj h)
    exact ⟨_, rfl⟩

private theorem planScoped_name {current : SchemaSnapshot} {modelScope : ModelScope} {scope : MigrationScope}
    (h : planScoped registry prior current modelScope scope nameOverride drops = .ok (some mig)) :
    ∃ suffix, mig.name = numbered (indexAfter prior) suffix := by
  obtain ⟨_, _, h⟩ := bind_eq_ok.mp h
  obtain ⟨_, _, h⟩ := bind_eq_ok.mp h
  obtain ⟨_, _, h⟩ := bind_eq_ok.mp h
  dsimp only at h
  split at h
  · cases h
  · obtain ⟨_, _, h⟩ := bind_eq_ok.mp h
    obtain rfl := Option.some.inj (Except.ok.inj h)
    exact ⟨_, rfl⟩

private theorem planSystemStep_name {models : SystemModels} {scope : ModelScope}
    (h : planSystemStep models scope nameOverride prior = .ok (some mig)) :
    ∃ suffix, mig.name = numbered (indexAfter prior) suffix := by
  unfold planSystemStep at h
  split at h
  · cases h
  · obtain ⟨_, _, h⟩ := bind_eq_ok.mp h
    obtain ⟨_, _, h⟩ := bind_eq_ok.mp h
    dsimp only at h
    split at h
    · cases h
    · obtain rfl := Option.some.inj (Except.ok.inj h)
      exact ⟨_, rfl⟩

end Names

private theorem width_le_iff {k w : Nat} (hw : 4 ≤ w) :
    max 4 (Nat.toDigits 10 k).length ≤ w ↔ k < 10 ^ w := by
  rw [max_le_iff, Nat.length_toDigits_le_iff (by decide) (by omega)]
  simp [hw]

private theorem lt_numbered_iff_roomBelow (name suffix : String) (index : UInt32) :
    name < numbered index suffix ↔ RoomBelow index.toNat suffix name := by
  rw [lt_numbered_iff, append_lt_numeral (digits_leading name) (after_not_digit name)
    (digits_numeral 4 index.toNat), value_numeral, length_numeral]
  exact Iff.rfl

private theorem width_of_small {k : Nat} (hk : k < 10 ^ 4) : max 4 (Nat.toDigits 10 k).length = 4 :=
  le_antisymm ((width_le_iff le_rfl).mpr hk) (le_max_left _ _)

private theorem lt_next_of_short {name : String} (suffix : String) (hw : (leadingDigits name).length < 4)
    {index : UInt32} (hindex : index.toNat = value (leadingDigits name) + 1) :
    name < numbered index suffix ↔ value (leadingDigits name) = 0 ∧ LowRest (afterDigits name) := by
  have hlt := value_lt (digits_leading name)
  have hpow : 10 ^ (leadingDigits name).length ≤ 10 ^ 3 := Nat.pow_le_pow_right (by decide) (by omega)
  have hsmall : index.toNat < 10 ^ 4 := by omega
  have hcut : index.toNat / 10 ^ (4 - (leadingDigits name).length) ≤ index.toNat / 10 :=
    Nat.div_le_div_left (Nat.le_self_pow (by omega) 10) (by decide)
  rw [lt_numbered_iff_roomBelow, RoomBelow, width_of_small hsmall]
  rw [if_pos hw]
  constructor
  · rintro (h | ⟨heq, hlow⟩)
    · omega
    · exact ⟨by omega, hlow⟩
  · intro ⟨hzero, hlow⟩
    have hnone : index.toNat / 10 = 0 := by omega
    rw [hnone] at hcut
    exact .inr ⟨hzero.trans (Nat.eq_zero_of_le_zero hcut).symm, hlow⟩

private theorem lt_next_of_long {name : String} (suffix : String) (hw : 4 ≤ (leadingDigits name).length)
    {index : UInt32} (hindex : index.toNat = value (leadingDigits name) + 1) :
    name < numbered index suffix ↔
      value (leadingDigits name) + 1 < 10 ^ (leadingDigits name).length := by
  have hlt := value_lt (digits_leading name)
  rw [lt_numbered_iff_roomBelow, RoomBelow]
  by_cases hroom : index.toNat < 10 ^ (leadingDigits name).length
  · have hwidth := (width_le_iff hw).mpr hroom
    have hcut : value (leadingDigits name) / 10 ^ ((leadingDigits name).length -
        max 4 (Nat.toDigits 10 index.toNat).length) ≤ value (leadingDigits name) :=
      Nat.div_le_self _ _
    rw [if_neg (by omega)]
    exact iff_of_true (.inl (by omega)) (by omega)
  · -- all nines: the next number is a one and zeros, one digit wider
    have hwide : (leadingDigits name).length < max 4 (Nat.toDigits 10 index.toNat).length := by
      by_contra hle
      exact hroom ((width_le_iff hw).mp (by omega))
    have hexact : index.toNat < 10 ^ ((leadingDigits name).length + 1) := by
      rw [Nat.pow_succ]
      omega
    have hwidth : max 4 (Nat.toDigits 10 index.toNat).length = (leadingDigits name).length + 1 :=
      le_antisymm ((width_le_iff (by omega)).mpr hexact) hwide
    have hcut : (leadingDigits name).length + 1 - (leadingDigits name).length = 1 := by omega
    have hpos : 10 ^ 4 ≤ 10 ^ (leadingDigits name).length := Nat.pow_le_pow_right (by decide) hw
    rw [if_pos hwide, hwidth, hcut]
    apply iff_of_false
    · rintro (h | ⟨h, _⟩)
      · omega
      · omega
    · omega

private theorem lt_small_of_long {name : String} (suffix : String) (hw : 4 < (leadingDigits name).length)
    {index : UInt32} (hsmall : index.toNat < 10 ^ 4) :
    name < numbered index suffix ↔
      value (leadingDigits name) < (index.toNat + 1) * 10 ^ ((leadingDigits name).length - 4) := by
  rw [lt_numbered_iff_roomBelow, RoomBelow, width_of_small hsmall]
  rw [if_neg (by omega), ← Nat.div_lt_iff_lt_mul (Nat.pow_pos (by decide))]
  simp only [hw, true_or, and_true]
  omega

private theorem length_of_large (name : String) (h : UInt32.size ≤ value (leadingDigits name) + 1) :
    4 < (leadingDigits name).length := by
  by_contra hle
  have hlt := value_lt (digits_leading name)
  have hpow : 10 ^ (leadingDigits name).length ≤ 10 ^ 4 :=
    Nat.pow_le_pow_right (by decide) (by omega)
  have hsize : UInt32.size = 4294967296 := rfl
  omega

/-- The number after a name's own, against the name. -/
private theorem lt_nextIndex_iff (name suffix : String) :
    name < numbered (nextIndex (extractIndex name)) suffix ↔ RoomAfter name := by
  have hsize : UInt32.size = 4294967296 := rfl
  unfold RoomAfter
  dsimp only
  cases hindex : extractIndex name with
  | some n =>
    obtain ⟨_, hv⟩ := extractIndex_eq_some.mp hindex
    have hn := n.toNat_lt_size
    have hnext : (nextIndex (some n)).toNat = (n.toNat + 1) % UInt32.size := UInt32.toNat_add n 1
    by_cases hmax : value (leadingDigits name) + 1 = UInt32.size
    · have hlong := length_of_large name (by omega)
      have hzero : (nextIndex (some n)).toNat = 0 := by
        rw [hnext, ← hv, hmax, Nat.mod_self]
      rw [if_neg (by omega), if_neg (by omega), if_pos hmax,
        lt_small_of_long suffix hlong (by omega), hzero, Nat.zero_add, Nat.one_mul]
    · have hsucc : (nextIndex (some n)).toNat = value (leadingDigits name) + 1 := by
        rw [hnext, ← hv, Nat.mod_eq_of_lt (by omega)]
      split_ifs with hshort
      · exact lt_next_of_short suffix hshort hsucc
      · exact lt_next_of_long suffix (by omega) hsucc
      · omega
  | none =>
    have hone : (nextIndex none).toNat = 1 := rfl
    unfold extractIndex at hindex
    split at hindex
    · rename_i hnil
      have hvalue : value (leadingDigits name) = 0 := by
        rw [hnil]
        exact value_nil
      have hlength : (leadingDigits name).length < 4 := by
        rw [hnil]
        decide
      rw [if_pos hlength]
      exact lt_next_of_short suffix hlength (by omega)
    · split at hindex
      · cases hindex
      · have hlong := length_of_large name (by omega)
        rw [if_neg (by omega), if_neg (by omega), if_neg (by omega),
          lt_small_of_long suffix hlong (by omega), hone]

private theorem goesLast_iff {prior : List Migration} (hsorted : prior.Pairwise (·.name ≤ ·.name))
    (mig : Migration) : GoesLast prior mig ↔ ∀ last ∈ prior.getLast?, last.name < mig.name := by
  constructor
  · intro h last hlast
    exact h last (List.mem_of_getLast? hlast)
  · intro h m hm
    have hne : prior ≠ [] := List.ne_nil_of_mem hm
    have hlast : prior.getLast hne ∈ prior.getLast? := List.getLast_mem_getLast? hne
    have hle : m.name ≤ (prior.getLast hne).name := by
      have hsplit := List.dropLast_append_getLast hne
      rw [← hsplit, List.mem_append, List.mem_singleton] at hm
      rcases hm with hm | hm
      · rw [← hsplit] at hsorted
        exact (List.pairwise_append.mp hsorted).2.2 m hm _ (List.mem_singleton_self _)
      · exact le_of_eq (congrArg Migration.name hm)
    exact lt_of_le_of_lt hle (h _ hlast)

private theorem goesLast_numbered_iff {prior : List Migration}
    (hsorted : prior.Pairwise (·.name ≤ ·.name)) {mig : Migration} {suffix : String}
    (hname : mig.name = numbered (indexAfter prior) suffix) :
    GoesLast prior mig ↔ ∀ last ∈ prior.getLast?, RoomAfter last.name := by
  rw [goesLast_iff hsorted]
  apply forall₂_congr
  intro last hlast
  have hindex : indexAfter prior = nextIndex (extractIndex last.name) := by
    rw [indexAfter, Option.mem_def.mp hlast]
    rfl
  rw [hname, hindex, lt_nextIndex_iff]

/-- A planned file is the new last file exactly when the last name leaves room for its number. -/
theorem planned_goesLast_iff {registry : Registry} {prior : List Migration}
    (hsorted : prior.Pairwise (·.name ≤ ·.name)) (planner : Planner) {mig : Migration}
    (h : planner.plan registry prior = .ok (some mig)) : GoesLast prior mig ↔ planner.Room prior := by
  cases planner with
  | planFrom current nameOverride drops =>
    obtain ⟨suffix, hname⟩ := planFrom_name h
    exact goesLast_numbered_iff hsorted hname
  | planScoped current modelScope scope nameOverride drops =>
    obtain ⟨suffix, hname⟩ := planScoped_name h
    exact goesLast_numbered_iff hsorted hname
  | planSystemStep models scope nameOverride =>
    obtain ⟨suffix, hname⟩ := planSystemStep_name h
    exact goesLast_numbered_iff hsorted hname
  | makeMergeMigration dir =>
    have hname := (joinsLeaves_of_makeMergeMigration h).name
    rw [goesLast_iff hsorted]
    apply forall₂_congr
    intro last _
    rw [hname, mergeName, lt_numbered_iff_roomBelow]

private def numberedFile (name : String) : Migration where
  name
  prev := none
  atomic := true
  replaces := []
  merges := []
  snapshot := SchemaSnapshot.empty
  forward := []

private def tagsSnapshot : SchemaSnapshot :=
  { SchemaSnapshot.empty with tables := [⟨"tags", "Tag", [], [], none⟩] }

private def tagsFile (name prev : String) : Migration where
  name
  prev := some prev
  atomic := true
  replaces := []
  merges := []
  snapshot := tagsSnapshot
  forward := [.schema (.createTable "tags")]

/-- After `9999_posts` comes `10000_create_tags`, which sorts before it. -/
theorem planFrom_after_9999 :
    [numberedFile "9999_posts"].Pairwise (·.name ≤ ·.name) ∧
      (Planner.planFrom tagsSnapshot none .refuse).plan (fun _ => none)
        [numberedFile "9999_posts"] = .ok (some (tagsFile "10000_create_tags" "9999_posts")) ∧
      ¬ GoesLast [numberedFile "9999_posts"] (tagsFile "10000_create_tags" "9999_posts") := by
  refine ⟨List.pairwise_singleton _ _, by decide, ?_⟩
  intro h
  exact absurd (h _ (List.mem_singleton_self _)) (by decide)

theorem planFrom_after_0041 :
    (GoesLast [numberedFile "0041_posts"] (tagsFile "0042_create_tags" "0041_posts") ↔
      (Planner.planFrom tagsSnapshot none .refuse).Room [numberedFile "0041_posts"]) ∧
    RoomAfter "0041_posts" := by
  have hplan : (Planner.planFrom tagsSnapshot none .refuse).plan (fun _ => none)
      [numberedFile "0041_posts"] = .ok (some (tagsFile "0042_create_tags" "0041_posts")) := by
    decide
  exact ⟨planned_goesLast_iff (List.pairwise_singleton _ _) _ hplan, by decide⟩

end Rustango.Migrate
