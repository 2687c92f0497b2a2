import Mathlib.Data.List.TakeWhile
import Rustango.Lib.Numeral
import Rustango.Migrate.Runner

/-!
# Migration files

What `list_dir` accepts, and the number a file's name starts with.
-/

namespace Rustango.Migrate

open Rustango.Numeral Rustango.Outcome

/-- What is wrong with one step of a file. -/
def validateOperation (m : Migration) (i : Nat) : Operation → Except MigrateError Unit
  | .data d =>
    if d.reversible ∧ d.reverseSql = none then
      .error (.validation (m.name ++ ": forward[" ++ toString i ++
        "]: reversible=true but reverse_sql is missing"))
    else .ok ()
  | .callback c =>
    -- the callback runs on a second connection, which would wait on the transaction's locks
    if m.atomic then
      .error (.validation (m.name ++ ": forward[" ++ toString i ++ "]: callback `" ++ c.name ++
        "` needs `\"atomic\": false`; safe to add to an already-applied file"))
    else .ok ()
  | .schema _ => .ok ()

def validate (m : Migration) : Except MigrateError Unit :=
  m.forward.zipIdx.forM fun (op, i) => validateOperation m i op

/-- Every `prev` names another migration of the list. -/
def validateChain (migrations : List Migration) (origin : String) : Except MigrateError Unit :=
  migrations.forM fun mig =>
    match mig.prev with
    | none => .ok ()
    | some prev =>
      if ∃ m ∈ migrations, m.name = prev then .ok ()
      else .error (.validation ("broken migration chain: `" ++ mig.name ++ "` declares prev=`" ++
        prev ++ "` but that migration is missing from " ++ origin))

/-- The files of `dir`, given in the order of their paths. -/
def listDir (dir : String) (files : List Migration) : Except MigrateError (List Migration) := do
  files.forM validate
  validateChain files dir
  .ok files

/-- The digits a name starts with. -/
def leadingDigits (name : String) : List Char := name.toList.takeWhile Char.isDigit

/-- What follows them. -/
def afterDigits (name : String) : List Char := name.toList.dropWhile Char.isDigit

/-- `0042_add_slug` gives `42`. Digits past `u32::MAX` give nothing. -/
def extractIndex (name : String) : Option UInt32 :=
  if leadingDigits name = [] then none
  else if value (leadingDigits name) < UInt32.size then
    some (UInt32.ofNat (value (leadingDigits name)))
  else none

/-- `{index:04}_{suffix}`. -/
def numbered (index : UInt32) (suffix : String) : String :=
  String.ofList (numeral 4 index.toNat) ++ "_" ++ suffix

/-- A directory that is read holds the parent of every file. -/
theorem prev_mem_of_listDir {dir : String} {files prior : List Migration}
    (h : listDir dir files = .ok prior) :
    prior = files ∧ ∀ m ∈ prior, ∀ p, m.prev = some p → p ∈ prior.map (·.name) := by
  obtain ⟨_, _, h⟩ := bind_eq_ok.mp h
  obtain ⟨_, hchain, h⟩ := bind_eq_ok.mp h
  obtain rfl := Except.ok.inj h
  refine ⟨rfl, ?_⟩
  intro m hm p hp
  have hlink := forM_eq_ok.mp hchain m hm
  rw [hp] at hlink
  dsimp only at hlink
  split at hlink
  · rename_i hex
    obtain ⟨c, hc, hcp⟩ := hex
    exact List.mem_map.mpr ⟨c, hc, hcp⟩
  · cases hlink

theorem digits_leading (name : String) : Digits (leadingDigits name) :=
  fun _ hc => List.mem_takeWhile_imp hc

private theorem leading_append_after (name : String) :
    leadingDigits name ++ afterDigits name = name.toList := List.takeWhile_append_dropWhile

theorem after_not_digit (name : String) : ∀ c ∈ (afterDigits name).head?, ¬ c.isDigit := by
  intro c hc hdigit
  have hhead := List.head?_dropWhile_not Char.isDigit name.toList
  rw [show (name.toList.dropWhile Char.isDigit).head? = some c from hc] at hhead
  simp [hdigit] at hhead

theorem extractIndex_eq_some {name : String} {n : UInt32} :
    extractIndex name = some n ↔
      leadingDigits name ≠ [] ∧ value (leadingDigits name) = n.toNat := by
  unfold extractIndex
  constructor
  · intro h
    split at h
    · cases h
    · rename_i hne
      split at h
      · rename_i hlt
        have hn : UInt32.ofNat (value (leadingDigits name)) = n := Option.some.inj h
        refine ⟨hne, ?_⟩
        rw [← hn, UInt32.toNat_ofNat_of_lt' hlt]
      · cases h
  · intro ⟨hne, hv⟩
    rw [if_neg hne, hv, if_pos n.toNat_lt_size, UInt32.ofNat_toNat]

theorem lt_numbered_iff (name suffix : String) (index : UInt32) :
    name < numbered index suffix ↔
      leadingDigits name ++ afterDigits name <
        numeral 4 index.toNat ++ '_' :: suffix.toList := by
  rw [leading_append_after, String.lt_iff_toList_lt, numbered]
  simp [String.toList_append, String.toList_ofList]

end Rustango.Migrate
