import Mathlib.Data.List.TakeWhile
import Mathlib.Data.List.Basic

/-!
# Savepoints

An open transaction as its server sees it: the writes made so far and the savepoints set between
them, newest first. A repeated name shadows the older savepoint of that name, and rolling back to a
savepoint or releasing it destroys the later ones.
-/

namespace Rustango.Savepoints

variable {ν ω : Type*}

inductive Entry (ν ω : Type*) where
  | mark (name : ν)
  | write (w : ω)
deriving DecidableEq, Repr

abbrev Log (ν ω : Type*) := List (Entry ν ω)

def Entry.written : Entry ν ω → Option ω
  | .mark _ => none
  | .write w => some w

def Entry.isWrite : Entry ν ω → Bool
  | .mark _ => false
  | .write _ => true

/-- What is committed when the transaction is. -/
def writes (log : Log ν ω) : List ω := log.filterMap Entry.written

variable [DecidableEq ν]

def Entry.marks (name : ν) : Entry ν ω → Bool
  | .mark name' => name' = name
  | .write _ => false

/-- Whether a savepoint of that name is open. -/
def isOpen (name : ν) (log : Log ν ω) : Bool := log.any (Entry.marks name)

/-- What came after the newest savepoint of that name. -/
def since (name : ν) (log : Log ν ω) : Log ν ω := log.takeWhile fun e => !e.marks name

/-- What came before the newest savepoint of that name. -/
def before (name : ν) (log : Log ν ω) : Log ν ω := (log.dropWhile fun e => !e.marks name).tail

/-- `SAVEPOINT` -/
def savepoint (name : ν) (log : Log ν ω) : Log ν ω := .mark name :: log

/-- `ROLLBACK TO SAVEPOINT` -/
def rollbackTo (name : ν) (log : Log ν ω) : Option (Log ν ω) :=
  if isOpen name log then some (.mark name :: before name log) else none

/-- `RELEASE SAVEPOINT` -/
def release (name : ν) (log : Log ν ω) : Option (Log ν ω) :=
  if isOpen name log then some ((since name log).filter Entry.isWrite ++ before name log) else none

variable {name name' : ν} {log log' : Log ν ω} {e : Entry ν ω} {w : ω}

@[simp] theorem marks_mark :
    (Entry.mark name' : Entry ν ω).marks name = decide (name' = name) := rfl

@[simp] theorem marks_write : (Entry.write w : Entry ν ω).marks name = false := rfl

theorem marks_iff : e.marks name = true ↔ e = .mark name := by
  cases e with
  | mark name' => simp
  | write w => simp

theorem isOpen_iff : isOpen name log = true ↔ Entry.mark name ∈ log := by
  simp only [isOpen, List.any_eq_true, marks_iff, exists_eq_right]

theorem rollbackTo_eq_some : rollbackTo name log = some log' ↔
    isOpen name log = true ∧ .mark name :: before name log = log' := by
  unfold rollbackTo
  split <;> simp [*]

theorem release_eq_some : release name log = some log' ↔
    isOpen name log = true ∧ (since name log).filter Entry.isWrite ++ before name log = log' := by
  unfold release
  split <;> simp [*]

theorem release_rollbackTo (h : rollbackTo name log = some log') :
    release name log' = some (before name log) := by
  obtain ⟨_, rfl⟩ := rollbackTo_eq_some.mp h
  rw [release_eq_some]
  refine ⟨isOpen_iff.mpr List.mem_cons_self, ?_⟩
  simp [since, before]

end Rustango.Savepoints
