import Mathlib.Data.List.Basic

/-!
# Operator precedence

Reading operands and operators as one operand: the tighter operators first, equal ones from the left.
An operator waits on a stack for its right operand until one that binds no tighter follows.
-/

namespace Rustango.Precedence

variable {Unary Op α : Type}

/-- How tightly operators bind, and what they make of their operands. -/
structure Table (Unary Op α : Type) where
  unaryLevel : Unary → Nat
  level : Op → Nat
  unary : Unary → α → α
  binary : Op → α → α → α

/-- An operator that has not got its right operand. -/
inductive Waiting (Unary Op α : Type) where
  | unary (u : Unary)
  | binary (left : α) (op : Op)

/-- What waits, the innermost first, and the operand read last. -/
structure Reading (Unary Op α : Type) where
  waiting : List (Waiting Unary Op α)
  operand : Option α

variable (t : Table Unary Op α)

/-- Gives `x` to the operators that bind at least as tightly as `n`. -/
def Table.reduce (n : Nat) : List (Waiting Unary Op α) → α → List (Waiting Unary Op α) × α
  | [], x => ([], x)
  | .unary u :: ws, x =>
    if n ≤ t.unaryLevel u then reduce n ws (t.unary u x) else (.unary u :: ws, x)
  | .binary l o :: ws, x =>
    if n ≤ t.level o then reduce n ws (t.binary o l x) else (.binary l o :: ws, x)

def Waiting.level : Waiting Unary Op α → Nat
  | .unary u => t.unaryLevel u
  | .binary _ o => t.level o

section Equations
-- Its equations are derived here, once for all the proofs that unfold it.
attribute [local simp] Table.reduce
end Equations

variable {t} in
theorem Table.reduce_of_looser {n : Nat} {ws : List (Waiting Unary Op α)}
    (h : ∀ w ∈ ws.head?, w.level t < n) (x : α) : t.reduce n ws x = (ws, x) := by
  cases ws with
  | nil => rfl
  | cons w ws =>
    have hw : ¬ n ≤ w.level t := Nat.not_le.mpr (h w rfl)
    cases w with
    | unary u => exact if_neg hw
    | binary l o => exact if_neg hw

namespace Reading

def start : Reading Unary Op α := ⟨[], none⟩

def pushOperand (r : Reading Unary Op α) (x : α) : Option (Reading Unary Op α) :=
  match r.operand with
  | none => some ⟨r.waiting, some x⟩
  | some _ => none

def pushUnary (r : Reading Unary Op α) (u : Unary) : Option (Reading Unary Op α) :=
  match r.operand with
  | none => some ⟨.unary u :: r.waiting, none⟩
  | some _ => none

def pushOp (r : Reading Unary Op α) (o : Op) : Option (Reading Unary Op α) :=
  r.operand.map fun x =>
    let (ws, l) := t.reduce (t.level o) r.waiting x
    ⟨.binary l o :: ws, none⟩

/-- Nothing follows: every operator gets its operand. -/
def close (r : Reading Unary Op α) : Option α := r.operand.map fun x => (t.reduce 0 r.waiting x).2

/-- What was read is one operand behind `ws` to every operator of level `n` or looser. -/
def Stands (n : Nat) (ws : List (Waiting Unary Op α)) (x : α) (r : Reading Unary Op α) : Prop :=
  ∃ y, r.operand = some y ∧ ∀ k ≤ n, t.reduce k r.waiting y = t.reduce k ws x

variable {t} {n m : Nat} {ws : List (Waiting Unary Op α)} {x : α} {r : Reading Unary Op α}

theorem stands_operand (n : Nat) (ws : List (Waiting Unary Op α)) (x : α) :
    Stands t n ws x ⟨ws, some x⟩ := ⟨x, rfl, fun _ _ => rfl⟩

theorem Stands.mono (h : Stands t n ws x r) (hm : m ≤ n) : Stands t m ws x r := by
  obtain ⟨y, hy, hk⟩ := h
  exact ⟨y, hy, fun k hkm => hk k (Nat.le_trans hkm hm)⟩

theorem Stands.unary {u : Unary} (h : Stands t n (.unary u :: ws) x r) (hu : n ≤ t.unaryLevel u) :
    Stands t n ws (t.unary u x) r := by
  obtain ⟨y, hy, hk⟩ := h
  refine ⟨y, hy, fun k hkn => ?_⟩
  rw [hk k hkn, Table.reduce, if_pos (Nat.le_trans hkn hu)]

theorem Stands.binary {l : α} {o : Op} (h : Stands t n (.binary l o :: ws) x r)
    (ho : n ≤ t.level o) : Stands t n ws (t.binary o l x) r := by
  obtain ⟨y, hy, hk⟩ := h
  refine ⟨y, hy, fun k hkn => ?_⟩
  rw [hk k hkn, Table.reduce, if_pos (Nat.le_trans hkn ho)]

theorem Stands.close (h : Stands t n [] x r) : r.close t = some x := by
  obtain ⟨y, hy, hk⟩ := h
  rw [Reading.close, hy, Option.map_some, hk 0 (Nat.zero_le n), Table.reduce]

theorem pushOp_operand {o : Op} (h : ∀ w ∈ ws.head?, w.level t < t.level o) (x : α) :
    pushOp t ⟨ws, some x⟩ o = some ⟨.binary x o :: ws, none⟩ := by
  rw [Reading.pushOp, Option.map_some, Table.reduce_of_looser h]

theorem Stands.pushOp {o : Op} (h : Stands t n [] x r) (ho : t.level o ≤ n) :
    r.pushOp t o = some ⟨[.binary x o], none⟩ := by
  obtain ⟨y, hy, hk⟩ := h
  rw [Reading.pushOp, hy, Option.map_some, hk _ ho, Table.reduce]

end Reading

end Rustango.Precedence
