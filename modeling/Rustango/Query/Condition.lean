import Rustango.Lib.Precedence
import Rustango.Query.Meaning

/-!
# Reading a condition

The text of a condition, piece by piece, as a database reads it: `OR` under `AND` under `NOT` under
comparisons under arithmetic, operators of one kind from the left. What is read has a value in
three-valued logic, given the truth of the predicates in it.
-/

namespace Rustango.Query

open Rustango.Precedence

/-- A piece of a condition's text. -/
inductive Token (A : Type) where
  | opening
  | closing
  | not
  | and
  | or
  | equals
  | plus
  | percent
  | caseWhen
  | then_
  | else_
  | end_
  | number (n : Nat)
  /-- A predicate with no keyword of its own outside parentheses. -/
  | predicate (a : A)
  /-- What stands after the `NOT` of a predicate that starts with one. -/
  | negand (a : A)
  /-- `… BETWEEN lower`, which an `AND` and the upper bound have to follow. -/
  | between (a : A)
  | upper

/-- A condition as it is read. -/
inductive Cond (A : Type) where
  | predicate (a : A)
  | negand (a : A)
  | number (n : Nat)
  | not (c : Cond A)
  | and (a b : Cond A)
  | or (a b : Cond A)
  | equals (a b : Cond A)
  | plus (a b : Cond A)
  | percent (a b : Cond A)
  | ite (c a b : Cond A)

inductive Datum where
  | truth (b : Option Bool)
  | number (n : Option Nat)
deriving DecidableEq

def Datum.truth? : Datum → Option Bool
  | .truth b => b
  | .number _ => none

def Datum.number? : Datum → Option Nat
  | .truth _ => none
  | .number n => n

def not3 (b : Option Bool) : Option Bool := b.map (!·)

section Eval
variable {A : Type} (v : A → Option Bool)

def Cond.eval : Cond A → Datum
  | .predicate a => .truth (v a)
  | .negand a => .truth (not3 (v a))
  | .number n => .number (some n)
  | .not c => .truth (not3 c.eval.truth?)
  | .and a b => .truth (and3 [a.eval.truth?, b.eval.truth?])
  | .or a b => .truth (or3 [a.eval.truth?, b.eval.truth?])
  | .equals a b => .truth (a.eval.number?.bind fun x => b.eval.number?.map fun y => x = y)
  | .plus a b => .number (a.eval.number?.bind fun x => b.eval.number?.map fun y => x + y)
  | .percent a b => .number (a.eval.number?.bind fun x => b.eval.number?.map fun y => x % y)
  | .ite c a b => if c.eval.truth? = some true then a.eval else b.eval

-- Its equations are derived here, once for all the proofs that unfold it.
attribute [local simp] Cond.eval

end Eval

inductive BinOp where
  | or | and | equals | plus | percent

def BinOp.level : BinOp → Nat
  | .or => 1
  | .and => 2
  | .equals => 4
  | .plus => 5
  | .percent => 6

/-- `NOT`, the one operator without a left operand, binds looser than a comparison. -/
def notLevel : Nat := 3

def precedence (A : Type) : Table Unit BinOp (Cond A) where
  unaryLevel _ := notLevel
  level := BinOp.level
  unary _ := .not
  binary
    | .or => .or
    | .and => .and
    | .equals => .equals
    | .plus => .plus
    | .percent => .percent

variable {A : Type}

abbrev CondReading (A : Type) := Reading Unit BinOp (Cond A)

/-- What is open around the piece being read. -/
inductive Enclosing (A : Type) where
  | group (r : CondReading A)
  | when (r : CondReading A)
  | then_ (r : CondReading A) (c : Cond A)
  | else_ (r : CondReading A) (c a : Cond A)
  | between (r : CondReading A) (a : A)
  | upper (r : CondReading A) (a : A)

structure ReadState (A : Type) where
  reading : CondReading A
  outer : List (Enclosing A)

namespace ReadState
variable (s : ReadState A)

def within (r : Option (CondReading A)) : Option (ReadState A) := r.map fun r => ⟨r, s.outer⟩

def open_ (e : Enclosing A) : ReadState A := ⟨Reading.start, e :: s.outer⟩

def pushOp (o : BinOp) : Option (ReadState A) := s.within (s.reading.pushOp (precedence A) o)

def step : Token A → Option (ReadState A)
  | .opening => some (s.open_ (.group s.reading))
  | .closing =>
    match s.outer with
    | .group r :: outer => do
      let c ← s.reading.close (precedence A)
      let r ← r.pushOperand c
      some ⟨r, outer⟩
    | _ => none
  | .not => s.within (s.reading.pushUnary ())
  | .and =>
    match s.reading.operand, s.outer with
    -- The `AND` of a `BETWEEN`.
    | none, .between r a :: outer => some ⟨Reading.start, .upper r a :: outer⟩
    | _, _ => s.pushOp .and
  | .or => s.pushOp .or
  | .equals => s.pushOp .equals
  | .plus => s.pushOp .plus
  | .percent => s.pushOp .percent
  | .caseWhen => some (s.open_ (.when s.reading))
  | .then_ =>
    match s.outer with
    | .when r :: outer => do
      let c ← s.reading.close (precedence A)
      some ⟨Reading.start, .then_ r c :: outer⟩
    | _ => none
  | .else_ =>
    match s.outer with
    | .then_ r c :: outer => do
      let a ← s.reading.close (precedence A)
      some ⟨Reading.start, .else_ r c a :: outer⟩
    | _ => none
  | .end_ =>
    match s.outer with
    | .else_ r c a :: outer => do
      let b ← s.reading.close (precedence A)
      let r ← r.pushOperand (.ite c a b)
      some ⟨r, outer⟩
    | _ => none
  | .number n => s.within (s.reading.pushOperand (.number n))
  | .predicate a => s.within (s.reading.pushOperand (.predicate a))
  | .negand a => s.within (s.reading.pushOperand (.negand a))
  | .between a => some (s.open_ (.between s.reading a))
  | .upper =>
    match s.outer with
    | .upper r a :: outer => do
      let r ← r.pushOperand (.predicate a)
      some ⟨r, outer⟩
    | _ => none

def run : List (Token A) → ReadState A → Option (ReadState A)
  | [], s => some s
  | t :: ts, s => (s.step t).bind (run ts)

end ReadState

/-- What a database makes of the text; nothing may be left open. -/
def readCondition (ts : List (Token A)) : Option (Cond A) :=
  match ReadState.run ts ⟨Reading.start, []⟩ with
  | some ⟨r, []⟩ => r.close (precedence A)
  | _ => none

/-- Behind operators of level `n` or looser, `ts` reads as their operand `c`. -/
def ReadsIn (n : Nat) (ts : List (Token A)) (c : Cond A) : Prop :=
  ∀ ws, (∀ w ∈ ws.head?, w.level (precedence A) ≤ n) → ∃ r : CondReading A, r.Stands (precedence A) n ws c ∧
    ∀ rest outer, ReadState.run (ts ++ rest) ⟨⟨ws, none⟩, outer⟩ = ReadState.run rest ⟨r, outer⟩

/-- On its own, `ts` reads as `c`. -/
def ReadsAlone (ts : List (Token A)) (c : Cond A) : Prop :=
  ∃ r : CondReading A, r.close (precedence A) = some c ∧
    ∀ rest outer, ReadState.run (ts ++ rest) ⟨Reading.start, outer⟩ = ReadState.run rest ⟨r, outer⟩

variable {n : Nat} {ts : List (Token A)} {c : Cond A}

theorem ReadsIn.mono {m : Nat} (h : ReadsIn n ts c) (hm : m ≤ n) : ReadsIn m ts c := by
  intro ws hws
  obtain ⟨r, hr, hrun⟩ := h ws fun w hw => Nat.le_trans (hws w hw) hm
  exact ⟨r, hr.mono hm, hrun⟩

theorem ReadsIn.alone (h : ReadsIn n ts c) : ReadsAlone ts c := by
  obtain ⟨r, hr, hrun⟩ := h [] (by simp)
  exact ⟨r, hr.close, hrun⟩

theorem ReadsAlone.readCondition (h : ReadsAlone ts c) : readCondition ts = some c := by
  obtain ⟨r, hr, hrun⟩ := h
  have hts : ReadState.run ts ⟨Reading.start, []⟩ = some ⟨r, []⟩ := by
    simpa [ReadState.run] using hrun [] []
  rw [Query.readCondition, hts]
  exact hr

theorem readsIn_predicate (n : Nat) (a : A) : ReadsIn n [.predicate a] (.predicate a) :=
  fun ws _ => ⟨⟨ws, some (.predicate a)⟩, Reading.stands_operand _ _ _, fun _ _ => rfl⟩

theorem readsIn_negand (n : Nat) (a : A) : ReadsIn n [.negand a] (.negand a) :=
  fun ws _ => ⟨⟨ws, some (.negand a)⟩, Reading.stands_operand _ _ _, fun _ _ => rfl⟩

private theorem readsIn_number (n m : Nat) : ReadsIn (A := A) n [.number m] (.number m) :=
  fun ws _ => ⟨⟨ws, some (.number m)⟩, Reading.stands_operand _ _ _, fun _ _ => rfl⟩

theorem readsIn_between (n : Nat) (a : A) : ReadsIn n [.between a, .and, .upper] (.predicate a) :=
  fun ws _ => ⟨⟨ws, some (.predicate a)⟩, Reading.stands_operand _ _ _, fun _ _ => rfl⟩

theorem readsIn_equals (x y : Nat) :
    ReadsIn (A := A) notLevel [.number x, .equals, .number y] (.equals (.number x) (.number y)) := by
  intro ws hws
  have hlooser : ∀ w ∈ ws.head?, w.level (precedence A) < (precedence A).level .equals :=
    fun w hw => Nat.lt_succ_of_le (hws w hw)
  refine ⟨⟨.binary (.number x) .equals :: ws, some (.number y)⟩,
    (Reading.stands_operand _ _ _).binary (by decide : notLevel ≤ BinOp.equals.level),
    fun rest outer => ?_⟩
  have hstep : ReadState.step ⟨⟨ws, some (.number x)⟩, outer⟩ .equals =
      some ⟨⟨.binary (.number x) .equals :: ws, none⟩, outer⟩ := by
    simp only [ReadState.step, ReadState.pushOp, ReadState.within, Reading.pushOp_operand hlooser,
      Option.map_some]
  show (ReadState.step ⟨⟨ws, some (.number x)⟩, outer⟩ .equals).bind
    (ReadState.run (.number y :: rest)) = _
  rw [hstep]
  rfl

theorem ReadsIn.not (h : ReadsIn notLevel ts c) : ReadsIn notLevel (.not :: ts) (.not c) := by
  intro ws _
  obtain ⟨r, hr, hrun⟩ := h (.unary () :: ws) (by simp [Waiting.level, precedence])
  exact ⟨r, hr.unary (le_refl _), hrun⟩

theorem ReadsAlone.group (h : ReadsAlone ts c) (n : Nat) :
    ReadsIn n ([.opening] ++ ts ++ [.closing]) c := by
  intro ws _
  obtain ⟨r, hr, hrun⟩ := h
  refine ⟨⟨ws, some c⟩, Reading.stands_operand _ _ _, fun rest outer => ?_⟩
  have hopen : ReadState.run ([.opening] ++ ts ++ [.closing] ++ rest) ⟨⟨ws, none⟩, outer⟩ =
      ReadState.run (ts ++ (.closing :: rest)) ⟨Reading.start, .group ⟨ws, none⟩ :: outer⟩ := by
    rw [List.append_assoc, List.append_assoc]
    rfl
  rw [hopen, hrun]
  simp only [ReadState.run, ReadState.step, hr, Option.bind_eq_bind, Option.bind_some]
  rfl

theorem ReadsAlone.caseWhen (h : ReadsAlone ts c) (x y : Nat) :
    ReadsAlone ([.caseWhen] ++ ts ++ [.then_, .number x, .else_, .number y, .end_])
      (.ite c (.number x) (.number y)) := by
  obtain ⟨r, hr, hrun⟩ := h
  refine ⟨⟨[], some (.ite c (.number x) (.number y))⟩, rfl, fun rest outer => ?_⟩
  have hopen : ReadState.run
      ([.caseWhen] ++ ts ++ [.then_, .number x, .else_, .number y, .end_] ++ rest)
        ⟨Reading.start, outer⟩ =
      ReadState.run (ts ++ (.then_ :: .number x :: .else_ :: .number y :: .end_ :: rest))
        ⟨Reading.start, .when Reading.start :: outer⟩ := by
    rw [List.append_assoc, List.append_assoc]
    rfl
  rw [hopen, hrun, ReadState.run]
  simp only [ReadState.step, hr, Option.bind_eq_bind, Option.bind_some]
  rfl

/-- The tokens of the operators that join texts. -/
def BinOp.token : BinOp → Token A
  | .or => .or
  | .and => .and
  | .equals => .equals
  | .plus => .plus
  | .percent => .percent

private theorem run_token {o : BinOp} {r : CondReading A} (h : r.Stands (precedence A) n [] c)
    (ho : o.level ≤ n) (rest : List (Token A)) (outer : List (Enclosing A)) :
    ReadState.run (o.token :: rest) ⟨r, outer⟩ =
      ReadState.run rest ⟨⟨[.binary c o], none⟩, outer⟩ := by
  have hpush := h.pushOp ho
  obtain ⟨y, hy, _⟩ := h
  have hstep : ReadState.step ⟨r, outer⟩ o.token = some ⟨⟨[.binary c o], none⟩, outer⟩ := by
    cases o <;>
      simp only [BinOp.token, ReadState.step, ReadState.pushOp, ReadState.within, hy, hpush,
        Option.map_some]
  rw [ReadState.run, hstep, Option.bind_some]

/-- From the start, `ts` reads as the operand `c` to the operators of level `n` or looser. -/
def Starts (n : Nat) (ts : List (Token A)) (c : Cond A) : Prop :=
  ∃ r : CondReading A, r.Stands (precedence A) n [] c ∧
    ∀ rest outer, ReadState.run (ts ++ rest) ⟨Reading.start, outer⟩ = ReadState.run rest ⟨r, outer⟩

theorem ReadsIn.starts (h : ReadsIn n ts c) : Starts n ts c := h [] (by simp)

theorem Starts.alone (h : Starts n ts c) : ReadsAlone ts c := by
  obtain ⟨r, hr, hrun⟩ := h
  exact ⟨r, hr.close, hrun⟩

theorem Starts.append {o : BinOp} {ts' : List (Token A)} {c' : Cond A} (h : Starts n ts c)
    (h' : ReadsIn n ts' c') (ho : o.level ≤ n) :
    Starts (o.level) (ts ++ o.token :: ts') ((precedence A).binary o c c') := by
  obtain ⟨r, hr, hrun⟩ := h
  obtain ⟨r', hr', hrun'⟩ := h' [.binary c o] (by simpa [Waiting.level, precedence] using ho)
  refine ⟨r', (hr'.mono ho).binary (le_refl _), fun rest outer => ?_⟩
  rw [List.append_assoc, hrun, List.cons_append, run_token hr ho, hrun']

/-- Texts joined by one operator. -/
def joined (o : BinOp) : List (List (Token A)) → List (Token A)
  | [] => []
  | [t] => t
  | t :: t' :: ts => t ++ o.token :: joined o (t' :: ts)

private theorem joined_append (o : BinOp) (t t' : List (Token A)) (ts : List (List (Token A))) :
    joined o ((t ++ o.token :: t') :: ts) = t ++ o.token :: joined o (t' :: ts) := by
  cases ts with
  | nil => rfl
  | cons t'' ts => simp [joined]

private theorem starts_joined {o : BinOp} {tss : List (List (Token A))} {cs : List (Cond A)}
    (h : List.Forall₂ (ReadsIn (o.level)) tss cs)
    (hstart : Starts (o.level) ts c) :
    ReadsAlone (joined o (ts :: tss)) (cs.foldl ((precedence A).binary o) c) := by
  induction h generalizing ts c with
  | nil => exact hstart.alone
  | @cons t c' tss cs hhead htail ih =>
    have hnext := ih (hstart.append hhead (le_refl _))
    rw [joined_append] at hnext
    exact hnext

theorem readsAlone_joined {o : BinOp} (ho : o.level ≤ n)
    {tss : List (List (Token A))} {cs : List (Cond A)} (h : List.Forall₂ (ReadsIn n) tss cs)
    (hts : ReadsIn n ts c) :
    ReadsAlone (joined o (ts :: tss)) (cs.foldl ((precedence A).binary o) c) :=
  starts_joined (h.imp fun _ _ hr => hr.mono ho) (hts.mono ho).starts

theorem ReadsIn.odd (h : ReadsIn BinOp.percent.level ts c) :
    ReadsAlone (ts ++ [.percent, .number 2, .equals, .number 1])
      (.equals (.percent c (.number 2)) (.number 1)) := by
  have hrest : Starts BinOp.percent.level (ts ++ [.percent, .number 2]) (.percent c (.number 2)) :=
    Starts.append (o := .percent) h.starts (readsIn_number _ 2) (le_refl _)
  have htest := (hrest.append (o := .equals) (readsIn_number _ 1) (by decide)).alone
  rw [List.append_assoc] at htest
  exact htest

end Rustango.Query
