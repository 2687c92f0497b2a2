import Mathlib.Data.List.Forall2

/-!
# Calls that interleave

A call is a program of atomic operations on a shared state, and other calls take theirs in between.
What a call holds between two operations is a token; a protocol says how each operation, with its
answer, moves the token. A call that follows the protocol is known by its token alone.
-/

namespace Rustango.Threads

/-- A call that takes one atomic operation after another. -/
inductive Prog (Op : Type) (Ans : Op → Type) (α : Type) where
  | ret (a : α)
  | op (o : Op) (next : Ans o → Prog Op Ans α)

namespace Prog
variable {Op : Type} {Ans : Op → Type} {α β : Type}

def bind (p : Prog Op Ans α) (f : α → Prog Op Ans β) : Prog Op Ans β :=
  match p with
  | ret a => f a
  | op o next => op o fun a => (next a).bind f

instance : Monad (Prog Op Ans) where
  pure := ret
  bind := bind

/-- One operation. -/
def call (o : Op) : Prog Op Ans (Ans o) := op o ret

/-- The operation the program takes next. -/
def op? : Prog Op Ans α → Option Op
  | ret _ => none
  | op o _ => some o

/-- What the program returned, if it did. -/
def result? : Prog Op Ans α → Option α
  | ret a => some a
  | op _ _ => none

theorem result?_eq_some {p : Prog Op Ans α} {a : α} : p.result? = some a ↔ p = ret a := by
  cases p with
  | ret b => simp [result?]
  | op o next => simp [result?]

/-- Every result the program may return. -/
def All (P : α → Prop) : Prog Op Ans α → Prop
  | ret a => P a
  | op _ next => ∀ a, (next a).All P

section Protocol
variable {Tok : Type} (moves : Tok → (o : Op) → Ans o → Tok → Prop)

/-- The program moves the token as the protocol allows, whatever it is answered, and ends with a
result and a token as `Q` says. -/
def Follows (Q : α → Tok → Prop) : Prog Op Ans α → Tok → Prop
  | ret a, t => Q a t
  | op o next, t => ∀ a, ∃ t', moves t o a t' ∧ (next a).Follows Q t'

variable {moves} {Q : β → Tok → Prop}

theorem Follows.bind {P : α → Tok → Prop} {p : Prog Op Ans α} {f : α → Prog Op Ans β} {t : Tok}
    (h : p.Follows moves P t) (hf : ∀ a t', P a t' → (f a).Follows moves Q t') :
    (p >>= f).Follows moves Q t := by
  induction p generalizing t with
  | ret a => exact hf a t h
  | op o next ih =>
    intro a
    obtain ⟨t', hmove, hnext⟩ := h a
    exact ⟨t', hmove, ih a hnext⟩

end Protocol

theorem All.bind {P : β → Prop} {p : Prog Op Ans α} {f : α → Prog Op Ans β}
    (h : ∀ a, (f a).All P) : (p >>= f).All P := by
  induction p with
  | ret a => exact h a
  | op o next ih => exact fun a => ih a

end Prog

section Pool
variable {Tok Thread : Type*} {R : Tok → Thread → Prop}

theorem forall₂_getElem {toks : List Tok} {threads : List Thread} (h : List.Forall₂ R toks threads)
    {i : Nat} {th : Thread} (hi : threads[i]? = some th) : ∃ tok, toks[i]? = some tok ∧ R tok th := by
  induction h generalizing i with
  | nil => cases hi
  | cons hhead hrest ih =>
    cases i with
    | zero => exact ⟨_, rfl, Option.some.inj hi ▸ hhead⟩
    | succ i => exact ih hi

theorem forall₂_mem_left {toks : List Tok} {threads : List Thread} (h : List.Forall₂ R toks threads)
    {tok : Tok} (ht : tok ∈ toks) : ∃ th ∈ threads, R tok th := by
  induction h with
  | nil => cases ht
  | cons hhead hrest ih =>
    rcases List.mem_cons.mp ht with rfl | hmem
    · exact ⟨_, List.mem_cons_self, hhead⟩
    · obtain ⟨th, hth, hR⟩ := ih hmem
      exact ⟨th, List.mem_cons_of_mem _ hth, hR⟩

/-- The call at a place of the pool and its token. Where the step of one call weakens what is known of
the others, it may be replaced, or taken out. -/
theorem forall₂_step {R' : Tok → Thread → Prop} (hR : ∀ tok th, R tok th → R' tok th)
    {toks : List Tok} {threads : List Thread} (h : List.Forall₂ R toks threads) {i : Nat} {th : Thread}
    (hi : threads[i]? = some th) :
    ∃ before tok after, toks = before ++ tok :: after ∧ R tok th ∧
      (∀ tok' th', R' tok' th' → List.Forall₂ R' (before ++ tok' :: after) (threads.set i th')) ∧
      List.Forall₂ R' (before ++ after) (threads.eraseIdx i) := by
  induction h generalizing i with
  | nil => cases hi
  | @cons t u ts us htu hrest ih =>
    cases i with
    | zero =>
      obtain rfl : u = th := Option.some.inj hi
      have hrest' : List.Forall₂ R' ts us := hrest.imp hR
      exact ⟨[], t, ts, rfl, htu, fun t' u' h' => .cons h' hrest', hrest'⟩
    | succ i =>
      obtain ⟨before, tok, after, rfl, hRtok, hset, herase⟩ := ih hi
      exact ⟨t :: before, tok, after, rfl, hRtok, fun t' u' h' => .cons (hR t u htu) (hset t' u' h'),
        .cons (hR t u htu) herase⟩

theorem forall₂_at {toks : List Tok} {threads : List Thread} (h : List.Forall₂ R toks threads) {i : Nat}
    {th : Thread} (hi : threads[i]? = some th) :
    ∃ before tok after, toks = before ++ tok :: after ∧ R tok th ∧
      (∀ tok' th', R tok' th' → List.Forall₂ R (before ++ tok' :: after) (threads.set i th')) ∧
      List.Forall₂ R (before ++ after) (threads.eraseIdx i) :=
  forall₂_step (fun _ _ hR => hR) h hi

theorem mem_set_or {α : Type*} {l : List α} {i : Nat} {x y u : α} (hi : l[i]? = some x) (hu : u ∈ l) :
    u = x ∨ u ∈ l.set i y := by
  obtain ⟨j, hj⟩ := List.mem_iff_getElem?.mp hu
  by_cases hij : i = j
  · subst hij
    exact .inl (Option.some.inj (hj.symm.trans hi))
  · exact .inr (List.mem_iff_getElem?.mpr ⟨j, by rw [List.getElem?_set_ne hij, hj]⟩)

theorem mem_eraseIdx_or {α : Type*} {l : List α} {i : Nat} {x u : α} (hi : l[i]? = some x)
    (hu : u ∈ l) : u = x ∨ u ∈ l.eraseIdx i := by
  obtain ⟨j, hj⟩ := List.mem_iff_getElem?.mp hu
  by_cases hij : i = j
  · subst hij
    exact .inl (Option.some.inj (hj.symm.trans hi))
  · exact .inr (List.mem_eraseIdx_iff_getElem?.mpr ⟨j, Ne.symm hij, hj⟩)

end Pool

end Rustango.Threads
