import Mathlib.Data.Option.Basic

/-!
# Runs

A system that takes one step for each event, its runs under a condition on the steps, and the
induction that carries an invariant along a run.
-/

namespace Rustango.Runs

variable {S E : Type*} {step : E → S → Option S}

/-- `t` is reached from `s`, every step taken where `ok` allows it. -/
inductive Reach (step : E → S → Option S) (ok : E → S → Prop) (s : S) : S → Prop where
  | start : Reach step ok s s
  | next {t u : S} (e : E) (run : Reach step ok s t) (allowed : ok e t) (taken : step e t = some u) :
      Reach step ok s u

variable {ok ok' : E → S → Prop} {s t u : S}

theorem Reach.trans (h : Reach step ok s t) (h' : Reach step ok t u) : Reach step ok s u := by
  induction h' with
  | start => exact h
  | next e _ allowed taken ih => exact .next e ih allowed taken

theorem Reach.mono (hok : ∀ e x, ok e x → ok' e x) (h : Reach step ok s t) :
    Reach step ok' s t := by
  induction h with
  | start => exact .start
  | next e _ allowed taken ih => exact .next e ih (hok e _ allowed) taken

/-- What holds at the start and is kept by every allowed step holds wherever a run leads. -/
theorem Reach.invariant {P : S → Prop} (h : Reach step ok s t) (start : P s)
    (keep : ∀ e x y, ok e x → step e x = some y → P x → P y) : P t := by
  induction h with
  | start => exact start
  | next e _ allowed taken ih => exact keep e _ _ allowed taken ih

/-- The events of a run, taken one after another. -/
def steps (step : E → S → Option S) : List E → S → Option S
  | [], s => some s
  | e :: es, s => (step e s).bind (steps step es)

theorem Reach.of_steps {es : List E} (h : steps step es s = some t)
    (allowed : ∀ e ∈ es, ∀ x, ok e x) : Reach step ok s t := by
  induction es generalizing s with
  | nil => exact Option.some.inj h ▸ .start
  | cons e es ih =>
    obtain ⟨x, hx, hrest⟩ := Option.bind_eq_some_iff.mp h
    have hstart : Reach step ok s x := .next e .start (allowed e List.mem_cons_self s) hx
    exact hstart.trans (ih hrest fun e he => allowed e (List.mem_cons_of_mem _ he))

/-- A step that is taken only where it is allowed. -/
def guarded (step : E → S → Option S) (ok : E → S → Prop) [∀ e s, Decidable (ok e s)] (e : E) (s : S) :
    Option S :=
  if ok e s then step e s else none

theorem Reach.of_guarded [∀ e s, Decidable (ok e s)] {es : List E}
    (h : steps (guarded step ok) es s = some t) : Reach step ok s t := by
  induction es generalizing s with
  | nil => exact Option.some.inj h ▸ .start
  | cons e es ih =>
    obtain ⟨x, hx, hrest⟩ := Option.bind_eq_some_iff.mp h
    by_cases hok : ok e s
    · have htaken : step e s = some x := by rwa [guarded, if_pos hok] at hx
      exact (Reach.start.next e hok htaken).trans (ih hrest)
    · rw [guarded, if_neg hok] at hx
      cases hx

/-- `t` is reached from `s` by the events, every step taken where `ok` allows it. -/
def Along (step : E → S → Option S) (ok : E → S → Prop) : List E → S → S → Prop
  | [], s, t => s = t
  | e :: es, s, t => ∃ x, ok e s ∧ step e s = some x ∧ Along step ok es x t

theorem Along.related {R : S → S → Prop}
    (keep : ∀ e x x' y y', R x x' → ok e x → ok e x' → step e x = some y → step e x' = some y' → R y y')
    {es : List E} {s' t' : S} (h : Along step ok es s t) (h' : Along step ok es s' t') (hR : R s s') :
    R t t' := by
  induction es generalizing s s' with
  | nil => exact h ▸ h' ▸ hR
  | cons e es ih =>
    obtain ⟨x, hok, hx, hrest⟩ := h
    obtain ⟨x', hok', hx', hrest'⟩ := h'
    exact ih hrest hrest' (keep e s s' x x' hR hok hok' hx hx')

end Rustango.Runs
