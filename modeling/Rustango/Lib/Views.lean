import Mathlib.Data.Prod.Basic
import Mathlib.Data.List.Basic

/-!
# Views of a shared state

Several views act on one state. When a view's own actions do to what it reads what they would do
alone, and the other views' actions leave what it reads, a run answers the view as if it were alone.
-/

namespace Rustango.Views

variable {View State Own Act Reply : Type*}

/-- A run of the views' actions: who was told what, and the state it ends in. -/
def answers (step : View → Act → State → Reply × State) :
    List (View × Act) → State → List (View × Reply) × State
  | [], s => ([], s)
  | (v, a) :: calls, s =>
    let told := step v a s
    let rest := answers step calls told.2
    ((v, told.1) :: rest.1, rest.2)

/-- A run of one actor. -/
def alone (act : Act → Own → Reply × Own) : List Act → Own → List Reply × Own
  | [], o => ([], o)
  | a :: acts, o =>
    let told := act a o
    let rest := alone act acts told.2
    (told.1 :: rest.1, rest.2)

variable [DecidableEq View]

/-- The second halves of the pairs that are `v`'s. -/
def ofView {α : Type*} (v : View) (l : List (View × α)) : List α :=
  (l.filter fun p => p.1 = v).map Prod.snd

theorem ofView_cons_self {α : Type*} (v : View) (a : α) (l : List (View × α)) :
    ofView v ((v, a) :: l) = a :: ofView v l := by
  simp [ofView]

theorem ofView_cons_ne {α : Type*} {v w : View} (h : w ≠ v) (a : α) (l : List (View × α)) :
    ofView v ((w, a) :: l) = ofView v l := by
  simp [ofView, h]

/-- A view that the others leave alone is answered as if it were alone. -/
theorem answers_eq_alone {step : View → Act → State → Reply × State} {v : View}
    {read : State → Own} {act : Act → Own → Reply × Own} {calls : List (View × Act)}
    (own : ∀ a s, (v, a) ∈ calls → (step v a s).1 = (act a (read s)).1 ∧
      read (step v a s).2 = (act a (read s)).2)
    (others : ∀ w a s, (w, a) ∈ calls → w ≠ v → read (step w a s).2 = read s) (s : State) :
    ofView v (answers step calls s).1 = (alone act (ofView v calls) (read s)).1 ∧
      read (answers step calls s).2 = (alone act (ofView v calls) (read s)).2 := by
  induction calls generalizing s with
  | nil => exact ⟨rfl, rfl⟩
  | cons call calls ih =>
    obtain ⟨w, a⟩ := call
    have hrest := ih (fun b t hb => own b t (List.mem_cons_of_mem _ hb))
      (fun u b t hb => others u b t (List.mem_cons_of_mem _ hb)) (step w a s).2
    rw [answers]
    by_cases hw : w = v
    · subst hw
      obtain ⟨htold, hread⟩ := own a s List.mem_cons_self
      rw [hread] at hrest
      rw [ofView_cons_self, ofView_cons_self, alone, hrest.1, hrest.2, htold]
      exact ⟨rfl, rfl⟩
    · rw [others w a s List.mem_cons_self hw] at hrest
      rw [ofView_cons_ne hw, ofView_cons_ne hw]
      exact hrest

end Rustango.Views
