import Mathlib.Logic.Function.Basic
import Mathlib.Data.Option.Basic

/-!
# Maps that lose what is dead

A map of entries, some of which are dead at a time, and a copy of it that has lost some of the dead ones. A read
of what is not dead does not tell them apart.
-/

namespace Rustango.Expiring

variable {κ α : Type*} {dead : α → Prop} {m m' : κ → Option α}

/-- `m'` is `m` less some entries that are dead. -/
def Loses (dead : α → Prop) (m m' : κ → Option α) : Prop :=
  ∀ k, m' k = m k ∨ m' k = none ∧ ∀ a ∈ m k, dead a

theorem Loses.refl (dead : α → Prop) (m : κ → Option α) : Loses dead m m := fun _ => .inl rfl

theorem Loses.eq_none (h : Loses dead m m') {k : κ} (hk : m k = none) : m' k = none := by
  rcases h k with heq | ⟨heq, -⟩
  · rw [heq, hk]
  · exact heq

theorem Loses.eq_some (h : Loses dead m m') {k : κ} {a : α} (hk : m k = some a) (hlive : ¬ dead a) : m' k = some a := by
  rcases h k with heq | ⟨-, hdead⟩
  · rw [heq, hk]
  · exact absurd (hdead a hk) hlive

end Rustango.Expiring
