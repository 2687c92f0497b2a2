import Mathlib.Data.List.Infix

/-!
# Wildcard patterns

A pattern is a list of single characters, each from a class, and of gaps. Pattern languages differ
in how they write one down; what is matched is the same.
-/

namespace Rustango.Wildcards

/-- One character of a class, or any number of characters. -/
inductive Wild (α : Type*) where
  | one (class_ : α → Bool)
  | many

variable {α : Type*}

/-- Exactly this character. -/
def Wild.lit [DecidableEq α] (c : α) : Wild α := .one fun x => x = c

/-- Any one character. -/
def Wild.any : Wild α := .one fun _ => true

def Matches : List (Wild α) → List α → Bool
  | [], t => t.isEmpty
  | .one _ :: _, [] => false
  | .one class_ :: w, c :: t => class_ c && Matches w t
  | .many :: w, t => t.tails.any (Matches w)

section Equations
-- Its equations are derived here, once for all the proofs that unfold it.
attribute [local simp] Matches
end Equations

variable {w : List (Wild α)} {t : List α}

theorem matches_nil : Matches [] t = true ↔ t = [] := by
  simp [Matches]

theorem matches_one {class_ : α → Bool} :
    Matches (.one class_ :: w) t = true ↔ ∃ c v, t = c :: v ∧ class_ c = true ∧ Matches w v = true := by
  cases t with
  | nil => simp [Matches]
  | cons c t => simp [Matches]

theorem matches_many :
    Matches (.many :: w) t = true ↔ ∃ u v, t = u ++ v ∧ Matches w v = true := by
  simp only [Matches, List.any_eq_true, List.mem_tails]
  constructor
  · rintro ⟨v, ⟨u, rfl⟩, hv⟩
    exact ⟨u, v, rfl, hv⟩
  · rintro ⟨u, v, rfl, hv⟩
    exact ⟨v, ⟨u, rfl⟩, hv⟩

theorem matches_gap : Matches [Wild.many] t = true := by
  rw [matches_many]
  exact ⟨t, [], (List.append_nil t).symm, rfl⟩

section Literals
variable [DecidableEq α] {s : List α}

theorem matches_lit {c : α} :
    Matches (.lit c :: w) t = true ↔ ∃ v, t = c :: v ∧ Matches w v = true := by
  rw [Wild.lit, matches_one]
  constructor
  · rintro ⟨x, v, rfl, hx, hv⟩
    exact ⟨v, by rw [of_decide_eq_true hx], hv⟩
  · rintro ⟨v, rfl, hv⟩
    exact ⟨c, v, rfl, decide_eq_true rfl, hv⟩

theorem matches_lits :
    Matches (s.map .lit ++ w) t = true ↔ ∃ v, t = s ++ v ∧ Matches w v = true := by
  induction s generalizing t with
  | nil => simp
  | cons c s ih =>
    simp only [List.map_cons, List.cons_append, matches_lit, ih]
    constructor
    · rintro ⟨_, rfl, v, rfl, hv⟩
      exact ⟨v, rfl, hv⟩
    · rintro ⟨v, rfl, hv⟩
      exact ⟨s ++ v, rfl, v, rfl, hv⟩

theorem matches_startsWith : Matches (s.map .lit ++ [.many]) t = true ↔ s <+: t := by
  rw [matches_lits]
  constructor
  · rintro ⟨v, rfl, -⟩
    exact List.prefix_append s v
  · rintro ⟨v, rfl⟩
    exact ⟨v, rfl, matches_gap⟩

theorem matches_endsWith : Matches (.many :: s.map .lit) t = true ↔ s <:+ t := by
  have hlits : ∀ v : List α, Matches (s.map .lit) v = true ↔ v = s := by
    intro v
    have h := matches_lits (w := []) (s := s) (t := v)
    simpa [matches_nil] using h
  rw [matches_many]
  constructor
  · rintro ⟨u, v, rfl, hv⟩
    rw [(hlits v).mp hv]
    exact List.suffix_append u s
  · rintro ⟨u, rfl⟩
    exact ⟨u, s, rfl, (hlits s).mpr rfl⟩

theorem matches_contains : Matches (.many :: (s.map .lit ++ [.many])) t = true ↔ s <:+: t := by
  rw [matches_many]
  constructor
  · rintro ⟨u, v, rfl, hv⟩
    obtain ⟨r, rfl⟩ := matches_startsWith.mp hv
    exact ⟨u, r, List.append_assoc u s r⟩
  · rintro ⟨u, r, rfl⟩
    exact ⟨u, s ++ r, List.append_assoc u s r, matches_startsWith.mpr (List.prefix_append s r)⟩

end Literals

theorem exists_matches (h : ∀ class_, Wild.one class_ ∈ w → ∃ c, class_ c = true) :
    ∃ t, Matches w t = true := by
  induction w with
  | nil => exact ⟨[], rfl⟩
  | cons x w ih =>
    obtain ⟨v, hv⟩ := ih fun class_ hmem => h class_ (List.mem_cons_of_mem x hmem)
    cases x with
    | many => exact ⟨v, matches_many.mpr ⟨[], v, rfl, hv⟩⟩
    | one class_ =>
      obtain ⟨c, hc⟩ := h class_ List.mem_cons_self
      exact ⟨c :: v, matches_one.mpr ⟨c, v, rfl, hc, hv⟩⟩

end Rustango.Wildcards
