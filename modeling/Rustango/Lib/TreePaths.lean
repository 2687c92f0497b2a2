import Mathlib.Data.List.Basic

/-!
# Trees by their paths

A tree whose children have names is known from what stands at each path of names. Two trees whose paths
carry corresponding labels have corresponding roots, children of the same names, and corresponding
children under each name.
-/

namespace Rustango.TreePaths

section
variable {V σ α : Type*} (label : V → α) (Child : V → σ → V → Prop)

/-- `a` is the label at the path. -/
inductive At : V → List σ → α → Prop where
  | here (v : V) : At v [] (label v)
  | child {v c : V} {s : σ} {q : List σ} {a : α} (name : Child v s c) (rest : At c q a) :
      At v (s :: q) a

/-- A finite tree in which no node has two children of one name. -/
inductive Distinct : V → Prop where
  | intro {v : V} (once : ∀ s c c', Child v s c → Child v s c' → c = c')
      (children : ∀ s c, Child v s c → Distinct c) : Distinct v

/-- The paths of the trees are the same and their labels correspond. -/
def Related (ρ : α → α → Prop) (v w : V) : Prop :=
  (∀ q a, At label Child v q a → ∃ b, At label Child w q b ∧ ρ a b) ∧
    ∀ q b, At label Child w q b → ∃ a, At label Child v q a ∧ ρ a b

variable {label Child} {ρ τ : α → α → Prop} {v w c c' : V} {s : σ} {q : List σ} {a b : α}

theorem At.nil_iff : At label Child v [] a ↔ a = label v := by
  constructor
  · intro h
    cases h
    rfl
  · intro h
    rw [h]
    exact .here v

theorem At.cons_iff : At label Child v (s :: q) a ↔ ∃ c, Child v s c ∧ At label Child c q a := by
  constructor
  · intro h
    cases h with
    | child name rest => exact ⟨_, name, rest⟩
  · intro ⟨c, name, rest⟩
    exact .child name rest

theorem Distinct.once (h : Distinct Child v) (hc : Child v s c) (hc' : Child v s c') : c = c' := by
  cases h with
  | intro once _ => exact once s c c' hc hc'

theorem Distinct.child (h : Distinct Child v) (hc : Child v s c) : Distinct Child c := by
  cases h with
  | intro _ children => exact children s c hc

theorem Distinct.at_unique (h : Distinct Child v) (ha : At label Child v q a)
    (hb : At label Child v q b) : a = b := by
  induction q generalizing v with
  | nil => exact (At.nil_iff.mp ha).trans (At.nil_iff.mp hb).symm
  | cons s q ih =>
    obtain ⟨c, hc, ha'⟩ := At.cons_iff.mp ha
    obtain ⟨c', hc', hb'⟩ := At.cons_iff.mp hb
    have hsame := h.once hc hc'
    subst hsame
    exact ih (h.child hc) ha' hb'

/-- Trees are related by their roots and by the children of each name. -/
theorem related_iff (hv : Distinct Child v) (hw : Distinct Child w) :
    Related label Child ρ v w ↔ ρ (label v) (label w) ∧
      (∀ s, (∃ c, Child v s c) ↔ ∃ c, Child w s c) ∧
      ∀ s c c', Child v s c → Child w s c' → Related label Child ρ c c' := by
  constructor
  · intro h
    refine ⟨?_, ?_, ?_⟩
    · obtain ⟨b, hb, hroot⟩ := h.1 [] _ (.here v)
      rw [At.nil_iff.mp hb] at hroot
      exact hroot
    · intro s
      constructor
      · intro ⟨c, hc⟩
        obtain ⟨b, hb, _⟩ := h.1 [s] _ (.child hc (.here c))
        obtain ⟨c', hc', _⟩ := At.cons_iff.mp hb
        exact ⟨c', hc'⟩
      · intro ⟨c, hc⟩
        obtain ⟨a, ha, _⟩ := h.2 [s] _ (.child hc (.here c))
        obtain ⟨c', hc', _⟩ := At.cons_iff.mp ha
        exact ⟨c', hc'⟩
    · intro s c c' hc hc'
      constructor
      · intro q a ha
        obtain ⟨b, hb, hab⟩ := h.1 (s :: q) a (.child hc ha)
        obtain ⟨d, hd, hdb⟩ := At.cons_iff.mp hb
        exact ⟨b, hw.once hd hc' ▸ hdb, hab⟩
      · intro q b hb
        obtain ⟨a, ha, hab⟩ := h.2 (s :: q) b (.child hc' hb)
        obtain ⟨d, hd, hda⟩ := At.cons_iff.mp ha
        exact ⟨a, hv.once hd hc ▸ hda, hab⟩
  · intro ⟨hroot, hnames, hchildren⟩
    constructor
    · intro q a ha
      cases ha with
      | here => exact ⟨_, .here w, hroot⟩
      | @child _ c s q _ hc hrest =>
        obtain ⟨c', hc'⟩ := (hnames s).mp ⟨c, hc⟩
        obtain ⟨b, hb, hab⟩ := (hchildren s c c' hc hc').1 q a hrest
        exact ⟨b, .child hc' hb, hab⟩
    · intro q b hb
      cases hb with
      | here => exact ⟨_, .here v, hroot⟩
      | @child _ c' s q _ hc' hrest =>
        obtain ⟨c, hc⟩ := (hnames s).mpr ⟨c', hc'⟩
        obtain ⟨a, ha, hab⟩ := (hchildren s c c' hc hc').2 q b hrest
        exact ⟨a, .child hc ha, hab⟩

/-- A further demand on the labels is one on the labels at each path. -/
theorem related_and (hw : Distinct Child w) :
    Related label Child (fun a b => ρ a b ∧ τ a b) v w ↔
      Related label Child ρ v w ∧
        ∀ q a b, At label Child v q a → At label Child w q b → τ a b := by
  constructor
  · intro h
    refine ⟨⟨?_, ?_⟩, ?_⟩
    · intro q a ha
      obtain ⟨b, hb, hab⟩ := h.1 q a ha
      exact ⟨b, hb, hab.1⟩
    · intro q b hb
      obtain ⟨a, ha, hab⟩ := h.2 q b hb
      exact ⟨a, ha, hab.1⟩
    · intro q a b ha hb
      obtain ⟨b', hb', hab⟩ := h.1 q a ha
      exact hw.at_unique hb' hb ▸ hab.2
  · intro ⟨h, hlabels⟩
    constructor
    · intro q a ha
      obtain ⟨b, hb, hab⟩ := h.1 q a ha
      exact ⟨b, hb, hab, hlabels q a b ha hb⟩
    · intro q b hb
      obtain ⟨a, ha, hab⟩ := h.2 q b hb
      exact ⟨a, ha, hab, hlabels q a b ha hb⟩

end

end Rustango.TreePaths
