import Rustango.Writer.Tree
import Mathlib.Tactic.SplitIfs

/-!
# Who takes the slots

What a writer does to the slots of the buffer: it takes some of them, each with one column in the
text it appends, and leaves the others as they were.
-/

namespace Rustango.Writer

open Rustango.Query (Dialect DistinctMode)

variable {L : Lang}

/-- The number of open scopes where the text has the column of `slot`. -/
def hiddenDepths (slot : Slot) (text : Text L) : List Nat :=
  text.filterMap fun t => match t.2 with
    | .hidden s => if s = slot then some t.1 else none
    | .word _ => none

@[simp] theorem hiddenDepths_append (slot : Slot) (t t' : Text L) :
    hiddenDepths slot (t ++ t') = hiddenDepths slot t ++ hiddenDepths slot t' :=
  List.filterMap_append

@[simp] theorem hiddenDepths_words (slot : Slot) (e : Env L) (ws : List (Word L)) :
    hiddenDepths slot (e.words ws) = [] := by
  induction ws with
  | nil => rfl
  | cons w ws ih => exact ih

private theorem hiddenDepths_hidden (slot s : Slot) (n : Nat) :
    hiddenDepths slot [((n, .hidden s) : Nat × Tok L)] = if s = slot then [n] else [] := by
  unfold hiddenDepths
  split_ifs with h <;> simp [h]

structure Slots (L : Lang) where
  total : Option (Env L → Except SqlError (Text L))
  childCount : Option ChildCount

def Sql.slots (b : Sql L) : Slots L := ⟨b.total, b.childCount⟩

namespace Slots
variable (s : Slots L)

def has : Slot → Bool
  | .total => s.total.isSome
  | .childCount => s.childCount.isSome

def taken (t : Slot → Bool) : Slots L :=
  ⟨if t .total then none else s.total, if t .childCount then none else s.childCount⟩

/-- The count in the slot is a statement of its own, with no column of a slot. -/
def Clean : Prop :=
  ∀ count, s.total = some count → ∀ e text, count e = .ok text → ∀ k, hiddenDepths k text = []

theorem taken_taken (t u : Slot → Bool) : (s.taken t).taken u = s.taken fun k => t k || u k := by
  simp only [taken, Slots.mk.injEq]
  constructor
  · by_cases h : t .total = true <;> simp [h]
  · by_cases h : t .childCount = true <;> simp [h]

theorem has_taken (t : Slot → Bool) (k : Slot) : (s.taken t).has k = (s.has k && !t k) := by
  cases k
  · unfold taken has
    cases t .total <;> simp
  · unfold taken has
    cases t .childCount <;> simp

variable {s}

theorem Clean.taken (h : s.Clean) (t : Slot → Bool) : (s.taken t).Clean := by
  intro count hcount
  have hset : s.total = some count := by
    by_cases ht : t .total = true
    · simp [Slots.taken, ht] at hcount
    · simpa [Slots.taken, ht] using hcount
  exact h count hset

end Slots

/-- Where a column shows up: nowhere, or once with at least `least` scopes open. -/
def Shown (least : Nat) : Bool → List Nat → Prop
  | false, ds => ds = []
  | true, ds => ∃ n, least ≤ n ∧ ds = [n]

/-- Under `e` the writer `a` takes the slots of `t` that are set, and writes the column of each once,
with at least `least` scopes open. -/
def Flow (e : Env L) (least : Nat) (a : Act L) (t : Slot → Bool) : Prop :=
  ∀ b b', b.slots.Clean → a e b = .ok b' → b'.slots = b.slots.taken t ∧
    ∃ text, b'.sql = b.sql ++ text ∧ ∀ k, Shown least (b.slots.has k && t k) (hiddenDepths k text)

def quiet : Slot → Bool := fun _ => false

namespace Flow
variable {e : Env L} {least : Nat} {a : Act L} {as : List (Act L)} {t u : Slot → Bool}

open Act

theorem congr (h : Flow e least a t) (htu : ∀ k, t k = u k) : Flow e least a u := by
  have heq : t = u := funext htu
  rw [← heq]
  exact h

theorem weaken {m : Nat} (h : Flow e m a t) (hm : least ≤ m) : Flow e least a t := by
  intro b b' hclean hrun
  have hflow := h b b' hclean hrun
  refine ⟨hflow.1, ?_⟩
  obtain ⟨text, htext, hshown⟩ := hflow.2
  refine ⟨text, htext, fun k => ?_⟩
  have hk := hshown k
  cases hset : b.slots.has k && t k with
  | false =>
    rw [hset] at hk
    exact hk
  | true =>
    rw [hset] at hk
    obtain ⟨n, hn, hds⟩ := hk
    exact ⟨n, by omega, hds⟩

theorem emit (ws : Env L → List (Word L)) : Flow e least (Act.emit ws) quiet := by
  intro b b' _ hrun
  cases hrun
  refine ⟨rfl, e.words (ws e), rfl, fun k => ?_⟩
  rw [hiddenDepths_words]
  simp [quiet, Shown]

theorem fail (error : SqlError) : Flow e least (Act.fail error) t := by
  intro b b' _ hrun
  cases hrun

theorem done : Flow e least (seq ([] : List (Act L))) quiet := by
  intro b b' _ hrun
  cases hrun
  refine ⟨rfl, [], (List.append_nil _).symm, fun k => ?_⟩
  simp [quiet, Shown, hiddenDepths]

theorem cons (h : Flow e least a t) (hs : Flow e least (seq as) u) :
    Flow e least (seq (a :: as)) fun k => t k || u k := by
  intro b b' hclean hrun
  simp only [seq, bind, Except.bind] at hrun
  cases hmid : a e b with
  | error error =>
    rw [hmid] at hrun
    cases hrun
  | ok m =>
    rw [hmid] at hrun
    obtain ⟨hslots, text, htext, hshown⟩ := h b m hclean hmid
    have hmclean : m.slots.Clean := by
      rw [hslots]
      exact hclean.taken t
    obtain ⟨hslots', text', htext', hshown'⟩ := hs m b' hmclean hrun
    refine ⟨by rw [hslots', hslots, Slots.taken_taken], text ++ text', ?_, fun k => ?_⟩
    · rw [htext', htext, List.append_assoc]
    · have hk := hshown k
      have hk' := hshown' k
      rw [hslots, Slots.has_taken] at hk'
      rw [hiddenDepths_append]
      cases hset : b.slots.has k <;> cases ht : t k <;> cases hu : u k <;>
        simp_all [Shown]

theorem cons_emit (ws : Env L → List (Word L)) (hs : Flow e least (seq as) u) :
    Flow e least (seq (Act.emit ws :: as)) u :=
  ((emit ws).cons hs).congr fun _ => Bool.false_or _

theorem cons_text (s : String) (hs : Flow e least (seq as) u) :
    Flow e least (seq (text s :: as)) u := cons_emit _ hs

theorem one (h : Flow e least a t) : Flow e least (seq [a]) t :=
  (h.cons done).congr fun _ => Bool.or_false _

theorem cond {c : Bool} (h : Flow e least a t) :
    Flow e least (Act.cond c a) fun k => c && t k := by
  cases c with
  | false => exact done
  | true => exact h.congr fun _ => (Bool.true_and _).symm

theorem map {α : Type} {xs : List α} {f : α → Act L} {t : α → Slot → Bool}
    (h : ∀ x ∈ xs, Flow e least (f x) (t x)) :
    Flow e least (seq (xs.map f)) fun k => xs.any fun x => t x k := by
  induction xs with
  | nil => exact done
  | cons x xs ih =>
    have htail := ih fun y hy => h y (List.mem_cons_of_mem _ hy)
    exact (h x List.mem_cons_self).cons htail

theorem intersperse {α : Type} {xs : List α} {f : α → Act L} {t : α → Slot → Bool} (sep : String)
    (h : ∀ x ∈ xs, Flow e least (f x) (t x)) :
    Flow e least (seq ((xs.map f).intersperse (text sep))) fun k => xs.any fun x => t x k := by
  induction xs with
  | nil => exact done
  | cons x xs ih =>
    have hx := h x List.mem_cons_self
    have htail := ih fun y hy => h y (List.mem_cons_of_mem _ hy)
    cases xs with
    | nil => exact hx.one.congr fun k => (Bool.or_false _).symm
    | cons y ys => exact hx.cons (cons_text sep htail)

theorem takeTotal (hleast : least ≤ e.depth) : Flow e least Act.takeTotal fun k => decide (k = .total) := by
  intro b b' hclean hrun
  unfold Act.takeTotal at hrun
  cases htotal : b.total with
  | none =>
    rw [htotal] at hrun
    cases hrun
    refine ⟨?_, [], (List.append_nil _).symm, fun k => ?_⟩
    · simp [Sql.slots, Slots.taken, htotal]
    · cases k <;> simp [Sql.slots, Slots.has, htotal, Shown, hiddenDepths]
  | some count =>
    rw [htotal] at hrun
    simp only [bind, Except.bind] at hrun
    cases hcount : count e with
    | error error =>
      rw [hcount] at hrun
      cases hrun
    | ok text =>
      rw [hcount] at hrun
      cases hrun
      have htext : ∀ k, hiddenDepths k text = [] := hclean count htotal e text hcount
      refine ⟨rfl, _, rfl, fun k => ?_⟩
      simp only [hiddenDepths_append, hiddenDepths_words, htext, hiddenDepths_hidden]
      cases k with
      | total => simpa [Sql.slots, Slots.has, htotal, Shown] using hleast
      | childCount => simp [Shown]

theorem takeChildCount (parent : String) (hleast : least ≤ e.depth) :
    Flow e least (Act.takeChildCount parent) fun k => decide (k = .childCount) := by
  intro b b' _ hrun
  unfold Act.takeChildCount at hrun
  cases hchild : b.childCount with
  | none =>
    rw [hchild] at hrun
    cases hrun
    refine ⟨?_, [], (List.append_nil _).symm, fun k => ?_⟩
    · simp [Sql.slots, Slots.taken, hchild]
    · cases k <;> simp [Sql.slots, Slots.has, hchild, Shown, hiddenDepths]
  | some child =>
    rw [hchild] at hrun
    cases hrun
    refine ⟨rfl, _, rfl, fun k => ?_⟩
    simp only [hiddenDepths_append, hiddenDepths_words, hiddenDepths_hidden]
    cases k with
    | total => simp [Shown]
    | childCount => simpa [Sql.slots, Slots.has, hchild, Shown] using hleast

theorem takeLabel {f : Bool → Act L} (h : ∀ label, Flow e least (f label) t) :
    Flow e least (Act.takeLabel f) t := by
  intro b b' hclean hrun
  exact h b.labelModelCols { b with labelModelCols := false } b' hclean hrun

theorem setLabel : Flow e least Act.setLabel quiet := by
  intro b b' _ hrun
  cases hrun
  refine ⟨rfl, [], (List.append_nil _).symm, fun k => ?_⟩
  simp [quiet, Shown, hiddenDepths]

end Flow

end Rustango.Writer
