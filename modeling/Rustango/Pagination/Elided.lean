import Rustango.Pagination.Pages

/-!
# The elided page range

`get_elided_page_range` of `pagination.rs`: the pages up to the current one and those behind it, each half
with a gap or without, and when the two halves show what they are to show.
-/

namespace Rustango.Pagination

inductive PageMark
  | number (n : Nat)
  | ellipsis
deriving DecidableEq

/-- `a..=b`. -/
def upTo (a b : Nat) : List Nat := List.range' a (b + 1 - a)

namespace Paginator
variable (p : Paginator)

/-- An invalid number is the first page. -/
def currentPage (number : Nat) : Nat :=
  match p.validateNumber number with
  | .ok number => number
  | .error _ => 1

def marks (ns : List Nat) : List PageMark := ns.map .number

def threshold (onEachSide onEnds : Nat) : Nat := min (saturatingAdd onEachSide onEnds * 2) usizeMax

def leftGapTrigger (onEachSide onEnds : Nat) : Nat :=
  saturatingAdd (saturatingAdd (saturatingAdd 1 onEachSide) onEnds) 1

def leftMarks (number onEachSide onEnds : Nat) : List PageMark :=
  if leftGapTrigger onEachSide onEnds < number then
    marks (upTo 1 onEnds) ++ .ellipsis :: marks (upTo (number - onEachSide) number)
  else marks (upTo 1 number)

def rightMarks (last number onEachSide onEnds : Nat) : Option (List PageMark) :=
  if number < last - onEachSide - onEnds - 1 then do
    let near := marks (upTo (← checkedAdd number 1) (← checkedAdd number onEachSide))
    let first ← checkedSub (← checkedAdd last 1) (min onEnds last)
    return near ++ .ellipsis :: marks (upTo first last)
  else do return marks (upTo (← checkedAdd number 1) last)

/-- `none` where a sum overflows. -/
def getElidedPageRange (number onEachSide onEnds : Nat) : Option (List PageMark) :=
  let last := p.numPages
  if last = 0 then some []
  else
    let number := p.currentPage number
    if last ≤ threshold onEachSide onEnds then some (marks (upTo 1 last))
    else (rightMarks last number onEachSide onEnds).map fun right => leftMarks number onEachSide onEnds ++ right

end Paginator

def numbersOf (ms : List PageMark) : List Nat :=
  ms.filterMap fun
    | .number n => some n
    | .ellipsis => none

/-- The numbers with one ellipsis in each gap: behind `prev`, between them, and up to `last`. -/
def withGaps (last : Nat) : Nat → List Nat → List PageMark
  | prev, [] => if prev < last then [.ellipsis] else []
  | prev, n :: ns =>
    if prev + 1 < n then .ellipsis :: .number n :: withGaps last n ns else .number n :: withGaps last n ns

/-- The marks of pages 1 to `last` around page `number`. -/
structure Shows (last number onEachSide onEnds : Nat) (ms : List PageMark) : Prop where
  increasing : (numbersOf ms).Pairwise (· < ·)
  inRange : ∀ n ∈ numbersOf ms, 1 ≤ n ∧ n ≤ last
  current : number ∈ numbersOf ms
  near : ∀ n, 1 ≤ n → n ≤ last → number ≤ n + onEachSide → n ≤ number + onEachSide → n ∈ numbersOf ms
  ends : ∀ n, 1 ≤ n → n ≤ last → n ≤ onEnds ∨ last < n + onEnds → n ∈ numbersOf ms
  gaps : ms = withGaps last 0 (numbersOf ms)

namespace Paginator
variable (p : Paginator)

/-- The range is listed and shows what it is to show. -/
def RangeShown (number onEachSide onEnds : Nat) : Prop :=
  ∃ ms, p.getElidedPageRange number onEachSide onEnds = some ms ∧
    (p.numPages = 0 → ms = []) ∧
    (p.numPages ≠ 0 → Shows p.numPages (p.currentPage number) onEachSide onEnds ms)

/-- The ends reach into the window where only the other half has a gap, and no sum overflows. -/
def Fits (last number onEachSide onEnds : Nat) : Prop :=
  last ≤ 2 * (onEachSide + onEnds) ∨
    (number + onEachSide + onEnds + 1 < last → last < usizeMax ∧
      (number ≤ onEachSide + onEnds + 2 → onEnds ≤ number + onEachSide)) ∧
    (last ≤ number + onEachSide + onEnds + 1 → number < usizeMax ∧
      (onEachSide + onEnds + 2 < number → number + onEnds ≤ last + 1 + onEachSide))

@[simp] theorem mem_upTo (a b n : Nat) : n ∈ upTo a b ↔ a ≤ n ∧ n ≤ b := by
  simp only [upTo, List.mem_range'_1]
  omega

theorem pairwise_upTo (a b : Nat) : (upTo a b).Pairwise (· < ·) := List.pairwise_lt_range'

@[simp] theorem numbersOf_marks (ns : List Nat) : numbersOf (marks ns) = ns := by
  induction ns with
  | nil => rfl
  | cons n ns ih => simp [numbersOf, marks]

theorem upTo_cons (a b : Nat) (h : a ≤ b) : upTo a b = a :: upTo (a + 1) b := by
  have hsize : b + 1 - a = b + 1 - (a + 1) + 1 := by omega
  rw [upTo, hsize, List.range'_succ, upTo]

theorem upTo_nil (a b : Nat) (h : b < a) : upTo a b = [] := by
  have hsize : b + 1 - a = 0 := by omega
  rw [upTo, hsize]
  rfl

theorem withGaps_next (last prev b : Nat) (ns : List Nat) (h : prev ≤ b) :
    withGaps last prev (upTo (prev + 1) b ++ ns) = marks (upTo (prev + 1) b) ++ withGaps last b ns := by
  induction hn : b - prev generalizing prev with
  | zero =>
    have hsame : prev = b := by omega
    rw [hsame, upTo_nil (b + 1) b (by omega)]
    rfl
  | succ n ih =>
    rw [upTo_cons (prev + 1) b (by omega), List.cons_append, withGaps, if_neg (by omega),
      ih (prev + 1) (by omega) (by omega)]
    rfl

theorem withGaps_far (last prev a b : Nat) (ns : List Nat) (ha : prev + 1 < a) (hb : a ≤ b) :
    withGaps last prev (upTo a b ++ ns) = .ellipsis :: marks (upTo a b) ++ withGaps last b ns := by
  rw [upTo_cons a b hb, List.cons_append, withGaps, if_pos ha, withGaps_next last a b ns hb]
  rfl

section Halves
variable (last number onEachSide onEnds : Nat)

def leftNumbers : List Nat :=
  if onEachSide + onEnds + 2 < number then upTo 1 onEnds ++ upTo (number - onEachSide) number else upTo 1 number

def rightNumbers : List Nat :=
  if number + onEachSide + onEnds + 1 < last then
    upTo (number + 1) (number + onEachSide) ++ upTo (last + 1 - onEnds) last
  else upTo (number + 1) last

/-- The left half is the run up to the current page, in which a gap is one ellipsis. -/
theorem leftMarks_eq (hnumber : number ≤ usizeMax) (ns : List Nat) :
    leftMarks number onEachSide onEnds ++ withGaps last number ns =
      withGaps last 0 (leftNumbers number onEachSide onEnds ++ ns) := by
  have hgap : leftGapTrigger onEachSide onEnds < number ↔ onEachSide + onEnds + 2 < number := by
    simp only [leftGapTrigger, saturatingAdd]
    omega
  have hfirst := fun b rest => withGaps_next last 0 b rest (Nat.zero_le b)
  simp only [Nat.zero_add] at hfirst
  unfold leftMarks leftNumbers
  by_cases h : onEachSide + onEnds + 2 < number
  · rw [if_pos (hgap.2 h), if_pos h, List.append_assoc, List.append_assoc, hfirst,
      withGaps_far last onEnds _ number ns (by omega) (by omega)]
  · rw [if_neg (mt hgap.1 h), if_neg h, hfirst]

/-- So is the right half, where no sum overflows. -/
theorem rightMarks_eq (hlast : last ≤ usizeMax) (hnumber : number ≤ last) (right : List PageMark) :
    rightMarks last number onEachSide onEnds = some right ↔
      (number + onEachSide + onEnds + 1 < last → last < usizeMax) ∧
      (last ≤ number + onEachSide + onEnds + 1 → number < usizeMax) ∧
      right = withGaps last number (rightNumbers last number onEachSide onEnds) := by
  have hgap : number < last - onEachSide - onEnds - 1 ↔ number + onEachSide + onEnds + 1 < last := by omega
  unfold rightMarks rightNumbers
  by_cases h : number + onEachSide + onEnds + 1 < last
  · have hfirst : checkedAdd number 1 = some (number + 1) := by
      rw [checkedAdd, if_pos (by omega)]
    have hnear : checkedAdd number onEachSide = some (number + onEachSide) := by
      rw [checkedAdd, if_pos (by omega)]
    rw [if_pos (hgap.2 h), if_pos h, withGaps_next last number _ _ (by omega)]
    have hfar : withGaps last (number + onEachSide) (upTo (last + 1 - onEnds) last) =
        .ellipsis :: marks (upTo (last + 1 - onEnds) last) := by
      by_cases hends : onEnds = 0
      · rw [hends, upTo_nil _ _ (by omega), withGaps, if_pos (by omega)]
        rfl
      · have hrun := withGaps_far last (number + onEachSide) (last + 1 - onEnds) last [] (by omega) (by omega)
        rw [List.append_nil] at hrun
        rw [hrun, withGaps, if_neg (by omega), List.append_nil]
    have hmin : min onEnds last = onEnds := by omega
    by_cases hmax : last < usizeMax
    · have hnext : checkedAdd last 1 = some (last + 1) := by
        rw [checkedAdd, if_pos (by omega)]
      have hsub : checkedSub (last + 1) onEnds = some (last + 1 - onEnds) := by
        rw [checkedSub, if_pos (by omega)]
      simp only [hfirst, hnear, hnext, hmin, hsub, Option.bind_eq_bind, Option.bind_some, hfar, pure,
        Option.some.injEq]
      constructor
      · intro heq
        exact ⟨fun _ => hmax, fun _ => by omega, heq.symm⟩
      · intro heq
        exact heq.2.2.symm
    · have hnext : checkedAdd last 1 = none := by
        rw [checkedAdd, if_neg (by omega)]
      simp only [hfirst, hnear, hnext, Option.bind_eq_bind, Option.bind_some, Option.bind_none]
      constructor
      · intro heq
        cases heq
      · intro heq
        exact absurd (heq.1 h) hmax
  · rw [if_neg (mt hgap.1 h), if_neg h]
    have hrun := withGaps_next last number last [] hnumber
    rw [List.append_nil, withGaps, if_neg (by omega), List.append_nil] at hrun
    rw [hrun]
    by_cases hmax : number < usizeMax
    · have hfirst : checkedAdd number 1 = some (number + 1) := by
        rw [checkedAdd, if_pos (by omega)]
      simp only [hfirst, Option.bind_eq_bind, Option.bind_some, pure, Option.some.injEq]
      constructor
      · intro heq
        exact ⟨fun hfar => absurd hfar h, fun _ => hmax, heq.symm⟩
      · intro heq
        exact heq.2.2.symm
    · have hfirst : checkedAdd number 1 = none := by
        rw [checkedAdd, if_neg (by omega)]
      simp only [hfirst, Option.bind_eq_bind, Option.bind_none]
      constructor
      · intro heq
        cases heq
      · intro heq
        exact absurd (heq.2.1 (by omega)) hmax

theorem numbersOf_withGaps (prev : Nat) (ns : List Nat) : numbersOf (withGaps last prev ns) = ns := by
  induction ns generalizing prev with
  | nil =>
    rw [withGaps]
    split <;> rfl
  | cons n ns ih =>
    rw [withGaps]
    split
    · have hrest := ih n
      simp only [numbersOf, List.filterMap_cons] at hrest ⊢
      rw [hrest]
    · have hrest := ih n
      simp only [numbersOf, List.filterMap_cons] at hrest ⊢
      rw [hrest]

theorem mem_leftNumbers (n : Nat) : n ∈ leftNumbers number onEachSide onEnds ↔
    if onEachSide + onEnds + 2 < number then 1 ≤ n ∧ n ≤ onEnds ∨ number - onEachSide ≤ n ∧ n ≤ number
    else 1 ≤ n ∧ n ≤ number := by
  unfold leftNumbers
  split <;> simp

theorem mem_rightNumbers (n : Nat) : n ∈ rightNumbers last number onEachSide onEnds ↔
    if number + onEachSide + onEnds + 1 < last then
      number + 1 ≤ n ∧ n ≤ number + onEachSide ∨ last + 1 - onEnds ≤ n ∧ n ≤ last
    else number + 1 ≤ n ∧ n ≤ last := by
  unfold rightNumbers
  split <;> simp

theorem pairwise_leftNumbers : (leftNumbers number onEachSide onEnds).Pairwise (· < ·) := by
  unfold leftNumbers
  split
  · apply List.pairwise_append.2
    refine ⟨pairwise_upTo _ _, pairwise_upTo _ _, ?_⟩
    intro a ha b hb
    simp only [mem_upTo] at ha hb
    omega
  · exact pairwise_upTo _ _

theorem pairwise_rightNumbers : (rightNumbers last number onEachSide onEnds).Pairwise (· < ·) := by
  unfold rightNumbers
  split
  · apply List.pairwise_append.2
    refine ⟨pairwise_upTo _ _, pairwise_upTo _ _, ?_⟩
    intro a ha b hb
    simp only [mem_upTo] at ha hb
    omega
  · exact pairwise_upTo _ _

/-- What the two halves show, where the ends do not reach into the window past its one gap. -/
theorem shows_halves_iff (hpos : 1 ≤ number) (hnumber : number ≤ last)
    (hwide : 2 * (onEachSide + onEnds) < last) :
    Shows last number onEachSide onEnds (withGaps last 0 (leftNumbers number onEachSide onEnds ++
        rightNumbers last number onEachSide onEnds)) ↔
      (number + onEachSide + onEnds + 1 < last → number ≤ onEachSide + onEnds + 2 →
        onEnds ≤ number + onEachSide) ∧
      (last ≤ number + onEachSide + onEnds + 1 → onEachSide + onEnds + 2 < number →
        number + onEnds ≤ last + 1 + onEachSide) := by
  have hmem : ∀ n, n ∈ numbersOf (withGaps last 0 (leftNumbers number onEachSide onEnds ++
      rightNumbers last number onEachSide onEnds)) ↔
        n ∈ leftNumbers number onEachSide onEnds ∨ n ∈ rightNumbers last number onEachSide onEnds := by
    intro n
    rw [numbersOf_withGaps, List.mem_append]
  simp only [mem_leftNumbers, mem_rightNumbers] at hmem
  constructor
  · intro h
    constructor
    · intro hright hleft
      have hend := h.ends (max onEnds 1) (by omega) (by omega)
      rw [hmem, if_neg (by omega), if_pos hright] at hend
      by_cases hends : onEnds = 0
      · omega
      · have hshown := hend (Or.inl (by omega))
        omega
    · intro hright hleft
      have hend := h.ends (last + 1 - onEnds) (by omega)
      rw [hmem, if_pos hleft, if_neg (by omega)] at hend
      by_cases hends : onEnds = 0
      · omega
      · have hshown := hend (by omega) (Or.inr (by omega))
        omega
  · intro h
    refine ⟨?_, ?_, ?_, ?_, ?_, ?_⟩
    · rw [numbersOf_withGaps]
      apply List.pairwise_append.2
      refine ⟨pairwise_leftNumbers _ _ _, pairwise_rightNumbers _ _ _ _, ?_⟩
      intro a ha b hb
      rw [mem_leftNumbers] at ha
      rw [mem_rightNumbers] at hb
      split_ifs at ha hb <;> omega
    · intro n hn
      rw [hmem] at hn
      split_ifs at hn <;> omega
    · rw [hmem]
      split_ifs <;> omega
    · intro n h1 h2 h3 h4
      rw [hmem]
      split_ifs <;> omega
    · intro n h1 h2 h3
      rw [hmem]
      have hl := h.1
      have hr := h.2
      split_ifs <;> omega
    · rw [numbersOf_withGaps]

end Halves

theorem shows_all (last number onEachSide onEnds : Nat) (hpos : 1 ≤ number) (hnumber : number ≤ last) :
    Shows last number onEachSide onEnds (marks (upTo 1 last)) := by
  constructor
  · rw [numbersOf_marks]
    exact pairwise_upTo 1 last
  · intro n hn
    rwa [numbersOf_marks, mem_upTo] at hn
  · rw [numbersOf_marks, mem_upTo]
    exact ⟨hpos, hnumber⟩
  · intro n hfirst hlast _ _
    rw [numbersOf_marks, mem_upTo]
    exact ⟨hfirst, hlast⟩
  · intro n hfirst hlast _
    rw [numbersOf_marks, mem_upTo]
    exact ⟨hfirst, hlast⟩
  · have hrun := withGaps_next last 0 last [] (Nat.zero_le last)
    rw [List.append_nil, withGaps, if_neg (Nat.lt_irrefl last), List.append_nil, Nat.zero_add] at hrun
    rw [numbersOf_marks, hrun]

theorem currentPage_bounds (number : Nat) (h : p.numPages ≠ 0) :
    1 ≤ p.currentPage number ∧ p.currentPage number ≤ p.numPages := by
  unfold currentPage validateNumber
  by_cases hsmall : number < 1
  · rw [if_pos hsmall]
    exact ⟨Nat.le_refl 1, Nat.one_le_iff_ne_zero.2 h⟩
  rw [if_neg hsmall, if_neg h]
  by_cases hlarge : p.numPages < number
  · rw [if_pos hlarge]
    exact ⟨Nat.le_refl 1, Nat.one_le_iff_ne_zero.2 h⟩
  · rw [if_neg hlarge]
    exact ⟨Nat.le_of_not_lt hsmall, Nat.le_of_not_lt hlarge⟩

theorem numPages_le_usizeMax : p.numPages ≤ usizeMax := by
  have hpages := p.numPages_le
  have hcount := p.count_le
  have hmax : 1 ≤ usizeMax := by decide
  omega

theorem le_threshold (last onEachSide onEnds : Nat) (hlast : last ≤ usizeMax) :
    last ≤ threshold onEachSide onEnds ↔ last ≤ 2 * (onEachSide + onEnds) := by
  simp only [threshold, saturatingAdd]
  omega

theorem rangeShown_iff (number onEachSide onEnds : Nat) :
    p.RangeShown number onEachSide onEnds ↔
      p.numPages = 0 ∨ Fits p.numPages (p.currentPage number) onEachSide onEnds := by
  unfold RangeShown getElidedPageRange
  by_cases hzero : p.numPages = 0
  · simp [hzero]
  have hlast := p.numPages_le_usizeMax
  have hcurrent := p.currentPage_bounds number hzero
  generalize p.currentPage number = current at hcurrent
  generalize p.numPages = last at hzero hlast hcurrent
  simp only [hzero, if_false, false_or, ne_eq, not_false_eq_true, false_implies, true_implies, true_and]
  by_cases hsmall : last ≤ 2 * (onEachSide + onEnds)
  · rw [if_pos ((le_threshold last _ _ hlast).2 hsmall)]
    constructor
    · intro _
      exact Or.inl hsmall
    · intro _
      exact ⟨_, rfl, shows_all last current _ _ hcurrent.1 hcurrent.2⟩
  rw [if_neg (mt (le_threshold last _ _ hlast).1 hsmall)]
  have hleft := fun right => leftMarks_eq last current onEachSide onEnds (by omega) right
  have hshows := shows_halves_iff last current onEachSide onEnds hcurrent.1 hcurrent.2 (by omega)
  have hright := rightMarks_eq last current onEachSide onEnds hlast hcurrent.2
  unfold Fits
  constructor
  · intro h
    obtain ⟨ms, hms, hshown⟩ := h
    obtain ⟨right, hsome, heq⟩ := Option.map_eq_some_iff.1 hms
    have hparts := (hright right).1 hsome
    rw [hparts.2.2, hleft] at heq
    rw [← heq, hshows] at hshown
    exact Or.inr ⟨fun h => ⟨hparts.1 h, hshown.1 h⟩, fun h => ⟨hparts.2.1 h, hshown.2 h⟩⟩
  · intro h
    have hfits := h.resolve_left hsmall
    refine ⟨_, Option.map_eq_some_iff.2 ⟨_, (hright _).2 ⟨fun h => (hfits.1 h).1, fun h => (hfits.2 h).1, rfl⟩,
      rfl⟩, ?_⟩
    rw [hleft, hshows]
    exact ⟨fun h => (hfits.1 h).2, fun h => (hfits.2 h).2⟩

/-- The pages part the rows, and the range of them shows what it is to show where the ends and the window
fit. -/
theorem pages_and_range_iff (number onEachSide onEnds : Nat) :
    p.Parts ∧ p.RangeShown number onEachSide onEnds ↔
      p.numPages = 0 ∨ Fits p.numPages (p.currentPage number) onEachSide onEnds := by
  rw [rangeShown_iff]
  exact and_iff_right p.parts

end Paginator

/-- Of 100 pages, five at the ends and none around the first. -/
theorem range_lacks_first_pages : ∃ p : Paginator, p.count = 1000 ∧ p.perPage = 10 ∧
    p.getElidedPageRange 1 0 5 = some [.number 1, .ellipsis, .number 96, .number 97, .number 98, .number 99,
      .number 100] ∧ ¬ p.RangeShown 1 0 5 := by
  refine ⟨⟨1000, 10, 0, true, by decide, by decide, by decide⟩, rfl, rfl, by decide, ?_⟩
  intro h
  obtain ⟨ms, hms, -, hshown⟩ := h
  have hshown := (hshown (by decide)).ends 2 (by decide) (by decide) (Or.inl (by decide))
  have heq : ms = [.number 1, .ellipsis, .number 96, .number 97, .number 98, .number 99, .number 100] :=
    Option.some.inj (hms.symm.trans (by decide))
  rw [heq] at hshown
  revert hshown
  decide

end Rustango.Pagination
