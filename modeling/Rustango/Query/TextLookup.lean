import Rustango.Lib.Wildcards

/-!
# Text lookups

`contains`, `startswith` and `endswith` escape the text and write a LIKE pattern. SQLite's LIKE folds
case, so there the pattern runs as a GLOB.
-/

namespace Rustango.Query

open Rustango.Wildcards

/-- The escape character of `LikeEscaped`. -/
def likeEscapeChar : Char := '!'

def escapeLikeChars : List Char → List Char
  | [] => []
  | c :: cs =>
    if c = likeEscapeChar ∨ c = '%' ∨ c = '_' then likeEscapeChar :: c :: escapeLikeChars cs
    else c :: escapeLikeChars cs

/-- Escapes the metacharacters of LIKE, so that they match as plain characters. -/
def escapeLike (input : String) : String := String.ofList (escapeLikeChars input.toList)

/-- The pattern of a lookup: the escaped text between the lookup's own wildcards. -/
def wrapLike (s before after : String) : String := before ++ escapeLike s ++ after

/-- A character that GLOB reads as itself. -/
def globLiteral (c : Char) : List Char :=
  if c = '*' ∨ c = '?' ∨ c = '[' then ['[', c, ']'] else [c]

/-- A character that LIKE does not read as an escape. -/
def globUnescaped (c : Char) : List Char :=
  if c = '%' then ['*'] else if c = '_' then ['?'] else globLiteral c

/-- `!` takes the next character with it; at the end there is none. -/
def likeToGlobChars (escaped : Bool) : List Char → List Char
  | [] => []
  | [c] => if c = '!' ∧ escaped = true then [] else globUnescaped c
  | c :: next :: p =>
    if c = '!' ∧ escaped = true then globLiteral next ++ likeToGlobChars escaped p
    else globUnescaped c ++ likeToGlobChars escaped (next :: p)

/-- A LIKE pattern as GLOB. `escaped` reads the `!` escape. -/
def likeToGlob (pattern : String) (escaped : Bool) : String :=
  String.ofList (likeToGlobChars escaped pattern.toList)

/-- A LIKE pattern, after an escape character or not. One that ends after it is none. -/
def likePattern (escape : Option Char) : Bool → List Char → Option (List (Wild Char))
  | false, [] => some []
  | true, [] => none
  | true, c :: p => (likePattern escape false p).map (.lit c :: ·)
  | false, c :: p =>
    if c = '%' then (likePattern escape false p).map (.many :: ·)
    else if escape = some c then likePattern escape true p
    else if c = '_' then (likePattern escape false p).map (.any :: ·)
    else (likePattern escape false p).map (.lit c :: ·)

/-- A GLOB set that is being read: `[^…` is inverted, `prior` may begin a range. -/
structure GlobSet where
  inverted : Bool
  ranges : List (Char × Char)
  prior : Option Char

def GlobSet.push (s : GlobSet) (c : Char) : GlobSet :=
  { s with ranges := (c, c) :: s.ranges, prior := some c }

def GlobSet.has (s : GlobSet) (c : Char) : Bool :=
  (s.ranges.any fun r => r.1 ≤ c && c ≤ r.2) != s.inverted

/-- A GLOB pattern, from inside a set or outside. One that ends inside a set is none. -/
def globPattern : Option GlobSet → List Char → Option (List (Wild Char))
  | none, [] => some []
  | some _, [] => none
  | none, '*' :: p => (globPattern none p).map (.many :: ·)
  | none, '?' :: p => (globPattern none p).map (.any :: ·)
  -- A `]` that comes first is a member.
  | none, '[' :: '^' :: ']' :: p => globPattern (some ⟨true, [(']', ']')], none⟩) p
  | none, '[' :: '^' :: p => globPattern (some ⟨true, [], none⟩) p
  | none, '[' :: ']' :: p => globPattern (some ⟨false, [(']', ']')], none⟩) p
  | none, '[' :: p => globPattern (some ⟨false, [], none⟩) p
  | none, c :: p => (globPattern none p).map (.lit c :: ·)
  | some s, ']' :: p => (globPattern none p).map (.one s.has :: ·)
  | some s, '-' :: hi :: p =>
    if hi = ']' then globPattern (some (s.push '-')) (hi :: p)
    else
      match s.prior with
      | some lo => globPattern (some { s with ranges := (lo, hi) :: s.ranges, prior := none }) p
      | none => globPattern (some (s.push '-')) (hi :: p)
  | some s, c :: p => globPattern (some (s.push c)) p

/-- `t LIKE p`, with an escape character or none, by case. -/
def like (escape : Option Char) (p t : String) : Bool :=
  (likePattern escape false p.toList).any fun w => Wildcards.Matches w t.toList

/-- `t GLOB p`. -/
def glob (p t : String) : Bool := (globPattern none p.toList).any fun w => Wildcards.Matches w t.toList

theorem likePattern_escapeLike (s rest : List Char) :
    likePattern (some likeEscapeChar) false (escapeLikeChars s ++ rest) =
      (likePattern (some likeEscapeChar) false rest).map (s.map .lit ++ ·) := by
  induction s with
  | nil => simp [escapeLikeChars]
  | cons c s ih =>
    by_cases hc : c = likeEscapeChar ∨ c = '%' ∨ c = '_'
    · have hescape : likeEscapeChar ≠ '%' := by decide
      simp only [escapeLikeChars, if_pos hc, List.cons_append, likePattern, if_neg hescape, if_true, ih,
        Option.map_map]
      rfl
    · have hne := hc
      simp only [not_or] at hne
      have hsome : some likeEscapeChar ≠ some c := fun h => hne.1 (Option.some.inj h).symm
      simp only [escapeLikeChars, if_neg hc, List.cons_append, likePattern, if_neg hne.2.1,
        if_neg hsome, if_neg hne.2.2, ih, Option.map_map]
      rfl

private theorem likePattern_wrapLike (s before after : String) (w : List (Wild Char))
    (hbefore : ∀ p, likePattern (some likeEscapeChar) false (before.toList ++ p) =
      (likePattern (some likeEscapeChar) false p).map (w ++ ·)) :
    likePattern (some likeEscapeChar) false (wrapLike s before after).toList =
      (likePattern (some likeEscapeChar) false after.toList).map fun v => w ++ (s.toList.map .lit ++ v) := by
  have htext : (wrapLike s before after).toList =
      before.toList ++ (escapeLikeChars s.toList ++ after.toList) := by
    simp [wrapLike, escapeLike]
  rw [htext, hbefore, likePattern_escapeLike, Option.map_map]
  rfl

/-- The pattern ends in an escape character that escapes nothing. -/
def endsInEscape : List Char → Bool
  | [] => false
  | [c] => c = likeEscapeChar
  | c :: d :: p => if c = likeEscapeChar then endsInEscape p else endsInEscape (d :: p)

private theorem globSet_lit (c : Char) : Wild.one (GlobSet.push ⟨false, [], none⟩ c).has = .lit c := by
  unfold Wild.lit
  congr 1
  funext x
  have hle : (c ≤ x ∧ x ≤ c) ↔ x = c := by
    constructor
    · exact fun h => Char.le_antisymm h.2 h.1
    · rintro rfl
      exact ⟨Char.le_refl x, Char.le_refl x⟩
  simp [GlobSet.has, GlobSet.push, ← hle]

private theorem globPattern_globLiteral (c : Char) (q : List Char) :
    globPattern none (globLiteral c ++ q) = (globPattern none q).map (.lit c :: ·) := by
  unfold globLiteral
  by_cases hc : c = '*' ∨ c = '?' ∨ c = '['
  · have hset : globPattern none ('[' :: c :: ']' :: q) =
        (globPattern none q).map (.one (GlobSet.push ⟨false, [], none⟩ c).has :: ·) := by
      rcases hc with rfl | rfl | rfl <;> rfl
    rw [if_pos hc, ← globSet_lit]
    exact hset
  · rw [if_neg hc]
    simp only [not_or] at hc
    simp [globPattern, hc]

private theorem endsInEscape_cons {c : Char} (hc : c ≠ likeEscapeChar) (p : List Char) :
    endsInEscape (c :: p) = endsInEscape p := by
  cases p with
  | nil => simp [endsInEscape, hc]
  | cons d p => simp [endsInEscape, hc]

/-- The escape character of a pattern, if it has one. -/
def escapeOf (escaped : Bool) : Option Char := if escaped then some likeEscapeChar else none

/-- No class of a pattern is empty. -/
def Inhabited (w : List (Wild Char)) : Prop := ∀ class_, .one class_ ∈ w → ∃ c, class_ c = true

theorem Inhabited.many {w : List (Wild Char)} (h : Inhabited w) : Inhabited (.many :: w) := by
  intro class_ hmem
  rcases List.mem_cons.mp hmem with heq | hrest
  · cases heq
  · exact h class_ hrest

theorem Inhabited.one {w : List (Wild Char)} (h : Inhabited w) {class_ : Char → Bool} (c : Char)
    (hc : class_ c = true) : Inhabited (.one class_ :: w) := by
  intro class' hmem
  rcases List.mem_cons.mp hmem with heq | hrest
  · exact ⟨c, (Wild.one.inj heq).symm ▸ hc⟩
  · exact h class' hrest

theorem Inhabited.lit {w : List (Wild Char)} (h : Inhabited w) (c : Char) : Inhabited (.lit c :: w) :=
  h.one c (decide_eq_true rfl)

private theorem globPattern_globUnescaped (c : Char) (q : List Char) :
    globPattern none (globUnescaped c ++ q) = (globPattern none q).map
      ((if c = '%' then .many else if c = '_' then .any else .lit c : Wild Char) :: ·) := by
  unfold globUnescaped
  by_cases hpercent : c = '%'
  · simp [hpercent, globPattern]
  · by_cases hunder : c = '_'
    · simp [hunder, globPattern]
    · rw [if_neg hpercent, if_neg hunder, if_neg hpercent, if_neg hunder, globPattern_globLiteral]

private theorem likePattern_unescaped {escape : Option Char} {c : Char} (hc : escape ≠ some c)
    (p : List Char) :
    likePattern escape false (c :: p) = (likePattern escape false p).map
      ((if c = '%' then .many else if c = '_' then .any else .lit c : Wild Char) :: ·) := by
  rw [likePattern, if_neg hc]
  by_cases hpercent : c = '%'
  · simp only [if_pos hpercent]
  · by_cases hunder : c = '_'
    · simp only [if_neg hpercent, if_pos hunder]
    · simp only [if_neg hpercent, if_neg hunder]

private theorem inhabited_unescaped {w : List (Wild Char)} (h : Inhabited w) (c : Char) :
    Inhabited ((if c = '%' then .many else if c = '_' then .any else .lit c : Wild Char) :: w) := by
  split
  · exact h.many
  · split
    · exact h.one 'a' rfl
    · exact h.lit c

/-- The GLOB is the LIKE pattern, but for an escape character at the end, which it drops. -/
private theorem globPattern_likeToGlob (escaped : Bool) (p : List Char) :
    ∃ w, globPattern none (likeToGlobChars escaped p) = some w ∧ Inhabited w ∧
      likePattern (escapeOf escaped) false p =
        if escaped && endsInEscape p then none else some w := by
  have hnil : Inhabited [] := fun _ h => nomatch h
  have hescape : ∀ c, ¬ (c = '!' ∧ escaped = true) → escapeOf escaped ≠ some c := by
    intro c hc h
    cases escaped with
    | false => cases h
    | true => exact hc ⟨(Option.some.inj h).symm, rfl⟩
  have hends : ∀ c q, ¬ (c = '!' ∧ escaped = true) →
      (escaped && endsInEscape (c :: q)) = (escaped && endsInEscape q) := by
    intro c q hc
    cases escaped with
    | false => rfl
    | true => rw [endsInEscape_cons fun h => hc ⟨h, rfl⟩]
  induction p using likeToGlobChars.induct escaped with
  | case1 => exact ⟨[], rfl, hnil, by simp [likePattern, endsInEscape]⟩
  | case2 c hc =>
    obtain ⟨rfl, rfl⟩ := hc
    exact ⟨[], rfl, hnil, rfl⟩
  | case3 c hc =>
    refine ⟨_ :: [], ?_, inhabited_unescaped hnil c, ?_⟩
    · have hone := globPattern_globUnescaped c []
      rw [List.append_nil] at hone
      rw [likeToGlobChars, if_neg hc, hone]
      rfl
    · rw [likePattern_unescaped (hescape c hc), hends c [] hc]
      simp [likePattern, endsInEscape]
  | case4 c next q hc ih =>
    obtain ⟨rfl, rfl⟩ := hc
    obtain ⟨w, hglob, hinh, hlike⟩ := ih
    refine ⟨.lit next :: w, ?_, hinh.lit next, ?_⟩
    · rw [likeToGlobChars, if_pos ⟨rfl, rfl⟩, globPattern_globLiteral, hglob]
      rfl
    · have hstep : likePattern (escapeOf true) false ('!' :: next :: q) =
          (likePattern (escapeOf true) false q).map (.lit next :: ·) := rfl
      have hrest : endsInEscape ('!' :: next :: q) = endsInEscape q := rfl
      rw [hstep, hlike, hrest]
      cases true && endsInEscape q <;> rfl
  | case5 c next q hc ih =>
    obtain ⟨w, hglob, hinh, hlike⟩ := ih
    refine ⟨_ :: w, ?_, inhabited_unescaped hinh c, ?_⟩
    · rw [likeToGlobChars, if_neg hc, globPattern_globUnescaped, hglob]
      rfl
    · rw [likePattern_unescaped (hescape c hc), hlike, hends c (next :: q) hc]
      cases escaped && endsInEscape (next :: q) <;> rfl

/-- Escaped text matches itself, at the place the lookup says; and on SQLite a LIKE pattern matches
what it should if and only if it does not end in an escape character alone. -/
theorem text_lookups (s p : String) (escaped : Bool) :
    (∀ t : String,
      (like (some likeEscapeChar) (wrapLike s "%" "%") t = true ↔ s.toList <:+: t.toList) ∧
      (like (some likeEscapeChar) (wrapLike s "" "%") t = true ↔ s.toList <+: t.toList) ∧
      (like (some likeEscapeChar) (wrapLike s "%" "") t = true ↔ s.toList <:+ t.toList)) ∧
    ((∀ t, glob (likeToGlob p escaped) t = like (escapeOf escaped) p t) ↔
      ¬ (escaped = true ∧ endsInEscape p.toList = true)) := by
  refine ⟨fun t => ⟨?_, ?_, ?_⟩, ?_⟩
  · have hpattern := likePattern_wrapLike s "%" "%" [.many] fun _ => rfl
    rw [like, hpattern]
    exact matches_contains
  · have hpattern := likePattern_wrapLike s "" "%" [] fun p => by simp
    rw [like, hpattern]
    exact matches_startsWith
  · have hpattern := likePattern_wrapLike s "%" "" [.many] fun _ => rfl
    rw [like, hpattern]
    have hends := matches_endsWith (s := s.toList) (t := t.toList)
    simpa [likePattern] using hends
  · obtain ⟨w, hglob, hinh, hlike⟩ := globPattern_likeToGlob escaped p.toList
    have hmatch : ∀ t : String, glob (likeToGlob p escaped) t = Wildcards.Matches w t.toList := by
      intro t
      simp [glob, likeToGlob, hglob]
    constructor
    · rintro hsame ⟨rfl, hends⟩
      obtain ⟨t, ht⟩ := Wildcards.exists_matches hinh
      have hnone : like (escapeOf true) p (String.ofList t) = false := by
        simp [like, hlike, hends]
      have hsome := hsame (String.ofList t)
      rw [hnone, hmatch, String.toList_ofList, ht] at hsome
      cases hsome
    · intro hends t
      have hfalse : (escaped && endsInEscape p.toList) = false := by
        simpa using hends
      rw [hmatch, like, hlike, hfalse]
      rfl

/-- `a!` under the escape matches nothing, but its GLOB is `a`. -/
theorem text_lookups_loneEscape :
    glob (likeToGlob "a!" true) "a" = true ∧ like (some likeEscapeChar) "a!" "a" = false := by
  decide

end Rustango.Query
