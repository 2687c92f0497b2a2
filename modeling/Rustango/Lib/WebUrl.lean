import Mathlib
import Rustango.Lib.Halves

/-!
# Where a browser goes

The URL standard's parser on a page of http or https, as far as the host: its states, each reading the
text that is left. The host parser, which takes the written host, is a parameter.
-/

namespace Rustango.WebUrl

open Halves

abbrev Text := List Char

inductive Scheme
  | http
  | https
deriving DecidableEq

/-- Where a URL leads. -/
inductive Target (Host : Type*)
  | ownOrigin
  | site (scheme : Scheme) (written : Text) (host : Host)
  | otherScheme (scheme : Text)
  | failure

def isC0OrSpace (c : Char) : Bool := c.toNat ≤ 0x20

def isTabOrNewline (c : Char) : Bool := c = '\t' || c = '\n' || c = '\r'

/-- The input that is parsed. -/
def input (url : Text) : Text :=
  ((url.dropWhile isC0OrSpace).rdropWhile isC0OrSpace).filter fun c => !isTabOrNewline c

/-- A backslash is a slash in a URL of http and https. -/
def isSlash (c : Char) : Bool := c = '/' || c = '\\'

def endsAuthority (c : Char) : Bool := c = '/' || c = '\\' || c = '?' || c = '#'

def portValue (digits : Text) : Nat := digits.foldl (fun n c => 10 * n + (c.toNat - '0'.toNat)) 0

section States
variable {Host : Type*} (hostParser : Text → Option Host) (scheme : Scheme)

def portEnd (written : Text) (host : Host) (buffer : Text) : Target Host :=
  if portValue buffer ≤ 65535 then .site scheme written host else .failure

def portState (written : Text) (host : Host) (buffer : Text) : Text → Target Host
  | [] => portEnd scheme written host buffer
  | c :: rest =>
    if c.isDigit then portState written host (buffer ++ [c]) rest
    else if endsAuthority c then portEnd scheme written host buffer
    else .failure

def hostEnd (buffer : Text) : Target Host :=
  if buffer = [] then .failure
  else
    match hostParser buffer with
    | none => .failure
    | some host => .site scheme buffer host

def hostState (inside : Bool) (buffer : Text) : Text → Target Host
  | [] => hostEnd hostParser scheme buffer
  | c :: rest =>
    if c = ':' && !inside then
      if buffer = [] then .failure
      else
        match hostParser buffer with
        | none => .failure
        | some host => portState scheme buffer host [] rest
    else if endsAuthority c then hostEnd hostParser scheme buffer
    else hostState (if c = '[' then true else if c = ']' then false else inside) (buffer ++ [c]) rest

def authorityEnd (atSeen : Bool) (buffer rest : Text) : Target Host :=
  if atSeen && buffer = [] then .failure else hostState hostParser scheme false [] (buffer ++ rest)

def authorityState (atSeen : Bool) (buffer : Text) : Text → Target Host
  | [] => authorityEnd hostParser scheme atSeen buffer []
  | c :: rest =>
    if c = '@' then authorityState true [] rest
    else if endsAuthority c then authorityEnd hostParser scheme atSeen buffer (c :: rest)
    else authorityState atSeen (buffer ++ [c]) rest

def ignoreSlashes (rest : Text) : Target Host :=
  authorityState hostParser scheme false [] (rest.dropWhile isSlash)

def relativeSlashState (base : Scheme) : Text → Target Host
  | [] => .ownOrigin
  | c :: rest => if isSlash c then ignoreSlashes hostParser base rest else .ownOrigin

def relativeState (base : Scheme) : Text → Target Host
  | [] => .ownOrigin
  | c :: rest => if isSlash c then relativeSlashState hostParser base rest else .ownOrigin

/-- The scheme state: the scheme in lower case and what stands behind its colon. -/
def schemeState (buffer : Text) : Text → Option (Text × Text)
  | [] => none
  | c :: rest =>
    if c.isAlphanum || c = '+' || c = '-' || c = '.' then schemeState (buffer ++ [c.toLower]) rest
    else if c = ':' then some (buffer, rest)
    else none

def schemeStart : Text → Option (Text × Text)
  | [] => none
  | c :: rest => if c.isAlpha then schemeState [c.toLower] rest else none

def Scheme.text : Scheme → Text
  | .http => ['h', 't', 't', 'p']
  | .https => ['h', 't', 't', 'p', 's']

/-- Behind the scheme of a special URL, two slashes and any number of slashes more begin the authority;
without the two, the page's own scheme is dropped. -/
def afterScheme (base scheme : Scheme) (rest : Text) : Target Host :=
  match rest with
  | '/' :: '/' :: rest => ignoreSlashes hostParser scheme rest
  | rest => if scheme = base then relativeState hostParser base rest else ignoreSlashes hostParser scheme rest

def browse (base : Scheme) (url : Text) : Target Host :=
  match schemeStart (input url) with
  | none => relativeState hostParser base (input url)
  | some (text, rest) =>
    if text = Scheme.http.text then afterScheme hostParser base .http rest
    else if text = Scheme.https.text then afterScheme hostParser base .https rest
    else .otherScheme text

-- Their equations are derived here, once for all the proofs that unfold them.
attribute [local simp] portState hostState authorityState

end States

theorem dropWhile_eq {p q : Char → Bool} (hpq : ∀ c, p c = true → q c = true) (l : Text)
    (hhead : ∀ c ∈ (l.dropWhile p).head?, q c = true → p c = true) : l.dropWhile q = l.dropWhile p := by
  induction l with
  | nil => rfl
  | cons c l ih =>
    by_cases hp : p c = true
    · rw [List.dropWhile_cons_of_pos hp] at hhead ⊢
      rw [List.dropWhile_cons_of_pos (hpq c hp)]
      exact ih hhead
    · rw [List.dropWhile_cons_of_neg hp] at hhead ⊢
      exact List.dropWhile_cons_of_neg fun hq => hp (hhead c rfl hq)

/-- A text trimmed of less is parsed as it is, where no control character, space, tab or newline is left. -/
theorem input_eq (p : Char → Bool) (hp : ∀ c, p c = true → isC0OrSpace c = true) (url t : Text)
    (htrim : (url.dropWhile p).rdropWhile p = t) (hne : t ≠ [])
    (hkept : ∀ c ∈ t, isC0OrSpace c = true → p c = true) (hplain : ∀ c ∈ t, isTabOrNewline c = false) :
    input url = t := by
  have hfront : url.dropWhile isC0OrSpace = url.dropWhile p := by
    apply dropWhile_eq hp
    intro c hc
    apply hkept
    have hprefix := List.rdropWhile_prefix p (url.dropWhile p)
    rw [htrim] at hprefix
    cases t with
    | nil => exact absurd rfl hne
    | cons d t =>
      obtain ⟨rest, hrest⟩ := hprefix
      rw [← hrest] at hc
      rw [← Option.some.inj hc]
      exact List.mem_cons_self
  have hback : (url.dropWhile p).rdropWhile isC0OrSpace = t := by
    rw [← htrim, List.rdropWhile, List.rdropWhile]
    congr 1
    apply dropWhile_eq hp
    intro c hc
    apply hkept
    rw [← htrim, List.rdropWhile, List.mem_reverse]
    exact List.mem_of_mem_head? hc
  rw [input, hfront, hback]
  apply List.filter_eq_self.2
  intro c hc
  simp [hplain c hc]

section Authority
variable {Host : Type*} (hostParser : Text → Option Host) (scheme : Scheme)

theorem portState_cases (written : Text) (host : Host) (buffer t : Text) :
    portState scheme written host buffer t = .failure ∨
      portState scheme written host buffer t = .site scheme written host := by
  have hend : ∀ buffer, portEnd scheme written host buffer = .failure ∨
      portEnd scheme written host buffer = .site scheme written host := by
    intro buffer
    unfold portEnd
    split <;> simp
  induction t generalizing buffer with
  | nil => exact hend buffer
  | cons c t ih =>
    rw [portState]
    split
    · exact ih _
    split
    · exact hend buffer
    · exact Or.inl rfl

theorem hostEnd_cases (buffer : Text) : hostEnd hostParser scheme buffer = .failure ∨
    ∃ host, hostParser buffer = some host ∧ hostEnd hostParser scheme buffer = .site scheme buffer host := by
  unfold hostEnd
  split
  · exact Or.inl rfl
  · cases hhost : hostParser buffer with
    | none => exact Or.inl rfl
    | some host => exact Or.inr ⟨host, rfl, rfl⟩

theorem hostState_plain (buffer t rest : Text) (hcolon : ':' ∉ t) (hopen : '[' ∉ t)
    (hends : ∀ c ∈ t, endsAuthority c = false) :
    hostState hostParser scheme false buffer (t ++ rest) = hostState hostParser scheme false (buffer ++ t) rest := by
  induction t generalizing buffer with
  | nil => rw [List.nil_append, List.append_nil]
  | cons c t ih =>
    simp only [List.mem_cons, not_or] at hcolon hopen
    have hc := hends c List.mem_cons_self
    rw [List.cons_append, hostState]
    simp only [Ne.symm hcolon.1, Ne.symm hopen.1, decide_false, Bool.false_and, Bool.false_eq_true, if_false, hc,
      ite_self]
    rw [ih _ hcolon.2 hopen.2 fun d hd => hends d (List.mem_cons_of_mem _ hd), List.append_assoc,
      List.singleton_append]

theorem hostState_inside (buffer t rest : Text) (hclose : ']' ∉ t) (hends : ∀ c ∈ t, endsAuthority c = false) :
    hostState hostParser scheme true buffer (t ++ rest) = hostState hostParser scheme true (buffer ++ t) rest := by
  induction t generalizing buffer with
  | nil => rw [List.nil_append, List.append_nil]
  | cons c t ih =>
    simp only [List.mem_cons, not_or] at hclose
    have hc := hends c List.mem_cons_self
    rw [List.cons_append, hostState]
    simp only [Bool.not_true, Bool.and_false, Bool.false_eq_true, if_false, hc, Ne.symm hclose.1, ite_self]
    rw [ih _ hclose.2 fun d hd => hends d (List.mem_cons_of_mem _ hd), List.append_assoc, List.singleton_append]

/-- The host ends before a colon, or where the authority does. -/
theorem hostState_end (buffer rest : Text) (hrest : ∀ c ∈ rest.head?, c = ':' ∨ endsAuthority c = true) :
    hostState hostParser scheme false buffer rest = .failure ∨
      ∃ host, hostParser buffer = some host ∧
        hostState hostParser scheme false buffer rest = .site scheme buffer host := by
  cases rest with
  | nil => exact hostEnd_cases hostParser scheme buffer
  | cons c rest =>
    rw [hostState]
    by_cases hc : c = ':'
    · simp only [hc, decide_true, Bool.not_false, Bool.and_self, if_true]
      split
      · exact Or.inl rfl
      · cases hhost : hostParser buffer with
        | none => exact Or.inl rfl
        | some host =>
          rcases portState_cases scheme buffer host [] rest with hport | hport
          · exact Or.inl hport
          · exact Or.inr ⟨host, rfl, hport⟩
    · have hends : endsAuthority c = true := by
        rcases hrest c rfl with h | h
        · exact absurd h hc
        · exact h
      simp only [hc, decide_false, Bool.false_and, Bool.false_eq_true, if_false, hends, if_true]
      exact hostEnd_cases hostParser scheme buffer

/-- A host parser refuses a bracket that does not begin the host. -/
def RefusesBracket : Prop := ∀ t : Text, '[' ∈ t → t.head? ≠ some '[' → hostParser t = none

theorem hostState_bracket (hrefuses : RefusesBracket hostParser) (inside : Bool) (buffer t : Text)
    (hopen : '[' ∈ buffer) (hhead : buffer.head? ≠ some '[') :
    hostState hostParser scheme inside buffer t = .failure := by
  have hend : ∀ buffer : Text, '[' ∈ buffer → buffer.head? ≠ some '[' →
      hostEnd hostParser scheme buffer = .failure := by
    intro buffer hopen hhead
    unfold hostEnd
    rw [hrefuses buffer hopen hhead]
    split <;> rfl
  induction t generalizing inside buffer with
  | nil => exact hend buffer hopen hhead
  | cons c t ih =>
    rw [hostState]
    split
    · rw [hrefuses buffer hopen hhead]
      split <;> rfl
    split
    · exact hend buffer hopen hhead
    · apply ih
      · exact List.mem_append_left _ hopen
      · cases buffer with
        | nil => cases hopen
        | cons d buffer => simpa using hhead

theorem authorityState_plain (atSeen : Bool) (buffer t rest : Text) (hat : '@' ∉ t)
    (hends : ∀ c ∈ t, endsAuthority c = false) (hrest : ∀ c ∈ rest.head?, endsAuthority c = true) :
    authorityState hostParser scheme atSeen buffer (t ++ rest) =
      authorityEnd hostParser scheme atSeen (buffer ++ t) rest := by
  induction t generalizing buffer with
  | nil =>
    rw [List.nil_append, List.append_nil]
    cases rest with
    | nil => rfl
    | cons c rest =>
      have hc := hrest c rfl
      have hno : c ≠ '@' := by
        intro heq
        rw [heq] at hc
        revert hc
        decide
      rw [authorityState, if_neg hno, if_pos hc]
  | cons c t ih =>
    simp only [List.mem_cons, not_or] at hat
    have hc := hends c List.mem_cons_self
    rw [List.cons_append, authorityState, if_neg (Ne.symm hat.1), hc, if_neg Bool.false_ne_true,
      ih _ hat.2 fun d hd => hends d (List.mem_cons_of_mem _ hd), List.append_assoc, List.singleton_append]

theorem authorityState_userinfo (atSeen : Bool) (buffer t rest : Text) (hends : ∀ c ∈ t, endsAuthority c = false) :
    authorityState hostParser scheme atSeen buffer (t ++ '@' :: rest) =
      authorityState hostParser scheme true [] rest := by
  induction t generalizing atSeen buffer with
  | nil => rw [List.nil_append, authorityState, if_pos rfl]
  | cons c t ih =>
    have hc := hends c List.mem_cons_self
    have hrest := fun d hd => hends d (List.mem_cons_of_mem _ hd)
    rw [List.cons_append, authorityState, hc]
    split
    · exact ih true [] hrest
    · rw [if_neg Bool.false_ne_true]
      exact ih atSeen (buffer ++ [c]) hrest

/-- What stands behind the last `@` of an authority, or all of it. -/
def hostPart (authority : Text) : Text := ((rsplitOnce '@' authority).map Prod.snd).getD authority

/-- The host is read from behind the last `@`. -/
theorem authorityState_eq (authority rest : Text) (hends : ∀ c ∈ authority, endsAuthority c = false)
    (hrest : ∀ c ∈ rest.head?, endsAuthority c = true) (hne : hostPart authority ≠ []) :
    authorityState hostParser scheme false [] (authority ++ rest) =
      hostState hostParser scheme false [] (hostPart authority ++ rest) := by
  unfold hostPart at hne ⊢
  cases hsplit : rsplitOnce '@' authority with
  | none =>
    have hat := (rsplitOnce_eq_none '@' authority).1 hsplit
    rw [authorityState_plain hostParser scheme false [] authority rest hat hends hrest]
    rfl
  | some halves =>
    obtain ⟨hwhole, hat⟩ := rsplitOnce_eq_some '@' authority halves.1 halves.2 hsplit
    simp only [hsplit, Option.map_some, Option.getD_some] at hne ⊢
    have hbefore : ∀ c ∈ halves.1, endsAuthority c = false := by
      intro c hc
      apply hends
      rw [hwhole]
      exact List.mem_append_left _ hc
    have hafter : ∀ c ∈ halves.2, endsAuthority c = false := by
      intro c hc
      apply hends
      rw [hwhole]
      exact List.mem_append_right _ (List.mem_cons_of_mem _ hc)
    rw [hwhole, List.append_assoc, List.cons_append, authorityState_userinfo hostParser scheme false [] _ _ hbefore,
      authorityState_plain hostParser scheme true [] _ rest hat hafter hrest, authorityEnd]
    simp [hne]

end Authority

end Rustango.WebUrl
