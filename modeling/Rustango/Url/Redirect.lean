import Mathlib
import Rustango.Lib.Halves
import Rustango.Lib.WebUrl
import Rustango.Url.Codec

/-!
# Redirect targets

`url_has_allowed_host_and_scheme` of `urls.rs`: what a browser makes of a URL that the check lets pass.
-/

namespace Rustango.Url

open Halves WebUrl

/-- `char::is_ascii_whitespace`. -/
def isAsciiWhitespace (c : Char) : Bool := c = ' ' || c = '\t' || c = '\n' || c = '\x0c' || c = '\r'

/-- `char::is_control`. -/
def isControl (c : Char) : Bool := c.toNat ≤ 0x1F || 0x7F ≤ c.toNat && c.toNat ≤ 0x9F

/-- `strip_suffix('.')`, or the text as it is. -/
def stripDot (t : Text) : Text := if t.getLast? = some '.' then t.dropLast else t

/-- The host of an authority, in its brackets, and what stands behind it. -/
def hostAndRest (authority : Text) : Option (Text × Text) :=
  if authority.head? = some '[' then (splitOnce ']' authority).map fun halves => (halves.1 ++ [']'], halves.2)
  else
    match splitOnce ':' authority with
    | some halves => some (halves.1, ':' :: halves.2)
    | none => some (authority, [])

def splitHostPort (authority : Text) : Option (Text × Option Nat) :=
  match hostAndRest authority with
  | none => none
  | some (host, []) => some (host, none)
  | some (host, c :: port) =>
    if c = ':' && port ≠ [] && port.all Char.isDigit && portValue port ≤ 65535 then some (host, some (portValue port))
    else none

def normalizeHost (authority : Text) : Option Text :=
  (splitHostPort authority).map fun split => (stripDot split.1).map Char.toLower

/-- The host is everything before the first `/`, `?` or `#`. -/
def inHost (c : Char) : Bool := c ≠ '/' && c ≠ '?' && c ≠ '#'

def checkHostAndScheme (trimmed : Text) (allowedHosts : List Text) (requireHttps : Bool) : Bool :=
  if ['/', '/'] <+: trimmed ∨ ['\\', '\\'] <+: trimmed ∨ trimmed.head? = some '\\' then false
  else if trimmed.head? = some '/' then true
  else
    match splitOnceAt [':', '/', '/'] trimmed with
    | none => false
    | some (schemeRaw, rest) =>
      let scheme := schemeRaw.map Char.toLower
      if scheme = Scheme.https.text || scheme = Scheme.http.text && !requireHttps then
        match normalizeHost (hostPart (rest.takeWhile inHost)) with
        | none => false
        | some host =>
          if host = [] then false
          else allowedHosts.any fun a => (stripDot a).map Char.toLower = host.map Char.toLower
      else false

def unescapeSlash (c : Char) : Char := if c = '\\' then '/' else c

def trimmed (url : Text) : Text := (url.dropWhile isAsciiWhitespace).rdropWhile isAsciiWhitespace

def urlHasAllowedHostAndScheme (url : Text) (allowedHosts : List Text) (requireHttps : Bool) : Bool :=
  if trimmed url = [] then false
  else if (trimmed url).any isControl then false
  else if !checkHostAndScheme (trimmed url) allowedHosts requireHttps then false
  else
    let unescaped := (trimmed url).map unescapeSlash
    if unescaped ≠ trimmed url && !checkHostAndScheme unescaped allowedHosts requireHttps then false else true

/-- Equal up to case and one trailing dot. -/
def SameHost (s t : Text) : Prop := (stripDot s).map Char.toLower = (stripDot t).map Char.toLower

private theorem normalizeHost_eq_some (authority host : Text) (h : normalizeHost authority = some host) :
    ∃ written rest, hostAndRest authority = some (written, rest) ∧ (∀ c ∈ rest.head?, c = ':') ∧
      host = (stripDot written).map Char.toLower := by
  unfold normalizeHost splitHostPort at h
  cases hsplit : hostAndRest authority with
  | none =>
    rw [hsplit] at h
    cases h
  | some halves =>
    obtain ⟨written, rest⟩ := halves
    refine ⟨written, rest, rfl, ?_⟩
    rw [hsplit] at h
    cases rest with
    | nil =>
      cases h
      exact ⟨by simp, rfl⟩
    | cons c port =>
      simp only at h
      split at h
      · rename_i hport
        simp only [Bool.and_eq_true, decide_eq_true_eq] at hport
        cases h
        refine ⟨?_, rfl⟩
        intro d hd
        rw [← Option.some.inj hd]
        exact hport.1.1.1
      · cases h

private theorem takeWhile_unescaped (r : Text) :
    (r.map unescapeSlash).takeWhile inHost = r.takeWhile fun c => !endsAuthority c := by
  induction r with
  | nil => rfl
  | cons c r ih =>
    have hsame : inHost (unescapeSlash c) = !endsAuthority c := by
      unfold inHost unescapeSlash endsAuthority
      by_cases hc : c = '\\' <;> simp [hc]
    rw [List.map_cons, List.takeWhile_cons, List.takeWhile_cons, hsame, ih]
    cases hends : endsAuthority c with
    | true => rfl
    | false =>
      have hc : unescapeSlash c = c := by
        unfold unescapeSlash
        split
        · rename_i heq
          rw [heq] at hends
          cases hends
        · rfl
      simp [hc]

section Browser
variable {Host : Type*} (hostParser : Text → Option Host) (hrefuses : RefusesBracket hostParser) (scheme : Scheme)
include hrefuses

/-- A browser reads the host that was split off, or refuses the URL. -/
private theorem hostState_split (authority written rest tail : Text)
    (hsplit : hostAndRest authority = some (written, rest))
    (hrest : ∀ c ∈ rest.head?, c = ':') (hends : ∀ c ∈ authority, endsAuthority c = false)
    (htail : ∀ c ∈ tail.head?, endsAuthority c = true) :
    hostState hostParser scheme false [] (authority ++ tail) = .failure ∨
      ∃ host, hostParser written = some host ∧
        hostState hostParser scheme false [] (authority ++ tail) = .site scheme written host := by
  have hboth : ∀ c ∈ (rest ++ tail).head?, c = ':' ∨ endsAuthority c = true := by
    intro c hc
    cases rest with
    | nil => exact Or.inr (htail c hc)
    | cons d rest => exact Or.inl (hrest c hc)
  unfold hostAndRest at hsplit
  split at hsplit
  · rename_i hopen
    cases hclose : splitOnce ']' authority with
    | none =>
      rw [hclose] at hsplit
      cases hsplit
    | some halves =>
      rw [hclose] at hsplit
      cases hsplit
      obtain ⟨hwhole, hinside⟩ := splitOnce_eq_some ']' authority halves.1 halves.2 hclose
      cases hhost : halves.1 with
      | nil =>
        rw [hwhole, hhost] at hopen
        simp at hopen
      | cons c inside =>
        rw [hhost] at hwhole hinside
        rw [hwhole] at hopen hends
        simp only [List.cons_append, List.head?_cons, Option.some.injEq] at hopen
        subst hopen
        simp only [List.mem_cons, not_or] at hinside
        have hin : ∀ d ∈ inside, endsAuthority d = false := by
          intro d hd
          apply hends
          simp [hd]
        have hread : hostState hostParser scheme false [] (authority ++ tail) =
            hostState hostParser scheme false ('[' :: inside ++ [']']) (halves.2 ++ tail) := by
          rw [hwhole, List.cons_append, List.cons_append, hostState]
          simp only [List.append_assoc, List.cons_append, List.nil_append]
          have hstep := hostState_inside hostParser scheme ['['] inside (']' :: (halves.2 ++ tail)) hinside.2 hin
          have hopening : endsAuthority '[' = false := by decide
          have hclosing : endsAuthority ']' = false := by decide
          simp only [hopening]
          simp only [Char.reduceEq, decide_false, Bool.false_and, Bool.false_eq_true, if_false, if_true]
          rw [hstep, hostState]
          simp [hclosing]
        rw [hread]
        exact hostState_end hostParser scheme _ _ hboth
  · rename_i hopen
    have hauthority : authority = written ++ rest ∧ ':' ∉ written := by
      cases hcolon : splitOnce ':' authority with
      | none =>
        rw [hcolon] at hsplit
        cases hsplit
        exact ⟨by rw [List.append_nil], (splitOnce_eq_none ':' _).1 hcolon⟩
      | some halves =>
        rw [hcolon] at hsplit
        cases hsplit
        exact splitOnce_eq_some ':' authority halves.1 halves.2 hcolon
    have hwritten : ∀ c ∈ written, endsAuthority c = false := by
      intro c hc
      apply hends
      rw [hauthority.1]
      exact List.mem_append_left _ hc
    rw [hauthority.1, List.append_assoc]
    by_cases hbracket : '[' ∈ written
    · -- the brackets keep a colon within the host, which no host parser takes
      left
      obtain ⟨before, after, hparts, hbefore⟩ := List.eq_append_cons_of_mem hbracket
      have hcolon : ':' ∉ before := fun hmem => hauthority.2 (by simp [hparts, hmem])
      have hplain : ∀ c ∈ before, endsAuthority c = false := fun c hc => hwritten c (by simp [hparts, hc])
      have hopening : endsAuthority '[' = false := by decide
      have hne : before ≠ [] := by
        intro hnil
        rw [hauthority.1, hparts, hnil] at hopen
        exact hopen rfl
      have hhead : (before ++ ['[']).head? ≠ some '[' := by
        cases before with
        | nil => exact absurd rfl hne
        | cons d before =>
          intro heq
          simp only [List.cons_append, List.head?_cons, Option.some.injEq] at heq
          exact hbefore (by simp [heq])
      rw [hparts, List.append_assoc, hostState_plain hostParser scheme [] before _ hcolon hbefore hplain,
        List.nil_append, List.cons_append, hostState]
      simp only [hopening, Char.reduceEq, decide_false, Bool.false_and, Bool.false_eq_true, if_false, if_true]
      exact hostState_bracket hostParser scheme hrefuses true _ _ (by simp) hhead
    · rw [hostState_plain hostParser scheme [] written _ hauthority.2 hbracket hwritten, List.nil_append]
      exact hostState_end hostParser scheme _ _ hboth

/-- Behind the two slashes a browser reads the host that was checked, or refuses the URL. -/
private theorem ignoreSlashes_checked (r host : Text)
    (hhost : normalizeHost (hostPart ((r.map unescapeSlash).takeWhile inHost)) = some host) (hne : host ≠ []) :
    ignoreSlashes hostParser scheme r = .failure ∨
      ∃ written parsed, hostParser written = some parsed ∧ host = (stripDot written).map Char.toLower ∧
        ignoreSlashes hostParser scheme r = .site scheme written parsed := by
  rw [takeWhile_unescaped r] at hhost
  have hpart : hostPart (r.takeWhile fun c => !endsAuthority c) ≠ [] := by
    intro hnil
    rw [hnil] at hhost
    exact hne (Option.some.inj hhost).symm
  have hslash : r.dropWhile isSlash = r := by
    cases r with
    | nil => rfl
    | cons c r =>
      apply List.dropWhile_cons_of_neg
      intro hc
      have hends : endsAuthority c = true := by
        simp only [isSlash, Bool.or_eq_true, decide_eq_true_eq] at hc
        rcases hc with rfl | rfl <;> decide
      rw [List.takeWhile_cons, hends] at hpart
      exact hpart rfl
  have hends : ∀ c ∈ r.takeWhile fun c => !endsAuthority c, endsAuthority c = false := by
    intro c hc
    simpa using List.mem_takeWhile_imp hc
  have htail : ∀ c ∈ (r.dropWhile fun c => !endsAuthority c).head?, endsAuthority c = true := by
    intro c hc
    have hstop := List.head?_dropWhile_not (fun c => !endsAuthority c) r
    rw [hc] at hstop
    simpa using hstop
  obtain ⟨written, rest, hsplit, hrest, hwritten⟩ := normalizeHost_eq_some _ host hhost
  have hpartEnds : ∀ c ∈ hostPart (r.takeWhile fun c => !endsAuthority c), endsAuthority c = false := by
    intro c hc
    apply hends
    unfold hostPart at hc
    cases hat : rsplitOnce '@' (r.takeWhile fun c => !endsAuthority c) with
    | none =>
      rw [hat] at hc
      exact hc
    | some halves =>
      rw [hat] at hc
      rw [(rsplitOnce_eq_some '@' _ halves.1 halves.2 hat).1]
      exact List.mem_append_right _ (List.mem_cons_of_mem _ hc)
  have hread : ignoreSlashes hostParser scheme r = hostState hostParser scheme false []
      (hostPart (r.takeWhile fun c => !endsAuthority c) ++ r.dropWhile fun c => !endsAuthority c) := by
    rw [ignoreSlashes, hslash, ← authorityState_eq hostParser scheme _ _ hends htail hpart,
      List.takeWhile_append_dropWhile]
  rw [hread]
  rcases hostState_split hostParser hrefuses scheme _ written rest _ hsplit hrest hpartEnds htail with h | h
  · exact Or.inl h
  · obtain ⟨parsed, hparsed, hsite⟩ := h
    exact Or.inr ⟨written, parsed, hparsed, hwritten, hsite⟩

end Browser

/-- A URL that is let pass as absolute: its scheme and its checked host. -/
structure Absolute (t : Text) (allowedHosts : List Text) (requireHttps : Bool) (scheme : Scheme)
    (schemeRaw rest : Text) : Prop where
  split : splitOnceAt [':', '/', '/'] t = some (schemeRaw, rest)
  lower : schemeRaw.map Char.toLower = scheme.text
  secure : requireHttps = true → scheme = .https
  host : ∃ host, normalizeHost (hostPart (rest.takeWhile inHost)) = some host ∧ host ≠ [] ∧
    ∃ a ∈ allowedHosts, (stripDot a).map Char.toLower = host.map Char.toLower

private theorem checkHostAndScheme_eq_true (t : Text) (allowedHosts : List Text) (requireHttps : Bool)
    (h : checkHostAndScheme t allowedHosts requireHttps = true) :
    (¬ ['/', '/'] <+: t ∧ t.head? ≠ some '\\') ∧ (t.head? = some '/' ∨ t.head? ≠ some '/' ∧
      ∃ scheme schemeRaw rest, Absolute t allowedHosts requireHttps scheme schemeRaw rest) := by
  unfold checkHostAndScheme at h
  split at h
  · cases h
  rename_i hslashes
  simp only [not_or] at hslashes
  refine ⟨⟨hslashes.1, hslashes.2.2⟩, ?_⟩
  split at h
  · rename_i hhead
    exact Or.inl hhead
  rename_i hhead
  refine Or.inr ⟨hhead, ?_⟩
  cases hsplit : splitOnceAt [':', '/', '/'] t with
  | none =>
    rw [hsplit] at h
    cases h
  | some halves =>
    obtain ⟨schemeRaw, rest⟩ := halves
    simp only [hsplit] at h
    split at h
    · rename_i hscheme
      have hhost : ∃ host, normalizeHost (hostPart (rest.takeWhile inHost)) = some host ∧ host ≠ [] ∧
          ∃ a ∈ allowedHosts, (stripDot a).map Char.toLower = host.map Char.toLower := by
        cases hnormal : normalizeHost (hostPart (rest.takeWhile inHost)) with
        | none =>
          rw [hnormal] at h
          cases h
        | some host =>
          simp only [hnormal] at h
          split at h
          · cases h
          · rename_i hne
            simp only [List.any_eq_true, decide_eq_true_eq] at h
            exact ⟨host, rfl, hne, h⟩
      simp only [Bool.or_eq_true, Bool.and_eq_true, decide_eq_true_eq] at hscheme
      rcases hscheme with hscheme | hscheme
      · exact ⟨.https, schemeRaw, rest, hsplit, hscheme, fun _ => rfl, hhost⟩
      · refine ⟨.http, schemeRaw, rest, hsplit, hscheme.1, ?_, hhost⟩
        intro hrequire
        simp [hrequire] at hscheme
    · cases h

private theorem alpha_of_scheme (scheme : Scheme) (s : Text) (h : s.map Char.toLower = scheme.text) (c : Char)
    (hc : c ∈ s) :
    c.isAlpha = true := by
  have hlower : c.toLower ∈ scheme.text := h ▸ List.mem_map_of_mem hc
  have halpha : ∀ d ∈ scheme.text, d.isAlpha = true := by
    cases scheme <;> simp [Scheme.text]
  rw [← Char.isAlpha_toLower_eq_isAlpha]
  exact halpha _ hlower

private theorem schemeState_eq (buffer s rest : Text) (h : ∀ c ∈ s, c.isAlpha = true) :
    schemeState buffer (s ++ ':' :: rest) = some (buffer ++ s.map Char.toLower, rest) := by
  induction s generalizing buffer with
  | nil =>
    rw [List.nil_append, schemeState, if_neg (by decide), if_pos rfl, List.map_nil, List.append_nil]
  | cons c s ih =>
    have hc : c.isAlphanum = true := by simp [Char.isAlphanum, h c List.mem_cons_self]
    rw [List.cons_append, schemeState]
    simp only [hc, Bool.true_or, if_true]
    rw [ih _ fun d hd => h d (List.mem_cons_of_mem _ hd)]
    simp

private theorem schemeStart_eq (scheme : Scheme) (s rest : Text) (h : s.map Char.toLower = scheme.text) :
    schemeStart (s ++ [':', '/', '/'] ++ rest) = some (scheme.text, '/' :: '/' :: rest) := by
  have halpha := alpha_of_scheme scheme s h
  cases s with
  | nil => cases scheme <;> cases h
  | cons c s =>
    simp only [List.cons_append, List.append_assoc, List.nil_append]
    rw [schemeStart, if_pos (halpha c List.mem_cons_self),
      schemeState_eq [c.toLower] s _ fun d hd => halpha d (List.mem_cons_of_mem _ hd), ← h]
    rfl

private theorem map_unescapeSlash (s : Text) (h : ∀ c ∈ s, c.isAlpha = true) : s.map unescapeSlash = s := by
  induction s with
  | nil => rfl
  | cons c s ih =>
    have hc : unescapeSlash c = c := by
      apply if_neg
      intro heq
      have halpha := h c List.mem_cons_self
      rw [heq] at halpha
      cases halpha
    rw [List.map_cons, hc, ih fun d hd => h d (List.mem_cons_of_mem _ hd)]

private theorem trimmed_plain (url : Text) (hcontrol : (trimmed url).any isControl = false)
    (hne : trimmed url ≠ []) :
    input url = trimmed url := by
  have hplain : ∀ c ∈ trimmed url, isControl c = false := by
    intro c hc
    simpa using List.any_eq_false.1 hcontrol c hc
  apply input_eq isAsciiWhitespace _ url (trimmed url) rfl hne
  · intro c hc hspace
    have hc := hplain c hc
    simp only [isControl, Bool.or_eq_false_iff, decide_eq_false_iff_not] at hc
    simp only [isC0OrSpace, decide_eq_true_eq] at hspace
    have hcode : c.toNat = 0x20 := by omega
    have hchar : c = ' ' := by
      rw [← Char.ofNat_toNat c, hcode]
    rw [hchar]
    decide
  · intro c hc
    have hc := hplain c hc
    cases htab : isTabOrNewline c with
    | false => rfl
    | true =>
      simp only [isTabOrNewline, Bool.or_eq_true, decide_eq_true_eq] at htab
      rcases htab with (rfl | rfl) | rfl <;> revert hc <;> decide
  · intro c hc
    simp only [isAsciiWhitespace, Bool.or_eq_true, decide_eq_true_eq] at hc
    rcases hc with (((rfl | rfl) | rfl) | rfl) | rfl <;> decide

private theorem checks_of_allowed (url : Text) (allowedHosts : List Text) (requireHttps : Bool)
    (h : urlHasAllowedHostAndScheme url allowedHosts requireHttps = true) :
    input url = trimmed url ∧ checkHostAndScheme (trimmed url) allowedHosts requireHttps = true ∧
      checkHostAndScheme ((trimmed url).map unescapeSlash) allowedHosts requireHttps = true := by
  unfold urlHasAllowedHostAndScheme at h
  split at h
  · cases h
  rename_i hne
  split at h
  · cases h
  rename_i hcontrol
  split at h
  · cases h
  rename_i hcheck
  simp only [Bool.not_eq_true', Bool.not_eq_false] at hcheck
  refine ⟨trimmed_plain url (by simpa using hcontrol) hne, hcheck, ?_⟩
  simp only at h
  split at h
  · cases h
  rename_i hboth
  simp only [Bool.and_eq_true, decide_eq_true_eq, Bool.not_eq_true', not_and, Bool.not_eq_false] at hboth
  by_cases hsame : (trimmed url).map unescapeSlash = trimmed url
  · rw [hsame]
    exact hcheck
  · exact hboth hsame

private theorem relativeState_slash {Host : Type*} (hostParser : Text → Option Host) (base : Scheme) (t : Text)
    (hhead : t.head? = some '/') (hslashes : ¬ ['/', '/'] <+: t.map unescapeSlash) :
    relativeState hostParser base t = .ownOrigin := by
  cases t with
  | nil => rfl
  | cons c t =>
    have hc : c = '/' := Option.some.inj hhead
    subst hc
    cases t with
    | nil => rfl
    | cons d t =>
      have hd : isSlash d = false := by
        cases hslash : isSlash d with
        | false => rfl
        | true =>
          exfalso
          apply hslashes
          simp only [isSlash, Bool.or_eq_true, decide_eq_true_eq] at hslash
          rcases hslash with rfl | rfl <;> simp [unescapeSlash]
      have hfirst : isSlash '/' = true := by decide
      rw [relativeState, if_pos hfirst, relativeSlashState, hd, if_neg Bool.false_ne_true]

/-- Where a URL that was let pass leads: nowhere else than to the page's own site or an allowed one. -/
def Safe {Host : Type*} (hostParser : Text → Option Host) (allowedHosts : List Text) (requireHttps : Bool) :
    Target Host → Prop
  | .ownOrigin => True
  | .failure => True
  | .otherScheme _ => False
  | .site scheme written host => (requireHttps = true → scheme = .https) ∧ hostParser written = some host ∧
      ∃ a ∈ allowedHosts, SameHost written a

/-- A browser that follows a URL which the check let pass stays on its own origin or goes to an allowed host. -/
theorem allowed_url_is_safe {Host : Type*} (hostParser : Text → Option Host)
    (hrefuses : RefusesBracket hostParser) (base : Scheme) (url : Text) (allowedHosts : List Text)
    (requireHttps : Bool) (h : urlHasAllowedHostAndScheme url allowedHosts requireHttps = true) :
    Safe hostParser allowedHosts requireHttps (browse hostParser base url) := by
  obtain ⟨hinput, hcheck, hunescaped⟩ := checks_of_allowed url allowedHosts requireHttps h
  unfold browse
  rw [hinput]
  generalize trimmed url = t at hcheck hunescaped
  obtain ⟨⟨-, hback⟩, hshape⟩ := checkHostAndScheme_eq_true t allowedHosts requireHttps hcheck
  obtain ⟨⟨hslashes, -⟩, hunescaped⟩ := checkHostAndScheme_eq_true _ allowedHosts requireHttps hunescaped
  rcases hshape with hhead | ⟨hhead, scheme, schemeRaw, rest, hurl⟩
  · have hown : relativeState hostParser base t = .ownOrigin := relativeState_slash hostParser base t hhead hslashes
    have hstart : schemeStart t = none := by
      cases t with
      | nil => cases hhead
      | cons c t =>
        rw [Option.some.inj hhead]
        rfl
    rw [hstart]
    simp only [hown, Safe]
  · have hwhole := splitOnceAt_eq_some _ t schemeRaw rest hurl.split
    have halpha := alpha_of_scheme scheme schemeRaw hurl.lower
    have hcolon : ':' ∉ schemeRaw := fun hmem => absurd (halpha _ hmem) (by decide)
    have hmap : t.map unescapeSlash = schemeRaw ++ [':', '/', '/'] ++ rest.map unescapeSlash := by
      rw [hwhole, List.map_append, List.map_append, map_unescapeSlash schemeRaw halpha]
      rfl
    rcases hunescaped with hslash | ⟨-, scheme', schemeRaw', rest', hurl'⟩
    · exfalso
      rw [hmap] at hslash
      cases schemeRaw with
      | nil =>
        have hlower := hurl.lower
        cases scheme <;> cases hlower
      | cons c schemeRaw =>
        have hc := halpha c List.mem_cons_self
        rw [Option.some.inj hslash] at hc
        revert hc
        decide
    · have hsplit := hurl'.split
      rw [hmap, splitOnceAt_append ':' ['/', '/'] schemeRaw _ hcolon] at hsplit
      obtain ⟨rfl, rfl⟩ := Prod.mk.inj (Option.some.inj hsplit)
      obtain ⟨host, hhost, hne, a, ha, hsame⟩ := hurl'.host
      have hbrowse : ∀ after, afterScheme hostParser base scheme ('/' :: '/' :: after) =
          ignoreSlashes hostParser scheme after := fun _ => rfl
      have hsafe : Safe hostParser allowedHosts requireHttps (ignoreSlashes hostParser scheme rest) := by
        rcases ignoreSlashes_checked hostParser hrefuses scheme rest host hhost hne with hfail | hsite
        · rw [hfail]
          trivial
        · obtain ⟨written, parsed, hparsed, hwritten, hsite⟩ := hsite
          rw [hsite]
          refine ⟨hurl.secure, hparsed, a, ha, ?_⟩
          rw [SameHost, hsame, hwritten, List.map_map]
          apply List.map_congr_left
          intro c _
          exact (Char.toLower_toLower_eq_toLower c).symm
      rw [hwhole, schemeStart_eq scheme schemeRaw rest hurl.lower]
      cases scheme with
      | http =>
        simp only [if_true]
        rw [hbrowse]
        exact hsafe
      | https =>
        have hother : ¬ Scheme.https.text = Scheme.http.text := by decide
        simp only [hother, if_false, if_true]
        rw [hbrowse]
        exact hsafe

private def asciiHost (t : Text) : Option Text := if '[' ∈ t ∧ t.head? ≠ some '[' then none else some t

theorem allowed_url_is_safe_good : Safe asciiHost ["good.com".toList] true
    (browse asciiHost .http "HTTPS://user@Good.com.:443/next".toList) := by
  have hrefuses : RefusesBracket asciiHost := by
    intro t hopen hhead
    simp [asciiHost, hopen, hhead]
  exact allowed_url_is_safe asciiHost hrefuses .http _ _ true (by decide)

end Rustango.Url
