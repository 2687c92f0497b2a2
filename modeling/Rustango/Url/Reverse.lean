import Mathlib
import Rustango.Lib.Tally
import Rustango.Url.Codec

/-!
# Reversing a URL

`substitute` of `urls.rs`: the pattern is read character by character, each placeholder is filled from the
params, and a param that no placeholder used is an error.
-/

namespace Rustango.Url

open Tally

/-- The texts are those of the source's variants. -/
inductive ReverseError
  | missingParam (name param : Text)
  | unexpectedParam (name param : Text)
  | malformedPattern (name detail : Text)

/-- `HashMap<&str, String>`, its entries in the order it iterates. -/
structure Params where
  entries : List (Text × Text)
  keyed : Keyed entries

def Params.get (params : Params) (key : Text) : Option Text := find key params.entries

/-- `placeholder.split(':').next_back()`. -/
def lastPart (placeholder : Text) : Text := (placeholder.splitOn ':').getLastD placeholder

/-- The key that a placeholder looks up, and whether it is a catch-all. -/
def paramKey (params : Params) (key : Text) : Text × Bool :=
  match key with
  | '*' :: bare => if (params.get key).isNone then (bare, true) else (key, true)
  | _ => (key, false)

/-- The text of a placeholder and the key it used. -/
def fill (name : Text) (params : Params) (placeholder : Text) : Except ReverseError (Text × Text) :=
  let key := paramKey params (lastPart placeholder)
  match params.get key.1 with
  | none => .error (.missingParam name key.1)
  | some value =>
    if key.2 then .ok (['/'].intercalate ((value.splitOn '/').map urlEncode), key.1)
    else .ok (urlEncode value, key.1)

/-- The output and the keys used; within a placeholder, its text so far comes along. -/
def scan (name : Text) (params : Params) : Option Text → Text → Except ReverseError (Text × List Text)
  | none, [] => .ok ([], [])
  | some placeholder, [] =>
    .error (.malformedPattern name ("unclosed placeholder starting at `\x7b".toList ++ placeholder ++ ['\x60']))
  | none, c :: cs =>
    if c = '{' then scan name params (some []) cs
    else
      match scan name params none cs with
      | .error e => .error e
      | .ok (out, used) => .ok (c :: out, used)
  | some placeholder, c :: cs =>
    if c = '}' then
      match fill name params placeholder with
      | .error e => .error e
      | .ok (text, key) =>
        match scan name params none cs with
        | .error e => .error e
        | .ok (out, used) => .ok (text ++ out, key :: used)
    else scan name params (some (placeholder ++ [c])) cs

def substitute (name pattern : Text) (params : Params) : Except ReverseError Text :=
  match scan name params none pattern with
  | .error e => .error e
  | .ok (out, used) =>
    match params.entries.find? fun e => e.1 ∉ used with
    | some e => .error (.unexpectedParam name e.1)
    | none => .ok out

/-- A segment of a route's pattern. -/
inductive Segment
  | literal (text : Text)
  | placeholder (type : Option Text) (name : Text)
  | catchAll (name : Text)
deriving DecidableEq

namespace Segment

def text : Segment → Text
  | literal t => t
  | placeholder none name => '{' :: name ++ ['}']
  | placeholder (some type) name => '{' :: (type ++ ':' :: name) ++ ['}']
  | catchAll name => '{' :: '*' :: name ++ ['}']

def name : Segment → Option Text
  | literal _ => none
  | placeholder _ name => some name
  | catchAll name => some name

def isCatchAll : Segment → Bool
  | catchAll _ => true
  | _ => false

/-- The text is read as the segment it is. -/
def WellFormed : Segment → Prop
  | literal t => '/' ∉ t ∧ '{' ∉ t
  | placeholder type name => (∀ t ∈ type, '}' ∉ t) ∧ '}' ∉ name ∧ ':' ∉ name ∧ name.head? ≠ some '*'
  | catchAll name => '}' ∉ name ∧ ':' ∉ name

end Segment

/-- A pattern of segments whose placeholders have distinct names, the catch-all last. -/
structure Pattern where
  segments : List Segment
  nonempty : segments ≠ []
  wellFormed : ∀ s ∈ segments, s.WellFormed
  last : ∀ s ∈ segments.dropLast, s.isCatchAll = false
  distinct : (segments.filterMap Segment.name).Nodup

def Pattern.text (p : Pattern) : Text := ['/'].intercalate (p.segments.map Segment.text)

def Pattern.names (p : Pattern) : List Text := p.segments.filterMap Segment.name

/-- Each placeholder with the raw text it takes: one whole segment that is not empty, the catch-all
what is left from such a one on. -/
def matchSegments : List Segment → List Text → Option (List (Text × Text))
  | [], [] => some []
  | .literal t :: segments, s :: rest => if s = t then matchSegments segments rest else none
  | .placeholder _ name :: segments, s :: rest =>
    if s = [] then none else (matchSegments segments rest).map ((name, s) :: ·)
  | [.catchAll name], s :: rest => if s = [] then none else some [(name, ['/'].intercalate (s :: rest))]
  | _, _ => none

/-- The key under which the params hold the value of a name: that of a catch-all may have its `*`. -/
def Pattern.spelling (p : Pattern) (params : Params) (name : Text) : Text :=
  if .catchAll name ∈ p.segments then (paramKey params ('*' :: name)).1 else name

def isMark (c : Char) : Bool := c = '?' || c = '#'

/-- The params that a router takes from a URL. -/
def Pattern.route (p : Pattern) (url : Text) : Option (List (Text × Text)) :=
  (matchSegments p.segments (url.splitOn '/')).map (·.map fun taken => (taken.1, percentDecodePath taken.2))

def Segment.key (params : Params) : Segment → Option Text
  | .literal _ => none
  | .placeholder _ name => some name
  | .catchAll name => some (paramKey params ('*' :: name)).1

/-- The text that stands in the URL for a segment. -/
inductive Fills (params : Params) : Segment → Text → Prop
  | literal (t : Text) : Fills params (.literal t) t
  | placeholder (type : Option Text) (name value : Text) (h : params.get name = some value) :
      Fills params (.placeholder type name) (urlEncode value)
  | catchAll (name value : Text) (h : params.get (paramKey params ('*' :: name)).1 = some value) :
      Fills params (.catchAll name) (['/'].intercalate ((value.splitOn '/').map urlEncode))

private theorem lastPart_name (name : Text) (h : ':' ∉ name) : lastPart name = name := by
  rw [lastPart, List.splitOn_eq_singleton h]
  rfl

private theorem lastPart_typed (type name : Text) (h : ':' ∉ name) : lastPart (type ++ ':' :: name) = name := by
  rw [lastPart, List.splitOn_append_cons_self, List.splitOn_eq_singleton h]
  simp

private theorem paramKey_name (params : Params) (name : Text) (h : name.head? ≠ some '*') :
    paramKey params name = (name, false) := by
  unfold paramKey
  split
  · simp at h
  · rfl

private theorem paramKey_catchAll (params : Params) (name : Text) :
    (paramKey params ('*' :: name)).2 = true := by
  unfold paramKey
  split
  · rename_i bare heq
    split <;> rfl
  · rename_i h
    exact absurd rfl (h name)

section Scan
variable (name : Text) (params : Params)

private theorem scan_literal (t cs : Text) (h : '{' ∉ t) :
    scan name params none (t ++ cs) =
      match scan name params none cs with
      | .error e => .error e
      | .ok (out, used) => .ok (t ++ out, used) := by
  induction t with
  | nil =>
    simp only [List.nil_append]
    split <;> rename_i heq <;> exact heq
  | cons c t ih =>
    simp only [List.mem_cons, not_or] at h
    rw [List.cons_append, scan, if_neg (Ne.symm h.1), ih h.2]
    cases scan name params none cs <;> rfl

private theorem scan_within (so placeholder cs : Text) (h : '}' ∉ placeholder) :
    scan name params (some so) (placeholder ++ '}' :: cs) =
      match fill name params (so ++ placeholder) with
      | .error e => .error e
      | .ok (text, key) =>
        match scan name params none cs with
        | .error e => .error e
        | .ok (out, used) => .ok (text ++ out, key :: used) := by
  induction placeholder generalizing so with
  | nil => rw [List.nil_append, scan, if_pos rfl, List.append_nil]
  | cons c placeholder ih =>
    simp only [List.mem_cons, not_or] at h
    rw [List.cons_append, scan, if_neg (Ne.symm h.1), ih (so ++ [c]) h.2, List.append_assoc, List.singleton_append]

private theorem scan_placeholder (placeholder cs out : Text) (used : List Text) (h : '}' ∉ placeholder)
    (hscan : scan name params none ('{' :: placeholder ++ '}' :: cs) = .ok (out, used)) :
    ∃ text key after rest, fill name params placeholder = .ok (text, key) ∧
      scan name params none cs = .ok (after, rest) ∧ out = text ++ after ∧ used = key :: rest := by
  rw [List.cons_append, scan, if_pos rfl, scan_within name params [] placeholder cs h, List.nil_append] at hscan
  cases hfill : fill name params placeholder with
  | error e =>
    rw [hfill] at hscan
    cases hscan
  | ok filled =>
    cases hrest : scan name params none cs with
    | error e =>
      rw [hfill, hrest] at hscan
      cases hscan
    | ok after =>
      rw [hfill, hrest] at hscan
      cases hscan
      exact ⟨filled.1, filled.2, after.1, after.2, rfl, rfl, rfl, rfl⟩

private theorem fill_name (placeholder text key : Text) (hhead : (lastPart placeholder).head? ≠ some '*')
    (h : fill name params placeholder = .ok (text, key)) :
    key = lastPart placeholder ∧ ∃ value, params.get (lastPart placeholder) = some value ∧
      text = urlEncode value := by
  unfold fill at h
  rw [paramKey_name params _ hhead] at h
  cases hget : params.get (lastPart placeholder) with
  | none =>
    simp only [hget] at h
    cases h
  | some value =>
    simp only [hget, Bool.false_eq_true, if_false] at h
    cases h
    exact ⟨rfl, value, rfl, rfl⟩

private theorem fill_catchAll (rest text key : Text) (hcolon : ':' ∉ rest)
    (h : fill name params ('*' :: rest) = .ok (text, key)) :
    key = (paramKey params ('*' :: rest)).1 ∧ ∃ value, params.get (paramKey params ('*' :: rest)).1 = some value ∧
      text = ['/'].intercalate ((value.splitOn '/').map urlEncode) := by
  have hlast : lastPart ('*' :: rest) = '*' :: rest := lastPart_name _ (by simp [hcolon])
  unfold fill at h
  rw [hlast] at h
  simp only [paramKey_catchAll, if_true] at h
  cases hget : params.get (paramKey params ('*' :: rest)).1 with
  | none =>
    rw [hget] at h
    cases h
  | some value =>
    rw [hget] at h
    cases h
    exact ⟨rfl, value, rfl, rfl⟩

/-- One segment scanned: its text is written and its key used. -/
private theorem scan_segment (s : Segment) (hs : s.WellFormed) (cs out : Text) (used : List Text)
    (h : scan name params none (s.text ++ cs) = .ok (out, used)) :
    ∃ piece after rest, Fills params s piece ∧ scan name params none cs = .ok (after, rest) ∧
      out = piece ++ after ∧ used = (s.key params).toList ++ rest := by
  cases s with
  | literal t =>
    simp only [Segment.text] at h
    rw [scan_literal name params t cs hs.2] at h
    cases hrest : scan name params none cs with
    | error e =>
      rw [hrest] at h
      cases h
    | ok after =>
      rw [hrest] at h
      cases h
      exact ⟨t, after.1, after.2, Fills.literal t, rfl, rfl, rfl⟩
  | placeholder type label =>
    have hclosed : ∃ placeholder, (Segment.placeholder type label).text ++ cs = '{' :: placeholder ++ '}' :: cs ∧
        '}' ∉ placeholder ∧ lastPart placeholder = label := by
      have hname := hs.2
      cases type with
      | none => exact ⟨label, by simp [Segment.text], hname.1, lastPart_name label hname.2.1⟩
      | some type =>
        refine ⟨type ++ ':' :: label, by simp [Segment.text], ?_, lastPart_typed type label hname.2.1⟩
        have htype := hs.1 type rfl
        simp [htype, hname.1]
    obtain ⟨placeholder, htext, hclosed, hlast⟩ := hclosed
    rw [htext] at h
    obtain ⟨text, key, after, rest, hfill, hrest, hout, hused⟩ :=
      scan_placeholder name params placeholder cs out used hclosed h
    have hhead : (lastPart placeholder).head? ≠ some '*' := by
      rw [hlast]
      exact hs.2.2.2
    obtain ⟨hkey, value, hvalue, htext⟩ := fill_name name params placeholder text key hhead hfill
    rw [hlast] at hkey hvalue
    refine ⟨text, after, rest, ?_, hrest, hout, by rw [hused, hkey]; rfl⟩
    rw [htext]
    exact Fills.placeholder type label value hvalue
  | catchAll label =>
    have htext : (Segment.catchAll label).text ++ cs = '{' :: ('*' :: label) ++ '}' :: cs := by
      simp [Segment.text]
    have hclosed : '}' ∉ '*' :: label := by simp [hs.1]
    rw [htext] at h
    obtain ⟨text, key, after, rest, hfill, hrest, hout, hused⟩ :=
      scan_placeholder name params _ cs out used hclosed h
    obtain ⟨hkey, value, hvalue, htext⟩ := fill_catchAll name params label text key hs.2 hfill
    refine ⟨text, after, rest, ?_, hrest, hout, by rw [hused, hkey]; rfl⟩
    rw [htext]
    exact Fills.catchAll label value hvalue

/-- The pattern scanned: segment by segment. -/
private theorem scan_segments (segments : List Segment) (hsegments : ∀ s ∈ segments, s.WellFormed) (out : Text)
    (used : List Text)
    (h : scan name params none (['/'].intercalate (segments.map Segment.text)) = .ok (out, used)) :
    ∃ pieces, List.Forall₂ (Fills params) segments pieces ∧ out = ['/'].intercalate pieces ∧
      used = segments.filterMap (Segment.key params) := by
  induction segments generalizing out used with
  | nil =>
    cases h
    exact ⟨[], List.Forall₂.nil, rfl, rfl⟩
  | cons s segments ih =>
    have hs := hsegments s List.mem_cons_self
    have hrest := fun t ht => hsegments t (List.mem_cons_of_mem _ ht)
    cases segments with
    | nil =>
      have htext : ['/'].intercalate ([s].map Segment.text) = s.text ++ [] := by simp
      rw [htext] at h
      obtain ⟨piece, after, rest, hfills, hscan, hout, hused⟩ := scan_segment name params s hs [] out used h
      cases hscan
      refine ⟨[piece], List.Forall₂.cons hfills List.Forall₂.nil, by simp [hout], ?_⟩
      rw [hused]
      cases hkey : s.key params <;> simp [hkey]
    | cons t segments =>
      have htext : ['/'].intercalate ((s :: t :: segments).map Segment.text) =
          s.text ++ '/' :: ['/'].intercalate ((t :: segments).map Segment.text) := by simp
      rw [htext] at h
      obtain ⟨piece, after, rest, hfills, hscan, hout, hused⟩ := scan_segment name params s hs _ out used h
      rw [scan, if_neg (by decide)] at hscan
      cases htail : scan name params none (['/'].intercalate ((t :: segments).map Segment.text)) with
      | error e =>
        rw [htail] at hscan
        cases hscan
      | ok tail =>
        rw [htail] at hscan
        cases hscan
        obtain ⟨pieces, hpieces, hafter, hkeys⟩ := ih hrest tail.1 tail.2 htail
        refine ⟨piece :: pieces, List.Forall₂.cons hfills hpieces, ?_, ?_⟩
        · cases hpieces
          rw [hout, hafter]
          simp
        · rw [hused, hkeys]
          cases hkey : s.key params <;> simp [List.filterMap_cons, hkey]

end Scan

private theorem slash_not_mem_parts (value : Text) : ∀ t ∈ (value.splitOn '/').map urlEncode, '/' ∉ t := by
  intro t ht
  obtain ⟨part, -, rfl⟩ := List.mem_map.1 ht
  exact slash_not_mem_urlEncode part

private theorem unescape_parts (parts : List Text) (rest : Utf8.Bytes) :
    unescape false 0 (Utf8.encode (['/'].intercalate (parts.map urlEncode)) ++ rest) =
      Utf8.encode (['/'].intercalate parts) ++ unescape false 0 rest := by
  induction parts with
  | nil => rfl
  | cons part parts ih =>
    cases parts with
    | nil =>
      simp only [List.map_cons, List.map_nil, List.intercalate_singleton]
      rw [encode_urlEncode, unescape_encodeBytes]
    | cons next parts =>
      have hslash : Utf8.encode ['/'] = [0x2F] := by decide
      simp only [List.map_cons, List.intercalate_cons_cons, Utf8.encode_append, List.append_assoc] at ih ⊢
      rw [encode_urlEncode, unescape_encodeBytes, hslash, List.singleton_append,
        unescape_literal false 0x2F _ (hexPairAt_of_ne _ _ (by decide)), ih]
      rfl

private theorem percentDecodePath_parts (value : Text) :
    percentDecodePath (['/'].intercalate ((value.splitOn '/').map urlEncode)) = value := by
  have hparts := unescape_parts (value.splitOn '/') []
  simp only [List.append_nil, unescape_nil, List.intercalate_splitOn] at hparts
  rw [percentDecodePath, decodeEscapes, hparts, Utf8.fromUtf8Lossy_encode]

private theorem splitOn_first (value : Text) (hne : value ≠ []) (hslash : value.head? ≠ some '/') :
    ∃ part parts, value.splitOn '/' = part :: parts ∧ part ≠ [] := by
  cases value with
  | nil => exact absurd rfl hne
  | cons c value =>
    have hc : ¬ (c == '/') = true := by simpa using hslash
    rw [List.splitOn_cons_eq_if_modifyHead, if_neg hc]
    cases hsplit : value.splitOn '/' with
    | nil => exact absurd hsplit (List.splitOn_ne_nil _ _)
    | cons part parts => exact ⟨c :: part, parts, rfl, List.cons_ne_nil _ _⟩

/-- The value that a placeholder was filled with comes back under its name. -/
def Comes (params : Params) (segment : Segment) (taken : Text × Text) : Prop :=
  segment.name = some taken.1 ∧ ∃ key, segment.key params = some key ∧
    params.get key = some (percentDecodePath taken.2)

section Match
variable (params : Params) (hvalues : ∀ key value, params.get key = some value → value ≠ [])
include hvalues

/-- What was filled in is matched, segment by segment. -/
private theorem matchSegments_pieces (segments : List Segment) (pieces : List Text)
    (hfills : List.Forall₂ (Fills params) segments pieces) (hne : segments ≠ [])
    (hsegments : ∀ s ∈ segments, s.WellFormed) (hlast : ∀ s ∈ segments.dropLast, s.isCatchAll = false)
    (hcatchAll : ∀ name, Segment.catchAll name ∈ segments → ∀ value,
      params.get (paramKey params ('*' :: name)).1 = some value → value.head? ≠ some '/') :
    ∃ taken, matchSegments segments ((['/'].intercalate pieces).splitOn '/') = some taken ∧
      List.Forall₂ (Comes params) (segments.filter fun s => s.name.isSome) taken := by
  induction hfills with
  | nil => exact absurd rfl hne
  | @cons s piece segments pieces hs hfills ih =>
    have hrest : segments ≠ [] → ∃ taken,
        matchSegments segments ((['/'].intercalate pieces).splitOn '/') = some taken ∧
          List.Forall₂ (Comes params) (segments.filter fun s => s.name.isSome) taken := by
      intro hne
      apply ih hne
      · exact fun t ht => hsegments t (List.mem_cons_of_mem _ ht)
      · intro t ht
        apply hlast
        rw [List.dropLast_cons_of_ne_nil hne]
        exact List.mem_cons_of_mem _ ht
      · exact fun name hmem => hcatchAll name (List.mem_cons_of_mem _ hmem)
    have hsplit : '/' ∉ piece → (['/'].intercalate (piece :: pieces)).splitOn '/' =
        piece :: if pieces = [] then [] else (['/'].intercalate pieces).splitOn '/' := by
      intro hpiece
      cases pieces with
      | nil => simp [List.splitOn_eq_singleton hpiece]
      | cons next pieces =>
        rw [List.intercalate_cons_cons, List.append_assoc, List.singleton_append,
          List.splitOn_append_cons_self_of_not_mem hpiece]
        simp
    have htail : ∃ taken, matchSegments segments
        (if pieces = [] then [] else (['/'].intercalate pieces).splitOn '/') = some taken ∧
          List.Forall₂ (Comes params) (segments.filter fun s => s.name.isSome) taken := by
      cases hfills with
      | nil => exact ⟨[], rfl, List.Forall₂.nil⟩
      | cons _ _ =>
        rw [if_neg (List.cons_ne_nil _ _)]
        exact hrest (List.cons_ne_nil _ _)
    obtain ⟨taken, htaken, hcomes⟩ := htail
    cases hs with
    | literal =>
      have hliteral := (hsegments _ List.mem_cons_self).1
      refine ⟨taken, ?_, by simpa [Segment.name] using hcomes⟩
      rw [hsplit hliteral, matchSegments, if_pos rfl, htaken]
    | placeholder type name value hvalue =>
      have hpiece : ¬ urlEncode value = [] := by
        rw [urlEncode_eq_nil]
        exact hvalues name value hvalue
      refine ⟨(name, urlEncode value) :: taken, ?_, ?_⟩
      · rw [hsplit (slash_not_mem_urlEncode value), matchSegments, if_neg hpiece, htaken]
        rfl
      · simp only [List.filter_cons, Segment.name, Option.isSome_some, if_true]
        refine List.Forall₂.cons ⟨rfl, name, rfl, ?_⟩ hcomes
        rw [hvalue, percentDecodePath, decodeEscapes_urlEncode]
    | catchAll name value hvalue =>
      -- nothing stands behind a catch-all
      have hend : segments = [] := by
        cases segments with
        | nil => rfl
        | cons t segments =>
          have hno := hlast (.catchAll name) (by simp)
          cases hno
      subst hend
      cases hfills
      obtain ⟨part, parts, hparts, hfirst⟩ := splitOn_first value (hvalues _ value hvalue)
        (hcatchAll name List.mem_cons_self value hvalue)
      have hpieces : (['/'].intercalate ((value.splitOn '/').map urlEncode)).splitOn '/' =
          (value.splitOn '/').map urlEncode :=
        List.splitOn_intercalate '/' (slash_not_mem_parts value) (by simp)
      refine ⟨[(name, ['/'].intercalate ((value.splitOn '/').map urlEncode))], ?_, ?_⟩
      · rw [List.intercalate_singleton, hpieces, hparts, List.map_cons, matchSegments,
          if_neg (by rw [urlEncode_eq_nil]; exact hfirst)]
      · simp only [List.filter_cons, Segment.name, Option.isSome_some, if_true, List.filter_nil]
        refine List.Forall₂.cons ⟨rfl, _, rfl, ?_⟩ List.Forall₂.nil
        rw [percentDecodePath_parts, hvalue]

end Match

private theorem filterMap_injective {α β : Type*} {f : α → Option β} {l : List α} (hl : (l.filterMap f).Nodup)
    {a b : α}
    {c : β} (ha : a ∈ l) (hb : b ∈ l) (hac : f a = some c) (hbc : f b = some c) : a = b := by
  induction l with
  | nil => cases ha
  | cons x l ih =>
    cases hx : f x with
    | none =>
      rw [List.filterMap_cons_none hx] at hl
      have ha : a ∈ l := by
        rcases List.mem_cons.1 ha with rfl | ha
        · rw [hx] at hac
          cases hac
        · exact ha
      have hb : b ∈ l := by
        rcases List.mem_cons.1 hb with rfl | hb
        · rw [hx] at hbc
          cases hbc
        · exact hb
      exact ih hl ha hb
    | some y =>
      rw [List.filterMap_cons_some hx, List.nodup_cons] at hl
      have hother : ∀ z ∈ l, f z = some c → y ≠ c := by
        intro z hz hzc hyc
        apply hl.1
        rw [hyc]
        exact List.mem_filterMap.2 ⟨z, hz, hzc⟩
      rcases List.mem_cons.1 ha with rfl | hatail
      · rcases List.mem_cons.1 hb with rfl | hbtail
        · rfl
        · rw [hx] at hac
          exact absurd (Option.some.inj hac) (hother _ hbtail hbc)
      · rcases List.mem_cons.1 hb with rfl | hbtail
        · rw [hx] at hbc
          exact absurd (Option.some.inj hbc) (hother _ hatail hac)
        · exact ih hl.2 hatail hbtail

namespace Pattern
variable (p : Pattern) (params : Params)

theorem catchAll_unique (a b : Text) (ha : .catchAll a ∈ p.segments) (hb : .catchAll b ∈ p.segments) : a = b := by
  have hend : ∀ name, Segment.catchAll name ∈ p.segments →
      .catchAll name = p.segments.getLast p.nonempty := by
    intro name hmem
    rw [← List.dropLast_concat_getLast p.nonempty] at hmem
    rcases List.mem_append.1 hmem with hmem | hmem
    · cases p.last _ hmem
    · exact List.mem_singleton.1 hmem
  have hsame := (hend a ha).trans (hend b hb).symm
  cases hsame
  rfl

theorem key_eq_spelling (s : Segment) (hs : s ∈ p.segments) (name : Text) (hname : s.name = some name) :
    s.key params = some (p.spelling params name) := by
  cases s with
  | literal => cases hname
  | placeholder type label =>
    cases hname
    have hno : ¬ Segment.catchAll name ∈ p.segments := by
      intro hmem
      cases filterMap_injective p.distinct hs hmem rfl rfl
    rw [spelling, if_neg hno]
    rfl
  | catchAll label =>
    cases hname
    rw [spelling, if_pos hs]
    rfl

theorem keys_eq_spellings : p.segments.filterMap (Segment.key params) = p.names.map (p.spelling params) := by
  have hall : ∀ segments : List Segment, (∀ s ∈ segments, s ∈ p.segments) →
      segments.filterMap (Segment.key params) = (segments.filterMap Segment.name).map (p.spelling params) := by
    intro segments
    induction segments with
    | nil => exact fun _ => rfl
    | cons s segments ih =>
      intro hmem
      have hrest := ih fun t ht => hmem t (List.mem_cons_of_mem _ ht)
      cases hname : s.name with
      | none =>
        have hkey : s.key params = none := by cases s <;> simp_all [Segment.name, Segment.key]
        rw [List.filterMap_cons_none hname, List.filterMap_cons_none hkey, hrest]
      | some name =>
        have hkey := p.key_eq_spelling params s (hmem s List.mem_cons_self) name hname
        rw [List.filterMap_cons_some hname, List.filterMap_cons_some hkey, hrest]
        rfl
  exact hall p.segments fun _ hs => hs

theorem head_of_placeholder (type : Option Text) (name : Text) (h : .placeholder type name ∈ p.segments) :
    name.head? ≠ some '*' := (p.wellFormed _ h).2.2.2

theorem paramKey_spelled (name : Text) :
    (paramKey params ('*' :: name)).1 = name ∨ (paramKey params ('*' :: name)).1 = '*' :: name := by
  simp only [paramKey]
  split
  · exact Or.inl rfl
  · exact Or.inr rfl

/-- Two names are never spelled alike. -/
theorem spelling_injective (a b : Text) (ha : a ∈ p.names) (hb : b ∈ p.names)
    (h : p.spelling params a = p.spelling params b) : a = b := by
  have hstar : ∀ name, name ∈ p.names → .catchAll name ∉ p.segments → name.head? ≠ some '*' := by
    intro name hmem hno
    obtain ⟨s, hs, hname⟩ := List.mem_filterMap.1 hmem
    cases s with
    | literal => cases hname
    | placeholder type label =>
      cases hname
      exact p.head_of_placeholder type name hs
    | catchAll label =>
      cases hname
      exact absurd hs hno
  unfold spelling at h
  split at h <;> split at h
  · rename_i hca hcb
    exact p.catchAll_unique a b hca hcb
  · rename_i _ hcb
    rcases paramKey_spelled params a with hkey | hkey
    · rw [← hkey, h]
    · have hhead := hstar b hb hcb
      rw [← h, hkey] at hhead
      exact absurd rfl hhead
  · rename_i hca _
    rcases paramKey_spelled params b with hkey | hkey
    · rw [← hkey, h]
    · have hhead := hstar a ha hca
      rw [h, hkey] at hhead
      exact absurd rfl hhead
  · exact h

theorem nodup_spellings : (p.names.map (p.spelling params)).Nodup := by
  apply List.Nodup.map_on _ p.distinct
  intro a ha b hb h
  exact p.spelling_injective params a b ha hb h

end Pattern

private theorem filter_urlEncode (value : Text) : (urlEncode value).filter isMark = [] := by
  apply List.filter_eq_nil_iff.2
  intro c hc hmark
  simp only [isMark, Bool.or_eq_true, decide_eq_true_eq] at hmark
  rcases hmark with rfl | rfl
  · exact not_mem_urlEncode value 0x3F (by decide) (by decide) (by decide) hc
  · exact not_mem_urlEncode value 0x23 (by decide) (by decide) (by decide) hc

private theorem filter_intercalate (ts : List Text) :
    (['/'].intercalate ts).filter isMark = ts.flatMap fun t => t.filter isMark := by
  induction ts with
  | nil => rfl
  | cons t ts ih =>
    cases ts with
    | nil => simp
    | cons next ts =>
      have hslash : isMark '/' = false := by decide
      rw [List.intercalate_cons_cons, List.filter_append, List.filter_append, ih]
      simp [hslash]

private theorem filter_parts (value : Text) :
    (['/'].intercalate ((value.splitOn '/').map urlEncode)).filter isMark = [] := by
  rw [filter_intercalate]
  apply List.flatMap_eq_nil_iff.2
  intro t ht
  obtain ⟨part, -, rfl⟩ := List.mem_map.1 ht
  exact filter_urlEncode part

private theorem marks_of_fills (params : Params) (segments : List Segment) (pieces : List Text)
    (hfills : List.Forall₂ (Fills params) segments pieces) :
    ((['/'].intercalate pieces).filter isMark).Sublist
      ((['/'].intercalate (segments.map Segment.text)).filter isMark) := by
  rw [filter_intercalate, filter_intercalate]
  induction hfills with
  | nil => exact List.Sublist.refl _
  | @cons s piece segments pieces hs _ ih =>
    have hpiece : (piece.filter isMark).Sublist (s.text.filter isMark) := by
      cases hs with
      | literal => exact List.Sublist.refl _
      | placeholder =>
        rw [filter_urlEncode]
        exact List.nil_sublist _
      | catchAll =>
        rw [filter_parts]
        exact List.nil_sublist _
    rw [List.map_cons, List.flatMap_cons, List.flatMap_cons]
    exact hpiece.append ih

private theorem substitute_eq_ok (name : Text) (p : Pattern) (params : Params) (url : Text)
    (h : substitute name p.text params = .ok url) :
    ∃ pieces, List.Forall₂ (Fills params) p.segments pieces ∧ url = ['/'].intercalate pieces ∧
      ∀ e ∈ params.entries, e.1 ∈ p.names.map (p.spelling params) := by
  unfold substitute at h
  cases hscan : scan name params none p.text with
  | error e =>
    rw [hscan] at h
    cases h
  | ok scanned =>
    rw [hscan] at h
    obtain ⟨pieces, hfills, hout, hused⟩ := scan_segments name params p.segments p.wellFormed _ _ hscan
    rw [p.keys_eq_spellings params] at hused
    cases hfind : params.entries.find? fun e => e.1 ∉ scanned.2 with
    | some e =>
      simp only [hfind] at h
      cases h
    | none =>
      simp only [hfind] at h
      cases h
      refine ⟨pieces, hfills, hout, ?_⟩
      intro e he
      have hmem := List.find?_eq_none.1 hfind e he
      rw [← hused]
      simpa using hmem

private theorem names_of_comes (params : Params) (segments : List Segment) (taken : List (Text × Text))
    (h : List.Forall₂ (Comes params) (segments.filter fun s => s.name.isSome) taken) :
    segments.filterMap Segment.name = taken.map Prod.fst := by
  induction segments generalizing taken with
  | nil =>
    cases h
    rfl
  | cons s segments ih =>
    cases hname : s.name with
    | none =>
      rw [List.filterMap_cons_none hname]
      apply ih
      simpa [List.filter_cons, hname] using h
    | some name =>
      rw [List.filterMap_cons_some hname]
      simp only [List.filter_cons, hname, Option.isSome_some, if_true] at h
      cases h with
      | cons hs hrest =>
        have hfirst := hs.1
        rw [hname] at hfirst
        rw [List.map_cons, ih _ hrest, Option.some.inj hfirst]

private theorem get_of_comes (p : Pattern) (params : Params) (segments : List Segment)
    (hsegments : ∀ s ∈ segments, s ∈ p.segments) (taken : List (Text × Text))
    (h : List.Forall₂ (Comes params) segments taken) :
    ∀ t ∈ taken, params.get (p.spelling params t.1) = some (percentDecodePath t.2) := by
  induction h with
  | nil => simp
  | @cons s t segments taken hs _ ih =>
    intro u hu
    rcases List.mem_cons.1 hu with rfl | hu
    · obtain ⟨hname, key, hkey, hget⟩ := hs
      rw [p.key_eq_spelling params s (hsegments s List.mem_cons_self) u.1 hname] at hkey
      rw [Option.some.inj hkey]
      exact hget
    · exact ih (fun s hs => hsegments s (List.mem_cons_of_mem _ hs)) u hu

private theorem perm_of_found (params : Params) (found : List (Text × Text))
    (hnodup : (found.map Prod.fst).Nodup)
    (hget : ∀ e ∈ found, params.get e.1 = some e.2)
    (hall : ∀ e ∈ params.entries, e.1 ∈ found.map Prod.fst) : found.Perm params.entries := by
  apply (List.perm_ext_iff_of_nodup (List.Nodup.of_map _ hnodup) (List.Nodup.of_map _ params.keyed)).2
  intro e
  constructor
  · intro he
    exact mem_of_find (hget e he)
  · intro he
    obtain ⟨f, hf, hkey⟩ := List.mem_map.1 (hall e he)
    have hvalue := hget f hf
    rw [hkey, Params.get, find_of_mem params.keyed he] at hvalue
    have hsame : f = e := Prod.ext hkey (Option.some.inj hvalue).symm
    rw [← hsame]
    exact hf

/-- What `substitute` makes of a pattern and its params is matched by the pattern, and gives the params back. -/
theorem substitute_routes_back (p : Pattern) (name : Text) (params : Params) (url : Text)
    (hurl : substitute name p.text params = .ok url)
    (hvalues : ∀ key value, params.get key = some value → value ≠ [])
    (hcatchAll : ∀ rest, .catchAll rest ∈ p.segments → ∀ value,
      params.get (p.spelling params rest) = some value → value.head? ≠ some '/') :
    (∃ found, p.route url = some found ∧ found.map Prod.fst = p.names ∧
      (found.map fun taken => (p.spelling params taken.1, taken.2)).Perm params.entries) ∧
    (p.names.map (p.spelling params)).Perm (params.entries.map Prod.fst) ∧
    (url.filter isMark).Sublist (p.text.filter isMark) := by
  obtain ⟨pieces, hfills, hout, hused⟩ := substitute_eq_ok name p params url hurl
  have hslash : ∀ rest, Segment.catchAll rest ∈ p.segments → ∀ value,
      params.get (paramKey params ('*' :: rest)).1 = some value → value.head? ≠ some '/' := by
    intro rest hmem value hvalue
    apply hcatchAll rest hmem value
    rw [Pattern.spelling, if_pos hmem]
    exact hvalue
  obtain ⟨taken, htaken, hcomes⟩ := matchSegments_pieces params hvalues p.segments pieces hfills p.nonempty
    p.wellFormed p.last hslash
  have hnames : p.names = taken.map Prod.fst := names_of_comes params p.segments taken hcomes
  have hget := get_of_comes p params _ (fun s hs => List.mem_of_mem_filter hs) taken hcomes
  have hkeys : (taken.map fun t => (p.spelling params t.1, percentDecodePath t.2)).map Prod.fst =
      p.names.map (p.spelling params) := by
    rw [hnames, List.map_map, List.map_map]
    rfl
  have hperm : (taken.map fun t => (p.spelling params t.1, percentDecodePath t.2)).Perm params.entries := by
    apply perm_of_found
    · rw [hkeys]
      exact p.nodup_spellings params
    · intro e he
      obtain ⟨t, ht, rfl⟩ := List.mem_map.1 he
      exact hget t ht
    · rw [hkeys]
      exact hused
  refine ⟨⟨taken.map fun t => (t.1, percentDecodePath t.2), ?_, ?_, ?_⟩, ?_, ?_⟩
  · rw [Pattern.route, hout, htaken]
    rfl
  · rw [hnames, List.map_map]
    rfl
  · rw [List.map_map]
    exact hperm
  · rw [← hkeys]
    exact hperm.map Prod.fst
  · rw [hout]
    exact marks_of_fills params p.segments pieces hfills

private def filePattern : Pattern where
  segments := [.literal [], .literal "files".toList, .placeholder (some "int".toList) "id".toList,
    .catchAll "rest".toList]
  nonempty := by simp
  wellFormed := by simp [Segment.WellFormed]
  last := by simp [Segment.isCatchAll]
  distinct := by decide

private def fileParams : Params where
  entries := [("*rest".toList, "a/b".toList), ("id".toList, "7?".toList)]
  keyed := by simp [Keyed]

theorem substitute_routes_back_file :
    (∃ found, filePattern.route "/files/7%3F/a/b".toList = some found ∧
      found.map Prod.fst = filePattern.names ∧
      (found.map fun taken => (filePattern.spelling fileParams taken.1, taken.2)).Perm fileParams.entries) ∧
    (filePattern.names.map (filePattern.spelling fileParams)).Perm (fileParams.entries.map Prod.fst) ∧
    ("/files/7%3F/a/b".toList.filter isMark).Sublist (filePattern.text.filter isMark) := by
  have hentries : ∀ key value, fileParams.get key = some value → value ≠ [] ∧ value.head? ≠ some '/' := by
    intro key value hget
    have hmem := mem_of_find hget
    simp only [fileParams, List.mem_cons, Prod.mk.injEq, List.not_mem_nil, or_false] at hmem
    rcases hmem with ⟨-, rfl⟩ | ⟨-, rfl⟩ <;> decide
  exact substitute_routes_back filePattern "file".toList fileParams _ (by rfl)
    (fun key value hget => (hentries key value hget).1) fun _ _ value hget => (hentries _ value hget).2

end Rustango.Url
