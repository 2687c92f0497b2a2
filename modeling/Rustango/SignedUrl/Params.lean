import Mathlib
import Rustango.Pagination.Query

/-!
# The parameters of a URL

`split_fragment`, `parse_url`, `canonicalize` and `rebuild_url` of `signed_url.rs`. A parameter is read twice:
as the bytes behind its escapes, and as the text that `url_decode` makes of them.
-/

namespace Rustango.SignedUrl

open Url Utf8 Halves
open Rustango.Pagination (Query readPair readPairs)

def splitFragment (url : Text) : Text × Text := (url.takeWhile (· ≠ '#'), url.dropWhile (· ≠ '#'))

def parseUrl (url : Text) : Text × Query :=
  match splitOnce '?' url with
  | some (base, query) => (base, readPairs query)
  | none => (url, [])

def writeParam (param : Text × Text) : Text := urlEncode param.1 ++ '=' :: urlEncode param.2

def rebuildUrl (base : Text) (params : Query) : Text :=
  if params = [] then base else base ++ '?' :: ['&'].intercalate (params.map writeParam)

/-- By key, then by value. -/
def paramOrder (a b : Text × Text) : Prop := a.1 < b.1 ∨ a.1 = b.1 ∧ a.2 ≤ b.2

instance : DecidableRel paramOrder := fun a b => inferInstanceAs (Decidable (a.1 < b.1 ∨ a.1 = b.1 ∧ a.2 ≤ b.2))

def canonicalize (base : Text) (params : Query) : Text := rebuildUrl base (params.insertionSort paramOrder)

section Parts
variable (url : Text)

def base : Text := (parseUrl (splitFragment url).1).1

def fragment : Text := (splitFragment url).2

/-- The parameters, decoded. -/
def params : Query := (parseUrl (splitFragment url).1).2

/-- The bytes of a key or a value, escapes undone and plus read as space. -/
def rawComponent (s : Text) : Bytes := unescape true 0 (encode s)

def rawPair (pair : Text) : Bytes × Bytes :=
  let halves := (splitOnce '=' pair).getD (pair, [])
  (rawComponent halves.1, rawComponent halves.2)

/-- The parameters byte for byte. -/
def rawParams : List (Bytes × Bytes) :=
  match splitOnce '?' (splitFragment url).1 with
  | some (_, query) => ((query.splitOn '&').filter (· ≠ [])).map rawPair
  | none => []

end Parts

def asText (p : Bytes × Bytes) : Text × Text := (fromUtf8Lossy p.1, fromUtf8Lossy p.2)

def asBytes (p : Text × Text) : Bytes × Bytes := (encode p.1, encode p.2)

def isUtf8 (p : Bytes × Bytes) : Bool := (fromUtf8 p.1).isSome && (fromUtf8 p.2).isSome

private theorem params_eq (url : Text) : params url = (rawParams url).map asText := by
  unfold params parseUrl rawParams
  cases splitOnce '?' (splitFragment url).1 with
  | none => rfl
  | some halves =>
    simp only [readPairs, List.map_map]
    rfl

@[simp] theorem asText_asBytes (p : Text × Text) : asText (asBytes p) = p := by simp [asText, asBytes]

theorem isUtf8_asBytes (p : Text × Text) : isUtf8 (asBytes p) = true := by simp [isUtf8, asBytes]

private theorem encode_lossy {b : Bytes} (h : (fromUtf8 b).isSome = true) : encode (fromUtf8Lossy b) = b := by
  obtain ⟨cs, hcs⟩ := Option.isSome_iff_exists.1 h
  rw [(fromUtf8_eq_some b cs).1 hcs, fromUtf8Lossy_encode]

private theorem asBytes_asText {p : Bytes × Bytes} (h : isUtf8 p = true) : asBytes (asText p) = p := by
  unfold isUtf8 at h
  rw [Bool.and_eq_true] at h
  exact Prod.ext (encode_lossy h.1) (encode_lossy h.2)

theorem rawParams_of_utf8 {url : Text} (h : ∀ p ∈ rawParams url, isUtf8 p = true) :
    rawParams url = (params url).map asBytes := by
  rw [params_eq, List.map_map]
  calc rawParams url = (rawParams url).map id := (List.map_id _).symm
    _ = (rawParams url).map (asBytes ∘ asText) := by
      apply List.map_congr_left
      intro p hp
      exact (asBytes_asText (h p hp)).symm

private theorem hash_not_mem_urlEncode (s : Text) : '#' ∉ urlEncode s :=
  not_mem_urlEncode s 0x23 (by decide) (by decide) (by decide)

private theorem rawComponent_urlEncode (s : Text) : rawComponent (urlEncode s) = encode s := by
  have hbytes := unescape_encodeBytes true (encode s) []
  simp only [List.append_nil, unescape_nil] at hbytes
  rw [rawComponent, encode_urlEncode, hbytes]

private theorem rawPair_writeParam (param : Text × Text) : rawPair (writeParam param) = asBytes param := by
  unfold rawPair writeParam asBytes
  rw [splitOnce_append '=' _ _ (Pagination.eq_not_mem_urlEncode param.1)]
  simp only [Option.getD_some, rawComponent_urlEncode]

private theorem not_mem_writeParam (param : Text × Text) : '&' ∉ writeParam param ∧ '#' ∉ writeParam param := by
  simp [writeParam, Pagination.amp_not_mem_urlEncode, hash_not_mem_urlEncode]

private theorem pieces_written (q : Query) :
    ((['&'].intercalate (q.map writeParam)).splitOn '&').filter (· ≠ []) = q.map writeParam := by
  have hsome : ∀ t ∈ q.map writeParam, '&' ∉ t ∧ t ≠ [] := by
    intro t ht
    obtain ⟨param, -, hparam⟩ := List.mem_map.1 ht
    subst hparam
    exact ⟨(not_mem_writeParam param).1, by simp [writeParam]⟩
  cases hq : q.map writeParam with
  | nil => rfl
  | cons t pieces =>
    rw [hq] at hsome
    rw [List.splitOn_intercalate '&' (fun t ht => (hsome t ht).1) (List.cons_ne_nil _ _)]
    apply List.filter_eq_self.2
    intro t ht
    simpa using (hsome t ht).2

private theorem hash_not_mem_written (q : Query) : '#' ∉ ['&'].intercalate (q.map writeParam) := by
  induction q with
  | nil => simp
  | cons param q ih =>
    have hparam := (not_mem_writeParam param).2
    cases q with
    | nil => simpa using hparam
    | cons next q =>
      rw [List.map_cons] at ih
      rw [List.map_cons, List.map_cons, List.intercalate_cons_cons]
      simp [hparam, ih]

private theorem readPair_eq (pair : Text) : readPair pair = asText (rawPair pair) := rfl

section Written
variable {base rest : Text} {q : Query}

private theorem hash_not_mem_rebuildUrl (hbase : '#' ∉ base) : '#' ∉ rebuildUrl base q := by
  unfold rebuildUrl
  split
  · exact hbase
  · simp [hbase, hash_not_mem_written]

private theorem splitFragment_append (hbase : '#' ∉ base) (hrest : ∀ c ∈ rest.head?, c = '#') :
    splitFragment (base ++ rest) = (base, rest) := by
  have hall : ∀ c ∈ base, decide (c ≠ '#') = true := by
    intro c hc
    rw [decide_eq_true_eq]
    intro heq
    exact hbase (heq ▸ hc)
  unfold splitFragment
  rw [List.takeWhile_append_of_pos hall, List.dropWhile_append_of_pos hall]
  cases rest with
  | nil => simp
  | cons c rest =>
    have hc : c = '#' := hrest c rfl
    simp [hc]

private theorem splitOnce_rebuildUrl (hbase : '?' ∉ base) : splitOnce '?' (rebuildUrl base q) =
    if q = [] then none else some (base, ['&'].intercalate (q.map writeParam)) := by
  unfold rebuildUrl
  split
  · exact (splitOnce_eq_none '?' base).2 hbase
  · exact splitOnce_append '?' _ _ hbase

private theorem parseUrl_rebuildUrl (hbase : '?' ∉ base) : parseUrl (rebuildUrl base q) = (base, q) := by
  unfold parseUrl
  rw [splitOnce_rebuildUrl hbase]
  by_cases hq : q = []
  · simp [hq, rebuildUrl]
  · have hread : readPairs (['&'].intercalate (q.map writeParam)) = q := by
      rw [readPairs, pieces_written, List.map_map]
      calc q.map (readPair ∘ writeParam) = q.map id := by
            apply List.map_congr_left
            intro param _
            rw [Function.comp_apply, readPair_eq, rawPair_writeParam, asText_asBytes, id]
        _ = q := List.map_id q
    simp [hq, hread]

variable (hbase : '#' ∉ base) (hrest : ∀ c ∈ rest.head?, c = '#')
include hbase hrest

theorem fragment_rebuilt : fragment (rebuildUrl base q ++ rest) = rest := by
  rw [fragment, splitFragment_append (hash_not_mem_rebuildUrl hbase) hrest]

variable (hquery : '?' ∉ base)
include hquery

theorem rawParams_rebuilt : rawParams (rebuildUrl base q ++ rest) = q.map asBytes := by
  unfold rawParams
  rw [splitFragment_append (hash_not_mem_rebuildUrl hbase) hrest, splitOnce_rebuildUrl hquery]
  by_cases hq : q = []
  · simp [hq]
  · simp only [if_neg hq, pieces_written, List.map_map]
    apply List.map_congr_left
    intro param _
    exact rawPair_writeParam param

theorem base_rebuilt : SignedUrl.base (rebuildUrl base q ++ rest) = base := by
  rw [SignedUrl.base, splitFragment_append (hash_not_mem_rebuildUrl hbase) hrest, parseUrl_rebuildUrl hquery]

theorem params_rebuilt : params (rebuildUrl base q ++ rest) = q := by
  rw [params, splitFragment_append (hash_not_mem_rebuildUrl hbase) hrest, parseUrl_rebuildUrl hquery]

end Written

section Url
variable (url : Text)

theorem head_fragment : ∀ c ∈ (fragment url).head?, c = '#' := by
  intro c hc
  have hfirst := List.head?_dropWhile_not (fun c => decide (c ≠ '#')) url
  unfold fragment splitFragment at hc
  rw [Option.mem_def] at hc
  simp only [hc] at hfirst
  simpa using hfirst

theorem not_mem_base : '?' ∉ base url ∧ '#' ∉ base url := by
  have hcut : '#' ∉ (splitFragment url).1 := by
    intro h
    simpa using List.mem_takeWhile_imp h
  unfold base parseUrl
  cases h : splitOnce '?' (splitFragment url).1 with
  | none => exact ⟨(splitOnce_eq_none '?' _).1 h, hcut⟩
  | some halves =>
    obtain ⟨hwhole, hfirst⟩ := splitOnce_eq_some '?' _ halves.1 halves.2 h
    rw [hwhole] at hcut
    exact ⟨hfirst, fun hmem => hcut (List.mem_append_left _ hmem)⟩

end Url

theorem canonicalize_injective {b b' : Text} {q q' : Query} (hb : '?' ∉ b) (hb' : '?' ∉ b')
    (h : canonicalize b q = canonicalize b' q') : b = b' ∧ q.Perm q' := by
  have hparsed := congrArg parseUrl h
  rw [canonicalize, canonicalize, parseUrl_rebuildUrl hb, parseUrl_rebuildUrl hb'] at hparsed
  obtain ⟨hbase, hsorted⟩ := Prod.mk.inj hparsed
  refine ⟨hbase, (List.perm_insertionSort paramOrder q).symm.trans ?_⟩
  rw [hsorted]
  exact List.perm_insertionSort paramOrder q'

end Rustango.SignedUrl
