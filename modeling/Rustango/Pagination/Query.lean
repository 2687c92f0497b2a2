import Mathlib
import Rustango.Lib.Halves
import Rustango.Url.Codec

/-!
# The query of a link

`query_params`, `strip_query` and `join_url` of `pagination.rs`: the pairs that a base URL has are read,
filtered, sorted by key and written again.
-/

namespace Rustango.Pagination

open Url Halves

/-- Query pairs in order. -/
abbrev Query := List (Text × Text)

def readPair (pair : Text) : Text × Text :=
  let halves := (splitOnce '=' pair).getD (pair, [])
  (urlDecode halves.1, urlDecode halves.2)

def readPairs (qs : Text) : Query := ((qs.splitOn '&').filter (· ≠ [])).map readPair

/-- `base`'s query, decoded, without the `dropped` keys. -/
def queryParams (base : Text) (dropped : List Text) : Query :=
  match (base.splitOn '?')[1]? with
  | none => []
  | some qs => (readPairs qs).filter (·.1 ∉ dropped)

def stripQuery (base : Text) : Text := ((splitOnce '?' base).getD (base, [])).1

def writePair (pair : Text × Text) : Text :=
  if pair.2 = [] then urlEncode pair.1 else urlEncode pair.1 ++ '=' :: urlEncode pair.2

def keyOrder (a b : Text × Text) : Prop := a.1 ≤ b.1

instance : DecidableRel keyOrder := fun a b => inferInstanceAs (Decidable (a.1 ≤ b.1))

/-- Keys sorted; the sort is stable. -/
def joinUrl (path : Text) (params : Query) : Text :=
  if params = [] then path
  else path ++ '?' :: ['&'].intercalate ((params.insertionSort keyOrder).map writePair)

/-- The pairs of a URL: what stands after its first `?`. -/
def parseQuery (url : Text) : Query :=
  match splitOnce '?' url with
  | none => []
  | some halves => readPairs halves.2

/-- The pairs under a key, in order. -/
def pairsUnder (key : Text) (q : Query) : Query := q.filter (·.1 = key)

private theorem not_mem_stripQuery (base : Text) : '?' ∉ stripQuery base := by
  unfold stripQuery
  cases h : splitOnce '?' base with
  | none => exact (splitOnce_eq_none '?' base).1 h
  | some halves => exact (splitOnce_eq_some '?' base halves.1 halves.2 h).2

theorem eq_not_mem_urlEncode (s : Text) : '=' ∉ urlEncode s :=
  not_mem_urlEncode s 0x3D (by decide) (by decide) (by decide)

theorem amp_not_mem_urlEncode (s : Text) : '&' ∉ urlEncode s :=
  not_mem_urlEncode s 0x26 (by decide) (by decide) (by decide)

private theorem urlDecode_urlEncode (s : Text) : urlDecode (urlEncode s) = s := decodeEscapes_urlEncode true s

private theorem readPair_writePair (pair : Text × Text) : readPair (writePair pair) = pair := by
  unfold readPair writePair
  by_cases h : pair.2 = []
  · rw [if_pos h, (splitOnce_eq_none '=' _).2 (eq_not_mem_urlEncode pair.1)]
    simp only [Option.getD_none, urlDecode_urlEncode]
    rw [← h]
    exact Prod.ext rfl (by rw [h]; rfl)
  · rw [if_neg h, splitOnce_append '=' _ _ (eq_not_mem_urlEncode pair.1)]
    simp only [Option.getD_some, urlDecode_urlEncode]

private theorem amp_not_mem_writePair (pair : Text × Text) : '&' ∉ writePair pair := by
  unfold writePair
  split
  · exact amp_not_mem_urlEncode pair.1
  · simp [amp_not_mem_urlEncode]

private theorem writePair_eq_nil (pair : Text × Text) : writePair pair = [] ↔ pair = ([], []) := by
  unfold writePair
  constructor
  · intro h
    split at h
    · rename_i hvalue
      exact Prod.ext ((urlEncode_eq_nil pair.1).1 h) hvalue
    · simp at h
  · intro h
    rw [h]
    rfl

private theorem readPairs_written (q : Query) :
    readPairs (['&'].intercalate (q.map writePair)) = q.filter (· ≠ ([], [])) := by
  have hpieces : ∀ pieces : List Text, (∀ t ∈ pieces, '&' ∉ t) →
      ((['&'].intercalate pieces).splitOn '&').filter (· ≠ []) = pieces.filter (· ≠ []) := by
    intro pieces hpieces
    cases pieces with
    | nil => rfl
    | cons t pieces => rw [List.splitOn_intercalate '&' hpieces (List.cons_ne_nil _ _)]
  unfold readPairs
  rw [hpieces]
  · induction q with
    | nil => rfl
    | cons pair q ih =>
      by_cases h : pair = ([], [])
      · simp only [List.map_cons, List.filter_cons, h] at ih ⊢
        exact ih
      · have hne := mt (writePair_eq_nil pair).1 h
        simp only [List.map_cons, List.filter_cons, decide_eq_true hne, decide_eq_true h, if_true, List.map_cons,
          readPair_writePair, ih]
  · intro t ht
    obtain ⟨pair, -, rfl⟩ := List.mem_map.1 ht
    exact amp_not_mem_writePair pair

private theorem pairsUnder_sorted (key : Text) (q : Query) :
    pairsUnder key (q.insertionSort keyOrder) = pairsUnder key q := by
  have htotal : Std.Total keyOrder := ⟨fun a b => le_total a.1 b.1⟩
  have htrans : IsTrans (Text × Text) keyOrder := ⟨fun _ _ _ h h' => le_trans h h'⟩
  have hsame : (pairsUnder key q).Pairwise keyOrder := by
    apply List.pairwise_of_forall_mem_list
    intro a ha b hb
    have hka := (List.mem_filter.1 ha).2
    have hkb := (List.mem_filter.1 hb).2
    simp only [decide_eq_true_eq] at hka hkb
    exact le_of_eq (hka.trans hkb.symm)
  have hsub := List.sublist_insertionSort (r := keyOrder) hsame List.filter_sublist
  have hkept := hsub.filter fun pair => decide (pair.1 = key)
  have hidem : (pairsUnder key q).filter (fun pair => decide (pair.1 = key)) = pairsUnder key q := by
    simp [pairsUnder]
  rw [hidem] at hkept
  have hlength := ((List.perm_insertionSort keyOrder q).filter fun pair => decide (pair.1 = key)).length_eq
  exact (hkept.eq_of_length hlength.symm).symm

private theorem parseQuery_joinUrl (path : Text) (params : Query) (hpath : '?' ∉ path) :
    parseQuery (joinUrl path params) = (params.insertionSort keyOrder).filter (· ≠ ([], [])) := by
  unfold parseQuery joinUrl
  by_cases h : params = []
  · rw [if_pos h, (splitOnce_eq_none '?' path).2 hpath, h]
    rfl
  · rw [if_neg h, splitOnce_append '?' path _ hpath]
    exact readPairs_written _

private theorem pairsUnder_joinUrl (path : Text) (params : Query) (hpath : '?' ∉ path) (key : Text) :
    pairsUnder key (parseQuery (joinUrl path params)) = (pairsUnder key params).filter (· ≠ ([], [])) := by
  rw [parseQuery_joinUrl path params hpath, ← pairsUnder_sorted key params]
  unfold pairsUnder
  rw [List.filter_filter, List.filter_filter]
  congr 1
  funext pair
  exact Bool.and_comm _ _

/-- The query of a base URL up to a second `?`. -/
def cutQuery (base : Text) : Query :=
  match splitOnce '?' base with
  | none => []
  | some (_, rest) => readPairs (rest.takeWhile (· ≠ '?'))

private theorem second_piece (base : Text) :
    (base.splitOn '?')[1]? = (splitOnce '?' base).map fun halves => halves.2.takeWhile (· ≠ '?') := by
  cases h : splitOnce '?' base with
  | none =>
    rw [List.splitOn_eq_singleton ((splitOnce_eq_none '?' base).1 h)]
    rfl
  | some halves =>
    obtain ⟨hbase, hpath⟩ := splitOnce_eq_some '?' base halves.1 halves.2 h
    rw [hbase, List.splitOn_append_cons_self_of_not_mem hpath, Option.map_some]
    cases hquery : splitOnce '?' halves.2 with
    | none =>
      have hnone := (splitOnce_eq_none '?' halves.2).1 hquery
      rw [List.splitOn_eq_singleton hnone, List.takeWhile_eq_self_iff.mpr fun c hc => ?_]
      · rfl
      · exact decide_eq_true fun heq => hnone (heq ▸ hc)
    | some parts =>
      obtain ⟨hparts, hcut⟩ := splitOnce_eq_some '?' halves.2 parts.1 parts.2 hquery
      rw [hparts, List.splitOn_append_cons_self_of_not_mem hcut, List.takeWhile_append_of_pos fun c hc => ?_]
      · simp
      · exact decide_eq_true fun heq => hcut (heq ▸ hc)

theorem queryParams_eq (base : Text) (dropped : List Text) :
    queryParams base dropped = (cutQuery base).filter (·.1 ∉ dropped) := by
  rw [queryParams, second_piece, cutQuery]
  cases splitOnce '?' base <;> rfl

/-- The pieces that begin with `=`, counted along the text. -/
def keyless (start : Bool) : Text → Nat
  | [] => 0
  | c :: t => (if start && c = '=' then 1 else 0) + keyless (c = '&') t

private theorem keyless_append (start : Bool) (s t : Text) : keyless start s ≤ keyless start (s ++ t) := by
  induction s generalizing start with
  | nil => simp [keyless]
  | cons c s ih =>
    simp only [List.cons_append, keyless]
    have hrest := ih (c = '&')
    omega

def beginsPair (t : Text) : Bool := t.head? = some '='

private theorem keyless_eq (t : Text) : (t.splitOn '&').countP beginsPair = keyless true t ∧
    (t.splitOn '&').tail.countP beginsPair = keyless false t := by
  induction t with
  | nil => decide
  | cons c t ih =>
    rw [List.splitOn_cons_eq_if_modifyHead]
    cases hsplit : t.splitOn '&' with
    | nil => exact absurd hsplit (List.splitOn_ne_nil _ _)
    | cons piece pieces =>
      rw [hsplit] at ih
      by_cases hc : c = '&'
      · have hfirst : beginsPair [] = false := rfl
        simp only [hc, beq_self_eq_true, if_true, List.tail_cons, List.countP_cons, hfirst, keyless] at ih ⊢
        simp at ih ⊢
        omega
      · have hfirst : beginsPair (c :: piece) = decide (c = '=') := by simp [beginsPair]
        simp only [beq_iff_eq, hc, if_false, List.modifyHead_cons, List.tail_cons, List.countP_cons, hfirst,
          keyless, decide_false] at ih ⊢
        simp at ih ⊢
        omega

private theorem readPair_key_nil (pair : Text) (hne : pair ≠ []) :
    (readPair pair).1 = [] ↔ beginsPair pair = true := by
  have hdecode : ∀ s : Text, urlDecode s = [] ↔ s = [] := decodeEscapes_eq_nil true
  cases pair with
  | nil => exact absurd rfl hne
  | cons c pair =>
    unfold readPair
    simp only [hdecode, beginsPair, List.head?_cons, Option.some.injEq, decide_eq_true_eq]
    rw [splitOnce]
    by_cases hc : c = '='
    · simp [hc]
    · rw [if_neg hc]
      cases splitOnce '=' pair <;> simp [hc]

private theorem length_pairsUnder_nil (qs : Text) :
    (pairsUnder [] (readPairs qs)).length = keyless true qs := by
  rw [← (keyless_eq qs).1]
  unfold pairsUnder readPairs
  rw [← List.countP_eq_length_filter, List.countP_map, List.countP_filter]
  apply List.countP_congr
  intro t _
  by_cases ht : t = []
  · simp [ht, beginsPair]
  · have hkey := readPair_key_nil t ht
    simp [ht, hkey]

private theorem exists_query (base : Text) : (cutQuery base = [] ∧ parseQuery base = []) ∨
    ∃ qs rest, cutQuery base = readPairs qs ∧ parseQuery base = readPairs (qs ++ rest) := by
  unfold cutQuery parseQuery
  cases splitOnce '?' base with
  | none => exact .inl ⟨rfl, rfl⟩
  | some halves =>
    refine .inr ⟨halves.2.takeWhile (· ≠ '?'), halves.2.dropWhile (· ≠ '?'), rfl, ?_⟩
    rw [List.takeWhile_append_dropWhile]

private theorem length_cutQuery_nil (base : Text) :
    (pairsUnder [] (cutQuery base)).length ≤ (pairsUnder [] (parseQuery base)).length := by
  rcases exists_query base with ⟨hcut, hwhole⟩ | ⟨qs, rest, hcut, hwhole⟩
  · rw [hcut, hwhole]
  · rw [hcut, hwhole, length_pairsUnder_nil, length_pairsUnder_nil]
    exact keyless_append true qs rest

/-- The link has, under each key, the pairs of the base URL but the dropped ones, and the added pairs. -/
def KeepsParams (base link : Text) (dropped : List Text) (added : Query) : Prop :=
  ∀ key, pairsUnder key (parseQuery link) =
    pairsUnder key ((parseQuery base).filter (·.1 ∉ dropped) ++ added)

/-- The part of the query from a second `?` on changes no pair that is kept, and none of these is nothing. -/
structure Survives (base : Text) (dropped : List Text) : Prop where
  whole : ∀ key, key ∉ dropped → pairsUnder key (cutQuery base) = pairsUnder key (parseQuery base)
  something : [] ∉ dropped → ([], []) ∉ parseQuery base

theorem pairsUnder_append (key : Text) (p q : Query) :
    pairsUnder key (p ++ q) = pairsUnder key p ++ pairsUnder key q := List.filter_append ..

private theorem pairsUnder_filter (key : Text) (dropped : List Text) (q : Query) :
    pairsUnder key (q.filter (·.1 ∉ dropped)) = if key ∈ dropped then [] else pairsUnder key q := by
  unfold pairsUnder
  rw [List.filter_filter]
  split
  · rename_i h
    apply List.filter_eq_nil_iff.2
    intro pair _
    simp only [Bool.and_eq_true, decide_eq_true_eq, not_and]
    intro hkey
    rw [hkey]
    exact fun hno => hno h
  · rename_i h
    apply List.filter_congr
    intro pair _
    by_cases hkey : pair.1 = key
    · simp [hkey, h]
    · simp [hkey]

private theorem filter_something (key : Text) (hkey : key ≠ []) (q : Query) :
    (pairsUnder key q).filter (· ≠ ([], [])) = pairsUnder key q := by
  apply List.filter_eq_self.2
  intro pair hpair
  have hunder := (List.mem_filter.1 hpair).2
  simp only [decide_eq_true_eq] at hunder
  simp only [ne_eq, decide_eq_true_eq]
  intro heq
  rw [heq] at hunder
  exact hkey hunder.symm

private theorem nothing_mem (q : Query) : ([], []) ∈ pairsUnder [] q ↔ ([], []) ∈ q := by
  simp [pairsUnder]

/-- A link keeps the query exactly when that of the base URL survives and nothing empty is added. -/
theorem keepsParams_iff (base : Text) (dropped : List Text) (added : Query) :
    KeepsParams base (joinUrl (stripQuery base) (queryParams base dropped ++ added)) dropped added ↔
      Survives base dropped ∧ ([], []) ∉ added := by
  have hlink : ∀ key, pairsUnder key
      (parseQuery (joinUrl (stripQuery base) (queryParams base dropped ++ added))) =
        ((if key ∈ dropped then [] else pairsUnder key (cutQuery base)) ++
          pairsUnder key added).filter (· ≠ ([], [])) := by
    intro key
    rw [pairsUnder_joinUrl _ _ (not_mem_stripQuery base), pairsUnder_append, queryParams_eq, pairsUnder_filter]
  unfold KeepsParams
  simp only [hlink, pairsUnder_append, pairsUnder_filter]
  constructor
  · intro h
    have hnil := h []
    have hshorter : ((if [] ∈ dropped then [] else pairsUnder [] (cutQuery base)) ++
        pairsUnder [] added).length ≤
          ((if [] ∈ dropped then [] else pairsUnder [] (parseQuery base)) ++ pairsUnder [] added).length := by
      have hcut := length_cutQuery_nil base
      split
      · simp
      · simp
        omega
    -- nothing was filtered out: the pairs that are left are no fewer
    rw [← hnil] at hshorter
    have hkept := List.filter_sublist.eq_of_length_le hshorter
    rw [hkept] at hnil
    have hnone : ([], []) ∉ (if [] ∈ dropped then [] else pairsUnder [] (parseQuery base)) ++
        pairsUnder [] added := by
      rw [← hnil, ← hkept]
      simp
    simp only [List.mem_append, not_or, nothing_mem] at hnone
    refine ⟨⟨?_, ?_⟩, hnone.2⟩
    · intro key hkey
      by_cases hempty : key = []
      · rw [hempty] at hkey ⊢
        rw [if_neg hkey, if_neg hkey] at hnil
        exact List.append_cancel_right hnil
      · have hunder := h key
        rw [if_neg hkey, if_neg hkey, ← pairsUnder_append, filter_something key hempty, pairsUnder_append]
          at hunder
        exact List.append_cancel_right hunder
    · intro hkey
      have hwhole := hnone.1
      rw [if_neg hkey, nothing_mem] at hwhole
      exact hwhole
  · intro h key
    by_cases hempty : key = []
    · rw [hempty]
      have hsame : (if [] ∈ dropped then [] else pairsUnder [] (cutQuery base)) =
          if [] ∈ dropped then [] else pairsUnder [] (parseQuery base) := by
        split
        · rfl
        · rename_i hkey
          exact h.1.whole [] hkey
      rw [hsame]
      apply List.filter_eq_self.2
      intro pair hpair
      simp only [ne_eq, decide_eq_true_eq]
      intro heq
      rw [heq] at hpair
      rcases List.mem_append.1 hpair with hpair | hpair
      · split at hpair
        · cases hpair
        · rename_i hkey
          exact h.1.something hkey ((nothing_mem _).1 hpair)
      · exact h.2 ((nothing_mem _).1 hpair)
    · by_cases hkey : key ∈ dropped
      · rw [if_pos hkey, if_pos hkey, List.nil_append, filter_something key hempty]
      · rw [if_neg hkey, if_neg hkey, ← pairsUnder_append, filter_something key hempty, pairsUnder_append,
          h.1.whole key hkey]

/-- A link that was written with other pairs than those it is for. -/
theorem keepsParams_other_iff (base : Text) (dropped : List Text) (written added : Query)
    (hother : ∀ key, key ∉ dropped → pairsUnder key written = pairsUnder key added)
    (hnil : pairsUnder [] written = pairsUnder [] added) :
    KeepsParams base (joinUrl (stripQuery base) (queryParams base dropped ++ written)) dropped added ↔
      Survives base dropped ∧ ([], []) ∉ added ∧ ∀ key, pairsUnder key written = pairsUnder key added := by
  have hnothing : ([], []) ∉ written ↔ ([], []) ∉ added := by
    rw [← nothing_mem written, ← nothing_mem added, hnil]
  have hwritten := keepsParams_iff base dropped written
  constructor
  · intro h
    have hsame : ∀ key, pairsUnder key written = pairsUnder key added := by
      intro key
      by_cases hempty : key = []
      · rw [hempty]
        exact hnil
      · by_cases hkey : key ∈ dropped
        · have hunder := h key
          rw [pairsUnder_joinUrl _ _ (not_mem_stripQuery base), pairsUnder_append, queryParams_eq,
            pairsUnder_filter, pairsUnder_append, pairsUnder_filter, if_pos hkey, if_pos hkey, List.nil_append,
            List.nil_append, filter_something key hempty] at hunder
          exact hunder
        · exact hother key hkey
    have hkeeps : KeepsParams base (joinUrl (stripQuery base) (queryParams base dropped ++ written)) dropped
        written := by
      intro key
      rw [h key, pairsUnder_append, pairsUnder_append, hsame key]
    have hsurvives := hwritten.1 hkeeps
    exact ⟨hsurvives.1, hnothing.1 hsurvives.2, hsame⟩
  · intro h key
    rw [hwritten.2 ⟨h.1, hnothing.2 h.2.1⟩ key, pairsUnder_append, pairsUnder_append, h.2.2 key]

end Rustango.Pagination
