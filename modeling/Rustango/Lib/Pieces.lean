import Mathlib.Data.List.Chain
import Mathlib.Data.String.Basic

/-!
# Pieces between a doubled character

A text split at every doubled `sep`, from the left, and when a list of pieces is what its own text
splits into: no piece holds the pair, and only the last may end in `sep`.
-/

namespace Rustango.Pieces

open String

/-- What stands between the pairs; `p` is the piece so far, reversed. -/
def piecesFrom (sep : Char) (p : List Char) : List Char → List (List Char)
  | [] => [p.reverse]
  | [c] => [(c :: p).reverse]
  | c :: d :: cs =>
    if c = sep ∧ d = sep then p.reverse :: piecesFrom sep [] cs
    else piecesFrom sep (c :: p) (d :: cs)

def pieces (sep : Char) (cs : List Char) : List (List Char) := piecesFrom sep [] cs

section Scan
variable (sep : Char) (l m : List Char) (acc : List String)

theorem scan_end (j : Pos.Raw) :
    splitOnAux (ofList (l ++ m)) (ofList [sep, sep]) ⟨utf8Len l⟩ ⟨utf8Len (l ++ m)⟩ j acc =
      acc.reverse ++ [ofList m] := by
  have hend := (atEnd_of_valid (l ++ m) []).mpr rfl
  rw [List.append_nil] at hend
  have hpiece := extract_of_valid l m []
  rw [List.append_nil, ← utf8Len_append] at hpiece
  rw [splitOnAux, if_pos hend, hpiece, List.reverse_cons]

theorem not_atEnd (l : List Char) (c : Char) (r : List Char) :
    ¬ (⟨utf8Len l⟩ : Pos.Raw).atEnd (ofList (l ++ c :: r)) = true := by
  rw [atEnd_of_valid]
  exact List.cons_ne_nil c r

variable (c : Char) (r : List Char)

theorem scan_other (hc : c ≠ sep) :
    splitOnAux (ofList (l ++ m ++ c :: r)) (ofList [sep, sep]) ⟨utf8Len l⟩ ⟨utf8Len (l ++ m)⟩ 0 acc =
      splitOnAux (ofList (l ++ m ++ c :: r)) (ofList [sep, sep]) ⟨utf8Len l⟩
        ⟨utf8Len (l ++ (m ++ [c]))⟩ 0 acc := by
  have hget := get_of_valid (l ++ m) (c :: r)
  have hsep : Pos.Raw.get (ofList [sep, sep]) 0 = sep := get_of_valid [] [sep, sep]
  have hnext := next_of_valid (l ++ m) c r
  have hlen : utf8Len (l ++ (m ++ [c])) = utf8Len (l ++ m) + c.utf8Size := by
    simp [utf8Len_append, Nat.add_assoc]
  have hne : ¬ ((c :: r).headD default == sep) = true := by simpa using hc
  rw [splitOnAux, if_neg (not_atEnd _ c r), hget, hsep, if_neg hne, hlen]
  exact congrArg (fun i => splitOnAux _ _ _ i 0 acc) hnext

theorem scan_sep :
    splitOnAux (ofList (l ++ m ++ sep :: r)) (ofList [sep, sep]) ⟨utf8Len l⟩ ⟨utf8Len (l ++ m)⟩ 0 acc =
      splitOnAux (ofList (l ++ m ++ sep :: r)) (ofList [sep, sep]) ⟨utf8Len l⟩
        ⟨utf8Len (l ++ (m ++ [sep]))⟩ ⟨utf8Len [sep]⟩ acc := by
  have hget := get_of_valid (l ++ m) (sep :: r)
  have hsep : Pos.Raw.get (ofList [sep, sep]) 0 = sep := get_of_valid [] [sep, sep]
  have hnext := next_of_valid (l ++ m) sep r
  have hjump : Pos.Raw.next (ofList [sep, sep]) 0 = ⟨utf8Len [sep]⟩ := by
    have := next_of_valid [] sep [sep]
    simpa using this
  have hlen : utf8Len (l ++ (m ++ [sep])) = utf8Len (l ++ m) + sep.utf8Size := by
    simp [utf8Len_append, Nat.add_assoc]
  have heq : ((sep :: r).headD default == sep) = true := by simp
  have hin : ¬ Pos.Raw.atEnd (ofList [sep, sep]) ⟨utf8Len [sep]⟩ = true := not_atEnd [sep] sep []
  rw [splitOnAux, if_neg (not_atEnd _ sep r), hget, hsep, if_pos heq, hlen]
  dsimp only
  rw [hjump, if_neg hin, hnext]

/-- The second of the pair ends the piece. -/
theorem scan_pair :
    splitOnAux (ofList (l ++ (m ++ [sep]) ++ sep :: r)) (ofList [sep, sep]) ⟨utf8Len l⟩
        ⟨utf8Len (l ++ (m ++ [sep]))⟩ ⟨utf8Len [sep]⟩ acc =
      splitOnAux (ofList (l ++ m ++ [sep, sep] ++ r)) (ofList [sep, sep])
        ⟨utf8Len (l ++ m ++ [sep, sep])⟩ ⟨utf8Len (l ++ m ++ [sep, sep])⟩ 0 (ofList m :: acc) := by
  have hget := get_of_valid (l ++ (m ++ [sep])) (sep :: r)
  have hsep : Pos.Raw.get (ofList [sep, sep]) ⟨utf8Len [sep]⟩ = sep := get_of_valid [sep] [sep]
  have hnext := next_of_valid (l ++ (m ++ [sep])) sep r
  have hjump : Pos.Raw.next (ofList [sep, sep]) ⟨utf8Len [sep]⟩ = ⟨utf8Len [sep, sep]⟩ := by
    have := next_of_valid [sep] sep []
    simpa using this
  have hend := (atEnd_of_valid [sep, sep] []).mpr rfl
  rw [List.append_nil] at hend
  have heq : ((sep :: r).headD default == sep) = true := by simp
  rw [splitOnAux, if_neg (not_atEnd _ sep r), hget, hsep, if_pos heq]
  dsimp only
  rw [hjump, if_pos hend, hnext]
  have hpiece := extract_of_valid l m (sep :: sep :: r)
  have hback : (⟨utf8Len (l ++ (m ++ [sep])) + sep.utf8Size⟩ : Pos.Raw).unoffsetBy ⟨utf8Len [sep, sep]⟩ =
      ⟨utf8Len l + utf8Len m⟩ := by
    simp [Pos.Raw.unoffsetBy, utf8Len_append]
    omega
  have htext : l ++ (m ++ [sep]) ++ sep :: r = l ++ m ++ sep :: sep :: r := by simp
  have htext' : l ++ m ++ [sep, sep] ++ r = l ++ m ++ sep :: sep :: r := by simp
  have hlen : utf8Len (l ++ m ++ [sep, sep]) = utf8Len (l ++ (m ++ [sep])) + sep.utf8Size := by
    simp [utf8Len_append]
    omega
  rw [hback, htext, htext', hpiece, hlen]

theorem scan_lone (hc : c ≠ sep) :
    splitOnAux (ofList (l ++ (m ++ [sep]) ++ c :: r)) (ofList [sep, sep]) ⟨utf8Len l⟩
        ⟨utf8Len (l ++ (m ++ [sep]))⟩ ⟨utf8Len [sep]⟩ acc =
      splitOnAux (ofList (l ++ (m ++ [sep]) ++ c :: r)) (ofList [sep, sep]) ⟨utf8Len l⟩
        ⟨utf8Len (l ++ (m ++ [sep]))⟩ 0 acc := by
  have hget := get_of_valid (l ++ (m ++ [sep])) (c :: r)
  have hsep : Pos.Raw.get (ofList [sep, sep]) ⟨utf8Len [sep]⟩ = sep := get_of_valid [sep] [sep]
  have hne : ¬ ((c :: r).headD default == sep) = true := by simpa using hc
  have hback : (⟨utf8Len (l ++ (m ++ [sep]))⟩ : Pos.Raw).unoffsetBy ⟨utf8Len [sep]⟩ =
      ⟨utf8Len (l ++ m)⟩ := by
    simp [Pos.Raw.unoffsetBy, utf8Len_append]
    omega
  have hnext := next_of_valid (l ++ m) sep (c :: r)
  have htext : l ++ (m ++ [sep]) ++ c :: r = l ++ m ++ sep :: c :: r := by simp
  have hlen : utf8Len (l ++ (m ++ [sep])) = utf8Len (l ++ m) + sep.utf8Size := by
    simp [utf8Len_append, Nat.add_assoc]
  rw [splitOnAux, if_neg (not_atEnd _ c r), hget, hsep, if_neg hne, hback, htext, hnext, hlen]

end Scan

theorem splitOnAux_eq (sep : Char) (l p r : List Char) (acc : List String) :
    splitOnAux (ofList (l ++ p.reverse ++ r)) (ofList [sep, sep]) ⟨utf8Len l⟩
        ⟨utf8Len (l ++ p.reverse)⟩ 0 acc =
      acc.reverse ++ (piecesFrom sep p r).map ofList := by
  induction p, r using piecesFrom.induct sep generalizing l acc with
  | case1 p =>
    rw [List.append_nil, scan_end, piecesFrom]
    rfl
  | case2 p c =>
    have htext : l ++ p.reverse ++ [c] = l ++ (p.reverse ++ [c]) := List.append_assoc _ _ _
    by_cases hc : c = sep
    · subst hc
      rw [scan_sep, htext, scan_end, piecesFrom, List.reverse_cons]
      rfl
    · rw [scan_other _ _ _ _ _ _ hc, htext, scan_end, piecesFrom, List.reverse_cons]
      rfl
  | case3 p c d cs h ih =>
    obtain ⟨rfl, rfl⟩ := h
    have htext : l ++ p.reverse ++ d :: d :: cs = l ++ (p.reverse ++ [d]) ++ d :: cs := by simp
    have hpiece := ih (l ++ p.reverse ++ [d, d]) (ofList p.reverse :: acc)
    simp only [List.reverse_nil, List.append_nil] at hpiece
    rw [scan_sep, htext, scan_pair, hpiece, piecesFrom, if_pos ⟨rfl, rfl⟩]
    simp
  | case4 p c d cs h ih =>
    have htext : l ++ p.reverse ++ c :: d :: cs = l ++ (c :: p).reverse ++ d :: cs := by simp
    have hrest := ih l acc
    rw [List.reverse_cons] at hrest htext
    rw [piecesFrom, if_neg h, ← hrest]
    by_cases hc : c = sep
    · subst hc
      have hd : d ≠ c := fun hd => h ⟨rfl, hd⟩
      rw [scan_sep, htext, scan_lone _ _ _ _ _ _ hd]
    · rw [scan_other _ _ _ _ _ _ hc, htext]

theorem splitOn_doubled (sep : Char) (s : String) :
    s.splitOn (ofList [sep, sep]) = (pieces sep s.toList).map ofList := by
  have hne : ¬ (ofList [sep, sep] == "") = true := by
    rw [beq_iff_eq, ← String.toList_inj]
    simp
  have hscan := splitOnAux_eq sep [] [] s.toList []
  rw [List.reverse_nil, List.append_nil, List.nil_append, ofList_toList] at hscan
  rw [splitOn, if_neg hne]
  exact hscan

/-- No two neighbours are both `sep`. -/
def Clear (sep : Char) (p : List Char) : Prop := p.IsChain fun c d => ¬ (c = sep ∧ d = sep)

/-- Only the last piece may end in `sep`. -/
def Apart (sep : Char) : List (List Char) → Prop
  | [] => False
  | [p] => Clear sep p
  | p :: q :: ps => Clear sep (p ++ [sep]) ∧ Apart sep (q :: ps)

section Apart
variable {sep : Char} {p : List Char} {ps qs : List (List Char)}

theorem Clear.of_append {q : List Char} (h : Clear sep (p ++ q)) : Clear sep p :=
  (List.isChain_append.mp h).1

theorem Apart.ne_nil (h : Apart sep ps) : ps ≠ [] := by
  rintro rfl
  exact h

theorem Apart.clear (h : Apart sep ps) : ∀ p ∈ ps, Clear sep p := by
  induction ps with
  | nil => exact h.elim
  | cons p ps ih =>
    cases ps with
    | nil => exact fun q hq => List.mem_singleton.mp hq ▸ h
    | cons q ps => exact List.forall_mem_cons.mpr ⟨h.1.of_append, ih h.2⟩

theorem Apart.right (h : Apart sep (qs ++ ps)) (hps : ps ≠ []) : Apart sep ps := by
  induction qs with
  | nil => exact h
  | cons q qs ih =>
    have hne : qs ++ ps ≠ [] := List.append_ne_nil_of_right_ne_nil qs hps
    obtain ⟨r, rs, hrs⟩ := List.exists_cons_of_ne_nil hne
    rw [List.cons_append, hrs] at h
    exact ih (hrs ▸ h.2)

theorem Apart.left (h : Apart sep (qs ++ ps)) (hqs : qs ≠ []) : Apart sep qs := by
  induction qs with
  | nil => exact absurd rfl hqs
  | cons q qs ih =>
    cases qs with
    | nil => exact h.clear q List.mem_cons_self
    | cons r qs => exact ⟨h.1, ih h.2 (List.cons_ne_nil r qs)⟩

theorem Clear.snoc {c d : Char} (h : Clear sep (p ++ [c])) (hcd : ¬ (c = sep ∧ d = sep)) :
    Clear sep (p ++ [c] ++ [d]) := by
  refine List.isChain_append.mpr ⟨h, List.isChain_singleton d, ?_⟩
  intro x hx y hy
  rw [List.getLast?_concat, Option.mem_some_iff] at hx
  rw [List.head?_cons, Option.mem_some_iff] at hy
  exact hx ▸ hy ▸ hcd

theorem Apart.cons (hp : Clear sep (p ++ [sep])) (h : Apart sep ps) : Apart sep (p :: ps) := by
  obtain ⟨q, qs, rfl⟩ := List.exists_cons_of_ne_nil h.ne_nil
  exact ⟨hp, h⟩

theorem apart_piecesFrom {r : List Char} (hp : Clear sep (p.reverse ++ r.take 1)) :
    Apart sep (piecesFrom sep p r) := by
  induction p, r using piecesFrom.induct sep with
  | case1 p =>
    rw [List.take_nil, List.append_nil] at hp
    rw [piecesFrom]
    exact hp
  | case2 p c =>
    rw [piecesFrom, List.reverse_cons]
    exact hp
  | case3 p c d cs h ih =>
    obtain ⟨rfl, rfl⟩ := h
    have hrest : Clear d (List.reverse [] ++ cs.take 1) := by
      cases cs with
      | nil => exact List.isChain_nil
      | cons c cs => exact List.isChain_singleton c
    rw [piecesFrom, if_pos ⟨rfl, rfl⟩]
    exact (ih hrest).cons hp
  | case4 p c d cs h ih =>
    have hnext : Clear sep (p.reverse ++ [c] ++ [d]) := Clear.snoc hp h
    rw [← List.reverse_cons] at hnext
    rw [piecesFrom, if_neg h]
    exact ih hnext

theorem apart_pieces (sep : Char) (cs : List Char) : Apart sep (pieces sep cs) := by
  apply apart_piecesFrom
  cases cs with
  | nil => exact List.isChain_nil
  | cons c cs => exact List.isChain_singleton c

theorem Apart.glue {c : Char} {q : List Char} (hc : c ≠ sep) (h : Apart sep (qs ++ [p, q])) :
    Apart sep (qs ++ [p ++ c :: q]) := by
  induction qs with
  | nil =>
    have hq : Clear sep (c :: q) := by
      cases q with
      | nil => exact List.isChain_singleton c
      | cons d q => exact List.isChain_cons_cons.mpr ⟨fun heq => hc heq.1, h.2⟩
    refine List.isChain_append.mpr ⟨h.1.of_append, hq, ?_⟩
    intro x _ y hy heq
    rw [List.head?_cons, Option.mem_some_iff] at hy
    exact hc (hy.trans heq.2)
  | cons r qs ih =>
    have hr : Clear sep (r ++ [sep]) := by
      cases qs with
      | nil => exact h.1
      | cons s qs => exact h.1
    have hrest : Apart sep ([r] ++ (qs ++ [p, q])) := h
    exact (ih (hrest.right (by simp))).cons hr

theorem piecesFrom_pair {q rest : List Char} (hq : Clear sep (q ++ [sep])) :
    piecesFrom sep p (q ++ sep :: sep :: rest) = (p.reverse ++ q) :: pieces sep rest := by
  induction q generalizing p with
  | nil =>
    rw [List.nil_append, piecesFrom, if_pos ⟨rfl, rfl⟩, List.append_nil]
    rfl
  | cons c q ih =>
    have hstep : piecesFrom sep p (c :: q ++ sep :: sep :: rest) =
        piecesFrom sep (c :: p) (q ++ sep :: sep :: rest) := by
      cases q with
      | nil =>
        have hne := (List.isChain_cons_cons.mp hq).1
        exact if_neg hne
      | cons d q =>
        have hne := (List.isChain_cons_cons.mp hq).1
        exact if_neg hne
    rw [hstep, ih hq.tail, List.reverse_cons, List.append_assoc, List.singleton_append]

theorem piecesFrom_last {q : List Char} (hq : Clear sep q) : piecesFrom sep p q = [p.reverse ++ q] := by
  induction q generalizing p with
  | nil => rw [piecesFrom, List.append_nil]
  | cons c q ih =>
    cases q with
    | nil => rw [piecesFrom, List.reverse_cons]
    | cons d q =>
      have hne := (List.isChain_cons_cons.mp hq).1
      rw [piecesFrom, if_neg hne, ih hq.tail, List.reverse_cons, List.append_assoc,
        List.singleton_append]

theorem pieces_intercalate (h : Apart sep ps) : pieces sep ([sep, sep].intercalate ps) = ps := by
  induction ps with
  | nil => exact h.elim
  | cons p ps ih =>
    cases ps with
    | nil =>
      rw [List.intercalate_singleton]
      exact piecesFrom_last h
    | cons q ps =>
      have hrest := ih h.2
      rw [List.intercalate_cons_cons, List.append_assoc]
      exact (piecesFrom_pair h.1).trans (congrArg (p :: ·) hrest)

theorem intercalate_piecesFrom (r : List Char) :
    [sep, sep].intercalate (piecesFrom sep p r) = p.reverse ++ r := by
  induction p, r using piecesFrom.induct sep with
  | case1 p => rw [piecesFrom, List.intercalate_singleton, List.append_nil]
  | case2 p c => rw [piecesFrom, List.intercalate_singleton, List.reverse_cons]
  | case3 p c d cs h ih =>
    obtain ⟨rfl, rfl⟩ := h
    have hne : piecesFrom d [] cs ≠ [] := (apart_pieces d cs).ne_nil
    rw [piecesFrom, if_pos ⟨rfl, rfl⟩, List.intercalate_cons_of_ne_nil hne, ih]
    simp
  | case4 p c d cs h ih =>
    rw [piecesFrom, if_neg h, ih, List.reverse_cons, List.append_assoc, List.singleton_append]

end Apart

section Text
variable {sep : Char} {ps : List String}

/-- The pieces are told apart in the text they join to. -/
def Segments (sep : Char) (ps : List String) : Prop := Apart sep (ps.map String.toList)

theorem segments_splitOn (sep : Char) (s : String) : Segments sep (s.splitOn (ofList [sep, sep])) := by
  rw [splitOn_doubled, Segments, List.map_map]
  have hid : (String.toList ∘ ofList) = id := funext fun cs => toList_ofList
  rw [hid, List.map_id]
  exact apart_pieces sep s.toList

theorem Segments.ne_nil (h : Segments sep ps) : ps ≠ [] :=
  mt (congrArg (List.map String.toList)) (Apart.ne_nil h)

theorem Segments.right {qs : List String} (h : Segments sep (qs ++ ps)) (hps : ps ≠ []) :
    Segments sep ps := by
  rw [Segments, List.map_append] at h
  exact h.right (mt List.map_eq_nil_iff.mp hps)

theorem Segments.tail {p q : String} (h : Segments sep (p :: q :: ps)) : Segments sep (q :: ps) := h.2

theorem Segments.left {qs : List String} (h : Segments sep (qs ++ ps)) (hqs : qs ≠ []) :
    Segments sep qs := by
  rw [Segments, List.map_append] at h
  exact h.left (mt List.map_eq_nil_iff.mp hqs)

theorem Segments.glue {qs : List String} {p c q : String} {d : Char} (hc : c = ofList [d])
    (hd : d ≠ sep) (h : Segments sep (qs ++ [p, q])) : Segments sep (qs ++ [p ++ c ++ q]) := by
  rw [Segments, List.map_append] at h ⊢
  have hlast : [p ++ c ++ q].map String.toList = [p.toList ++ d :: q.toList] := by
    simp [hc]
  rw [hlast]
  exact h.glue hd

theorem splitOn_intercalate (h : Segments sep ps) :
    ((ofList [sep, sep]).intercalate ps).splitOn (ofList [sep, sep]) = ps := by
  have hid : (ofList ∘ String.toList) = id := funext fun s => ofList_toList
  rw [splitOn_doubled, toList_intercalate, toList_ofList, pieces_intercalate h, List.map_map, hid,
    List.map_id]

theorem intercalate_splitOn (sep : Char) (s : String) :
    (ofList [sep, sep]).intercalate (s.splitOn (ofList [sep, sep])) = s := by
  have hid : (String.toList ∘ ofList) = id := funext fun cs => toList_ofList
  rw [← String.toList_inj, toList_intercalate, toList_ofList, splitOn_doubled, List.map_map, hid,
    List.map_id]
  exact intercalate_piecesFrom s.toList

end Text

end Rustango.Pieces
