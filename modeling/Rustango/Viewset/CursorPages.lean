import Rustango.Lib.Walk
import Rustango.Viewset.CursorToken
import Rustango.Viewset.HookedList

/-!
# Cursor pages

`handle_list_cursor` and `cursor_page_admitted` of `viewset/mod.rs`: one page after another by the token of the
last row, with a scan in windows under a view hook.
-/

namespace Rustango.Viewset.Lists

open Rustango.Ranked
open Rustango.Url (Text)
open Rustango.Walk

/-- A `ViewSet` with cursor pagination. -/
structure CursorSet (fmt : Formats) (db : Database fmt) where
  model : ModelSchema
  hook : Option (RowJson → Bool)
  field : Text
  desc : Bool
  defaultPageSize : Nat
  maxPageSize : Nat
  viewHookScanCap : Nat
  cap_le : 1 ≤ viewHookScanCap ∧ viewHookScanCap ≤ maxViewHookScanCap
  render : db.Row → RowJson
  /-- The key a rendered row carries a field under. -/
  renderedKey : Text → Option Text

/-- A cursor request without its token. -/
structure CursorRequest (S : Type) where
  pageSize : Option Int
  filters : List S

inductive CursorResponse
  | badRequest
  | serverError
  | page (pageSize : Int) (next : Option Text) (results : List RowJson)
deriving DecidableEq

/-- Scan windows a cursor page reads past rows the "view" hook hides before it gives up and ends the list. -/
def cursorHiddenWindows : Nat := 10

section Pages
variable {fmt : Formats} (crates : TokenCrates fmt) {db : Database fmt} (vs : CursorSet fmt db)

namespace CursorSet

def cursor : Option FieldSchema := vs.model.field vs.field

/-- The primary key breaks ties, unless the cursor is the primary key. -/
def tiebreak (cursor : FieldSchema) : Option FieldSchema :=
  vs.model.primaryKey.filter fun pk => pk.column ≠ cursor.column

def orderBy (cursor : FieldSchema) : List OrderItem := cursorOrder cursor (vs.tiebreak cursor) vs.desc

def renderList (q : SelectQuery fmt db.Given) : Option (List RowJson) := (db.select q).map fun rows => rows.map vs.render

def pageSize (req : CursorRequest db.Given) : Int :=
  max (min (req.pageSize.getD (castI64 vs.defaultPageSize)) (castI64 vs.maxPageSize)) 1

end CursorSet

def CursorRequest.where_ (req : CursorRequest db.Given) : List (Cond fmt db.Given) := req.filters.map .given

/-- The position after a row read in full. -/
def positionOf (cursor : FieldSchema) (row : RowJson) : Option (SqlValue fmt × Option (SqlValue fmt)) :=
  let valueOf (field : FieldSchema) := (cursorValueOf row field.name).bind fun s => parseCursorScalar crates s field.ty
  match vs.tiebreak cursor with
  | some pk => (valueOf pk).bind fun u => (valueOf cursor).map fun v => (v, some u)
  | none => (valueOf cursor).map fun v => (v, none)

/-- The admitted rows of the first window that has some, and whether rows are left past it. -/
def scanWindows (allows : RowJson → Bool) (filters : List (Cond fmt db.Given)) (cursor : FieldSchema) (size : Nat) :
    Nat → List (Cond fmt db.Given) → Option (List RowJson × Bool)
  | 0, _ => some ([], true)
  | windows + 1, where_ =>
    (db.select ⟨where_, vs.orderBy cursor, some (min (min vs.viewHookScanCap i64Max.toNat + 1) i64Max.toNat), none⟩).bind
      fun rows =>
        let truncated := decide (vs.viewHookScanCap < rows.length)
        let rows := (rows.take vs.viewHookScanCap).map (db.json vs.model.fields)
        let admitted := rows.filter allows
        if size < admitted.length || !truncated || !admitted.isEmpty then some (admitted, truncated)
        else
          -- A whole window hidden: move past it without naming any of it.
          match rows.getLast?.bind (positionOf crates vs cursor) with
          | none => some (admitted, truncated)
          | some (v, u) => scanWindows allows filters cursor size windows
              (filters ++ [cursorAfter cursor (vs.tiebreak cursor) vs.desc v u])

/-- The token of a row read in full. -/
def tokenOf (cursor : FieldSchema) (row : RowJson) : Option Text :=
  match vs.tiebreak cursor with
  | some pk => (cursorValueOf row pk.name).bind fun u =>
      (cursorValueOf row cursor.name).map fun v => encodeCursor crates v (some u)
  | none => (cursorValueOf row cursor.name).map fun v => encodeCursor crates v none

/-- A cursor page under a "view" hook: the first `page_size` rows the hook admits. `next` resumes after the last
admitted row, never a hidden one. -/
def cursorPageAdmitted (allows : RowJson → Bool) (req : CursorRequest db.Given) (cursor : FieldSchema)
    (where_ : List (Cond fmt db.Given)) : CursorResponse :=
  match vs.model.primaryKey with
  | none => .serverError
  | some pk =>
    let size := (vs.pageSize req).toNat
    match scanWindows crates vs allows req.where_ cursor size cursorHiddenWindows where_ with
    | none => .serverError
    | some (admitted, truncated) =>
      let page := admitted.take size
      let resume := if decide (size < admitted.length) || truncated then page.getLast? else none
      let pks := page.filterMap fun row => rowPk crates.parsers row pk
      match vs.renderList ⟨[pkIn pk pks], vs.orderBy cursor, none, none⟩ with
      | none => .serverError
      | some results => .page (vs.pageSize req) (resume.bind (tokenOf crates vs cursor)) results

/-- The text of a rendered row's cursor column. -/
def renderedValue (cursor : FieldSchema) (row : RowJson) : Option Text :=
  cursorValueOf row ((vs.renderedKey cursor.name).getD cursor.name)

/-- The token of a rendered row, which must show the cursor column and the tiebreaker. -/
def renderedToken (cursor : FieldSchema) (row : RowJson) : Option Text :=
  match vs.tiebreak cursor with
  | some pk => ((vs.renderedKey pk.name).bind (cursorValueOf row)).bind fun u =>
      (renderedValue vs cursor row).map fun v => encodeCursor crates v (some u)
  | none => (renderedValue vs cursor row).map fun v => encodeCursor crates v none

/-- A cursor page with no hook: one row more than a page tells whether a next page exists. -/
def cursorPage (req : CursorRequest db.Given) (cursor : FieldSchema) (where_ : List (Cond fmt db.Given)) :
    CursorResponse :=
  -- `page_size + 1` overflows.
  if i64Max < vs.pageSize req + 1 then .serverError
  else match vs.renderList ⟨where_, vs.orderBy cursor, some (vs.pageSize req + 1).toNat, none⟩ with
  | none => .serverError
  | some rows =>
    if vs.pageSize req < rows.length then
      let page := rows.take (vs.pageSize req).toNat
      match page.getLast?.bind (renderedToken crates vs cursor) with
      | none => .serverError
      | some next => .page (vs.pageSize req) (some next) page
    else .page (vs.pageSize req) none rows

def handleListCursor (req : CursorRequest db.Given) (token : Option Text) : CursorResponse :=
  match vs.cursor with
  | none => .serverError
  | some cursor =>
    if !cursorFieldSupported cursor.ty then .serverError
    else
      let position : Option (Option (SqlValue fmt × Option (SqlValue fmt))) :=
        match token.filter fun c => !c.isEmpty with
        | none => some none
        | some c => (decodeCursor crates c cursor.ty ((vs.tiebreak cursor).elim cursor.ty FieldSchema.ty)).map some
      match position with
      | none => .badRequest
      | some position =>
        let where_ := req.where_ ++ position.toList.map fun p => cursorAfter cursor (vs.tiebreak cursor) vs.desc p.1 p.2
        match vs.hook with
        | some allows => cursorPageAdmitted crates vs allows req cursor where_
        | none => cursorPage crates vs req cursor where_

/-- One page of the walk: its results and the token of the next page; no page where the request fails. -/
def turn (req : CursorRequest db.Given) (token : Option Text) : Option (List RowJson × Option Text) :=
  match handleListCursor crates vs req token with
  | .page _ next results => some (results, next)
  | _ => none

variable {crates vs}

/-- The rows that match the filters, in the order of the list. -/
def inOrder (vs : CursorSet fmt db) (req : CursorRequest db.Given) (cursor : FieldSchema) : List db.Row :=
  ranked (db.orderOf (vs.orderBy cursor)) (db.matching req.where_)

def admits (vs : CursorSet fmt db) (r : db.Row) : Bool :=
  vs.hook.all fun allows => allows (db.json vs.model.fields r)

/-- The rows that a walk is to show. -/
def shownRows (vs : CursorSet fmt db) (rows : List db.Row) : List RowJson := (rows.filter (admits vs)).map vs.render

/-- The text of a column in the row that a token is made from. -/
def placeText (vs : CursorSet fmt db) (cursor : FieldSchema) (r : db.Row) (f : FieldSchema) : Option Text :=
  match vs.hook with
  | some _ => cursorValueOf (db.json vs.model.fields r) f.name
  | none =>
    if f = cursor then renderedValue vs cursor (vs.render r)
    else (vs.renderedKey f.name).bind (cursorValueOf (vs.render r))

/-- The binds of the condition that resumes behind a row. -/
def afterBinds (vs : CursorSet fmt db) (cursor : FieldSchema) : Nat :=
  match vs.tiebreak cursor with
  | some _ => 3
  | none => 1

/-- A row reads back as its place: its texts parse to values that compare with every cell as its own cells do, and
the condition that resumes behind it fits the dialect. -/
structure PlaceReads (crates : TokenCrates fmt) (vs : CursorSet fmt db) (req : CursorRequest db.Given)
    (cursor : FieldSchema) (r : db.Row) : Prop where
  value : ∃ s v, placeText vs cursor r cursor = some s ∧ parseCursorScalar crates s cursor.ty = some v ∧
    StandsFor (db.matching req.where_) cursor.column v r
  tie : ∀ pk ∈ vs.tiebreak cursor, ∃ t u, placeText vs cursor r pk = some t ∧
    parseCursorScalar crates t pk.ty = some u ∧ StandsFor (db.matching req.where_) pk.column u r
  fits : db.whereBinds req.where_ + afterBinds vs cursor ≤ db.maxBindParams

/-- The token of a row reads back as its place: a bare text is neither empty nor an array of two strings. -/
structure TokenReads (crates : TokenCrates fmt) (vs : CursorSet fmt db) (req : CursorRequest db.Given)
    (cursor : FieldSchema) (r : db.Row) : Prop extends PlaceReads crates vs req cursor r where
  bare : vs.tiebreak cursor = none → ∀ s, placeText vs cursor r cursor = some s →
    s ≠ [] ∧ ∀ a b, crates.strings s ≠ some [a, b]

/-- Whole windows of rows that the hook hides. -/
structure HiddenWindows (vs : CursorSet fmt db) (hidden : List db.Row) : Prop where
  hides : ∀ r ∈ hidden, admits vs r = false
  whole : vs.viewHookScanCap ∣ hidden.length

/-- The rows that the hook admits in the first window of `rest`. -/
def windowRows (vs : CursorSet fmt db) (rest : List db.Row) : List db.Row :=
  (rest.take vs.viewHookScanCap).filter (admits vs)

/-- A page from the start of `left` on ends at `e`, and rows may be left to show behind it. -/
inductive PageEdge (vs : CursorSet fmt db) (req : CursorRequest db.Given) : List db.Row → db.Row → List db.Row → Prop
  | plain {front back : List db.Row} {e : db.Row} (hook : vs.hook = none)
      (size : front.length + 1 = (vs.pageSize req).toNat) (more : back ≠ []) : PageEdge vs req (front ++ e :: back) e back
  -- The page shows its rows from the first window that is not hidden as a whole.
  | hooked {hidden front back : List db.Row} {e : db.Row} (hook : vs.hook.isSome = true)
      (passed : HiddenWindows vs hidden) (admitted : admits vs e = true)
      (page : (front ++ [e]).filter (admits vs) =
        (windowRows vs (front ++ e :: back)).take (vs.pageSize req).toNat)
      (more : (vs.pageSize req).toNat < (windowRows vs (front ++ e :: back)).length ∨
        vs.viewHookScanCap < (front ++ e :: back).length) : PageEdge vs req (hidden ++ (front ++ e :: back)) e back

/-- What is left of the list where a page starts. -/
inductive PageStart (vs : CursorSet fmt db) (req : CursorRequest db.Given) (cursor : FieldSchema) : List db.Row → Prop
  | first : PageStart vs req cursor (inOrder vs req cursor)
  | next {left back : List db.Row} {e : db.Row} (start : PageStart vs req cursor left)
      (edge : PageEdge vs req left e back) : PageStart vs req cursor back

/-- The list that reads rows again by their keys. -/
def CursorSet.asList (vs : CursorSet fmt db) : ViewSet fmt db :=
  ⟨vs.model, vs.hook, .pageNumber, vs.defaultPageSize, vs.maxPageSize, 0, false, vs.viewHookScanCap, vs.cap_le, vs.render⟩

/-- What a hook asks of a walk: the keys of the rows it admits read back and name them, each page of them fits one
statement, the last row of each hidden window that a page passes reads back as its place, and no run of hidden rows
fills all the windows of a page. -/
structure HookFits (crates : TokenCrates fmt) (vs : CursorSet fmt db) (req : CursorRequest db.Given)
    (cursor pk : FieldSchema) : Prop where
  readable : Readable crates.parsers vs.asList pk ((inOrder vs req cursor).filter (admits vs))
  named : ∀ r ∈ (inOrder vs req cursor).filter (admits vs), NamesItself crates.parsers vs.asList r
  fits : ∀ hidden rest, PageStart vs req cursor (hidden ++ rest) → HiddenWindows vs hidden →
    ((windowRows vs rest).take (vs.pageSize req).toNat).length ≤ db.maxBindParams
  ends : ∀ front e back, PageStart vs req cursor (front ++ e :: back) → HiddenWindows vs (front ++ [e]) →
    back ≠ [] → PlaceReads crates vs req cursor e
  runs : ∀ run, run <:+: inOrder vs req cursor → (∀ r ∈ run, admits vs r = false) →
    run.length < cursorHiddenWindows * vs.viewHookScanCap

end Pages

section Page
variable {fmt : Formats} {crates : TokenCrates fmt} {db : Database fmt} {vs : CursorSet fmt db}
  {req : CursorRequest db.Given} {cursor pk : FieldSchema}

/-- A value and a tiebreaker stand for a row. -/
def Place (vs : CursorSet fmt db) (req : CursorRequest db.Given) (cursor : FieldSchema) (r : db.Row)
    (position : SqlValue fmt × Option (SqlValue fmt)) : Prop :=
  StandsFor (db.matching req.where_) cursor.column position.1 r ∧ ∀ pk ∈ vs.tiebreak cursor,
    ∃ u, position.2 = some u ∧ StandsFor (db.matching req.where_) pk.column u r

/-- What a token selects. -/
def afterPlace (vs : CursorSet fmt db) (req : CursorRequest db.Given) (cursor : FieldSchema)
    (position : SqlValue fmt × Option (SqlValue fmt)) : List (Cond fmt db.Given) :=
  req.where_ ++ [cursorAfter cursor (vs.tiebreak cursor) vs.desc position.1 position.2]

/-- A token reads back as a position. -/
def Decodes (crates : TokenCrates fmt) (vs : CursorSet fmt db) (cursor : FieldSchema) (token : Text)
    (position : SqlValue fmt × Option (SqlValue fmt)) : Prop :=
  token ≠ [] ∧ decodeCursor crates token cursor.ty ((vs.tiebreak cursor).elim cursor.ty FieldSchema.ty) = some position

theorem whereBinds_afterPlace (position : SqlValue fmt × Option (SqlValue fmt)) :
    db.whereBinds (afterPlace vs req cursor position) ≤ db.whereBinds req.where_ + afterBinds vs cursor := by
  rw [afterPlace, whereBinds_append, afterBinds]
  unfold cursorAfter
  simp only [Database.whereBinds]
  cases vs.tiebreak cursor with
  | none => simp [Database.condBinds]
  | some pk => cases position.2 <;> simp [Database.condBinds]

theorem inOrder_afterPlace (hlawful : db.Lawful pk) (horder : ∃ o ∈ vs.orderBy cursor, o.column = pk.column)
    {position : SqlValue fmt × Option (SqlValue fmt)} {front back : List db.Row} {e : db.Row}
    (hlist : inOrder vs req cursor = front ++ e :: back) (hplace : Place vs req cursor e position) :
    ranked (db.orderOf (vs.orderBy cursor)) (db.matching (afterPlace vs req cursor position)) = back := by
  have htrans := transCmp_orderOf hlawful.orders (vs.orderBy cursor)
  have hdistinct := hlawful.distinct_matching horder req.where_
  have hafter : db.matching (afterPlace vs req cursor position) =
      (db.matching req.where_).filter fun r => db.orderOf (vs.orderBy cursor) e r = .lt := by
    rw [afterPlace, matching_append]
    apply List.filter_congr
    intro r hr
    rw [Bool.eq_iff_iff, List.all_cons, List.all_nil, Bool.and_true, decide_eq_true_eq]
    exact holds_cursorAfter hlawful.orders hplace.1 hplace.2 hr vs.desc
  rw [hafter, ← filter_ranked hdistinct]
  change (inOrder vs req cursor).filter _ = back
  have hsorted : (inOrder vs req cursor).Pairwise fun a b => db.orderOf (vs.orderBy cursor) a b = .lt :=
    pairwise_lt_ranked hdistinct
  rw [hlist] at hsorted ⊢
  exact filter_greater hsorted

theorem ne_nil_encodeCursor {value : Text} {tiebreak : Option Text} (h : tiebreak = none → value ≠ []) :
    encodeCursor crates value tiebreak ≠ [] := by
  unfold encodeCursor
  rw [Ne, engine_encode_eq_nil, Utf8.encode_eq_nil]
  cases tiebreak with
  | none => exact h rfl
  | some pk => simp [pairText]

theorem decodes_bare {s : Text} {v : SqlValue fmt}
    (hv : parseCursorScalar crates s cursor.ty = some v) (hs : s ≠ []) (hbare : ∀ a b, crates.strings s ≠ some [a, b]) :
    Decodes crates vs cursor (encodeCursor crates s none) (v, none) :=
  ⟨ne_nil_encodeCursor fun _ => hs, decodeCursor_bare hv hbare⟩

theorem decodes_composite (htie : vs.tiebreak cursor = some pk) {s t : Text} {v u : SqlValue fmt}
    (hv : parseCursorScalar crates s cursor.ty = some v) (hu : parseCursorScalar crates t pk.ty = some u) :
    Decodes crates vs cursor (encodeCursor crates s (some t)) (v, some u) := by
  constructor
  · exact ne_nil_encodeCursor fun hnone => by cases hnone
  · rw [htie]
    exact decodeCursor_composite hv hu

theorem place_bare (htie : vs.tiebreak cursor = none) {r : db.Row} {v : SqlValue fmt}
    (hv : StandsFor (db.matching req.where_) cursor.column v r) : Place vs req cursor r (v, none) :=
  ⟨hv, fun pk hpk => by rw [htie] at hpk; cases hpk⟩

theorem place_composite (htie : vs.tiebreak cursor = some pk) {r : db.Row} {v u : SqlValue fmt}
    (hv : StandsFor (db.matching req.where_) cursor.column v r)
    (hu : StandsFor (db.matching req.where_) pk.column u r) : Place vs req cursor r (v, some u) := by
  refine ⟨hv, fun pk' hpk' => ⟨u, rfl, ?_⟩⟩
  rw [htie] at hpk'
  cases hpk'
  exact hu

theorem PlaceReads.position {r : db.Row} {allows : RowJson → Bool} (h : PlaceReads crates vs req cursor r)
    (hhook : vs.hook = some allows) : ∃ position, Place vs req cursor r position ∧
      positionOf crates vs cursor (db.json vs.model.fields r) = some position := by
  obtain ⟨s, v, hs, hv, hstands⟩ := h.value
  have htext : ∀ f, placeText vs cursor r f = cursorValueOf (db.json vs.model.fields r) f.name := by
    intro f
    rw [placeText, hhook]
  rw [htext] at hs
  cases htie : vs.tiebreak cursor with
  | none =>
    refine ⟨(v, none), place_bare htie hstands, ?_⟩
    simp [positionOf, htie, hs, hv]
  | some pk =>
    obtain ⟨t, u, ht, hu, hpk⟩ := h.tie pk htie
    rw [htext] at ht
    refine ⟨(v, some u), place_composite htie hstands hpk, ?_⟩
    simp [positionOf, htie, hs, hv, ht, hu]

theorem TokenReads.hooked {r : db.Row} {allows : RowJson → Bool} (h : TokenReads crates vs req cursor r)
    (hhook : vs.hook = some allows) : ∃ token position, Place vs req cursor r position ∧
      Decodes crates vs cursor token position ∧ tokenOf crates vs cursor (db.json vs.model.fields r) = some token := by
  obtain ⟨s, v, hs, hv, hstands⟩ := h.value
  have htext : ∀ f, placeText vs cursor r f = cursorValueOf (db.json vs.model.fields r) f.name := by
    intro f
    rw [placeText, hhook]
  rw [htext] at hs
  cases htie : vs.tiebreak cursor with
  | none =>
    obtain ⟨hne, hbare⟩ := h.bare htie s (by rw [htext, hs])
    refine ⟨_, (v, none), place_bare htie hstands, decodes_bare hv hne hbare, ?_⟩
    simp [tokenOf, htie, hs]
  | some pk =>
    obtain ⟨t, u, ht, hu, hpk⟩ := h.tie pk htie
    rw [htext] at ht
    refine ⟨_, (v, some u), place_composite htie hstands hpk, decodes_composite htie hv hu, ?_⟩
    simp [tokenOf, htie, hs, ht]

/-- Without a hook the token is read from the rendered row. -/
theorem TokenReads.plain {r : db.Row} (h : TokenReads crates vs req cursor r) (hhook : vs.hook = none) :
    ∃ token position, Place vs req cursor r position ∧ Decodes crates vs cursor token position ∧
      renderedToken crates vs cursor (vs.render r) = some token := by
  obtain ⟨s, v, hs, hv, hstands⟩ := h.value
  have hcursor : placeText vs cursor r cursor = renderedValue vs cursor (vs.render r) := by
    rw [placeText, hhook]
    exact if_pos rfl
  cases htie : vs.tiebreak cursor with
  | none =>
    obtain ⟨hne, hbare⟩ := h.bare htie s hs
    refine ⟨_, (v, none), place_bare htie hstands, decodes_bare hv hne hbare, ?_⟩
    rw [hcursor] at hs
    simp [renderedToken, htie, hs]
  | some pk =>
    obtain ⟨t, u, ht, hu, hpk⟩ := h.tie pk htie
    have hne : pk ≠ cursor := by
      intro heq
      have hcolumn := (Option.filter_eq_some_iff.1 htie).2
      rw [heq] at hcolumn
      simp at hcolumn
    have htext : placeText vs cursor r pk = (vs.renderedKey pk.name).bind (cursorValueOf (vs.render r)) := by
      rw [placeText, hhook]
      exact if_neg hne
    refine ⟨_, (v, some u), place_composite htie hstands hpk, decodes_composite htie hv hu, ?_⟩
    rw [hcursor] at hs
    rw [htext] at ht
    simp [renderedToken, htie, hs, ht]

/-- The conditions of a page select what is left. -/
structure Selects (vs : CursorSet fmt db) (req : CursorRequest db.Given) (cursor : FieldSchema)
    (where_ : List (Cond fmt db.Given)) (left : List db.Row) : Prop where
  rows : ranked (db.orderOf (vs.orderBy cursor)) (db.matching where_) = left
  binds : db.whereBinds where_ ≤ db.maxBindParams

/-- A token that stands for what is left. -/
def Stands (crates : TokenCrates fmt) (vs : CursorSet fmt db) (req : CursorRequest db.Given) (cursor : FieldSchema)
    (token : Option Text) (left : List db.Row) : Prop :=
  match token with
  | none => left = inOrder vs req cursor
  | some token => PageStart vs req cursor left ∧ ∃ position, Decodes crates vs cursor token position ∧
      Selects vs req cursor (afterPlace vs req cursor position) left

theorem PageEdge.exists_front {left back : List db.Row} {e : db.Row} (h : PageEdge vs req left e back) :
    ∃ front, left = front ++ e :: back := by
  cases h with
  | plain => exact ⟨_, rfl⟩
  | hooked => exact ⟨_, (List.append_assoc _ _ _).symm⟩

theorem PageStart.suffix {left : List db.Row} (h : PageStart vs req cursor left) : left <:+ inOrder vs req cursor := by
  induction h with
  | first => exact List.suffix_refl _
  | next _ hedge ih =>
    obtain ⟨front, rfl⟩ := hedge.exists_front
    exact ((List.suffix_cons _ _).trans (List.suffix_append _ _)).trans ih

section Steps
variable (hlawful : db.Lawful pk) (horder : ∃ o ∈ vs.orderBy cursor, o.column = pk.column)
include hlawful horder

theorem Selects.select_eq {where_ : List (Cond fmt db.Given)} {left : List db.Row}
    (h : Selects vs req cursor where_ left) (limit : Option Nat) :
    db.select ⟨where_, vs.orderBy cursor, limit, none⟩ = some (slice limit none left) := by
  have hselect := hlawful.select_eq (q := ⟨where_, vs.orderBy cursor, limit, none⟩) horder h.binds
  rw [hselect]
  simp only [h.rows]

theorem selects_afterPlace {position : SqlValue fmt × Option (SqlValue fmt)} {front back : List db.Row} {e : db.Row}
    (hlist : front ++ e :: back <:+ inOrder vs req cursor) (hplace : Place vs req cursor e position)
    (hfits : db.whereBinds req.where_ + afterBinds vs cursor ≤ db.maxBindParams) :
    Selects vs req cursor (afterPlace vs req cursor position) back where
  rows := by
    obtain ⟨pre, hpre⟩ := hlist
    have hwhole : inOrder vs req cursor = (pre ++ front) ++ e :: back := by rw [← hpre, List.append_assoc]
    exact inOrder_afterPlace hlawful horder hwhole hplace
  binds := (whereBinds_afterPlace position).trans hfits

end Steps

theorem exists_cut_at {α : Type*} {list : List α} {n : Nat} (hpos : 0 < n) (hmore : n < list.length) :
    ∃ front e back, list = front ++ e :: back ∧ list.take n = front ++ [e] ∧ back ≠ [] := by
  refine ⟨list.take (n - 1), list[n - 1], list.drop n, ?_, ?_, ?_⟩
  · have hdrop := List.drop_eq_getElem_cons (l := list) (i := n - 1) (by omega)
    rw [show n - 1 + 1 = n by omega] at hdrop
    rw [← hdrop, List.take_append_drop]
  · have htake := List.take_concat_get' list (n - 1) (by omega)
    rw [show n - 1 + 1 = n by omega] at htake
    exact htake.symm
  · intro hnil
    rw [List.drop_eq_nil_iff] at hnil
    omega

theorem pageSize_pos : 1 ≤ vs.pageSize req := le_max_right _ _

theorem cursorPage_serves (hlawful : db.Lawful pk) (horder : ∃ o ∈ vs.orderBy cursor, o.column = pk.column)
    (hhook : vs.hook = none) (hsize : vs.pageSize req < i64Max) {left : List db.Row}
    (hstart : PageStart vs req cursor left)
    (hreads : ∀ e back, PageEdge vs req left e back → TokenReads crates vs req cursor e)
    {where_ : List (Cond fmt db.Given)} (h : Selects vs req cursor where_ left) :
    ∃ next results, cursorPage crates vs req cursor where_ = .page (vs.pageSize req) next results ∧
      Serves (shownRows vs) (Stands crates vs req cursor) (results, next) left := by
  have hpos : 1 ≤ vs.pageSize req := pageSize_pos
  have hadmits : ∀ rows : List db.Row, shownRows vs rows = rows.map vs.render := by
    intro rows
    rw [shownRows, List.filter_eq_self.2 fun r _ => by rw [admits, hhook]; rfl]
  generalize hn : (vs.pageSize req).toNat = n
  have hlimit : (vs.pageSize req + 1).toNat = n + 1 := by omega
  have hrows : ∀ limit, vs.renderList ⟨where_, vs.orderBy cursor, some limit, none⟩ =
      some ((left.take limit).map vs.render) := by
    intro limit
    rw [CursorSet.renderList, h.select_eq hlawful horder]
    rfl
  have hroom : ¬ i64Max < vs.pageSize req + 1 := not_lt.2 (Int.add_one_le_of_lt hsize)
  clear hsize
  unfold cursorPage
  rw [if_neg hroom, hlimit, hrows]
  simp only [hn]
  by_cases hmore : n < left.length
  · rw [if_pos (by simp only [List.length_map, List.length_take]; omega)]
    obtain ⟨front, e, back, hleft, htake, hback⟩ := exists_cut_at (by omega) hmore
    have hfront : front.length + 1 = n := by
      have hlength := congrArg List.length htake
      rw [List.length_take, Nat.min_eq_left hmore.le] at hlength
      simpa using hlength.symm
    subst hleft
    have hedge : PageEdge vs req (front ++ e :: back) e back := .plain hhook (hfront.trans hn.symm) hback
    have htokenReads := hreads e back hedge
    obtain ⟨token, position, hplace, hdecodes, htoken⟩ := htokenReads.plain hhook
    have hpage : (((front ++ e :: back).take (n + 1)).map vs.render).take n = (front ++ [e]).map vs.render := by
      rw [← List.map_take, List.take_take, Nat.min_eq_left (Nat.le_succ n), htake]
    have hlast : ((front ++ [e]).map vs.render).getLast? = some (vs.render e) := by simp
    rw [hpage, hlast, Option.bind_some, htoken]
    refine ⟨some token, _, rfl, ?_, ?_⟩
    · intro hnone
      cases hnone
    · intro next hnext
      cases hnext
      refine ⟨front ++ [e], back, by simp, by simp, (hadmits _).symm, hstart.next hedge, position, hdecodes, ?_⟩
      exact selects_afterPlace hlawful horder hstart.suffix hplace htokenReads.fits
  · rw [if_neg (by simp only [List.length_map, List.length_take]; omega), List.take_of_length_le (by omega)]
    refine ⟨none, _, rfl, fun _ => (hadmits left).symm, ?_⟩
    intro next hnext
    cases hnext

theorem filter_json {allows : RowJson → Bool} (hhook : vs.hook = some allows) (rows : List db.Row) :
    (rows.map (db.json vs.model.fields)).filter allows = (rows.filter (admits vs)).map (db.json vs.model.fields) := by
  rw [List.filter_map]
  congr 2
  funext r
  rw [admits, hhook]
  rfl

theorem renderList_admitted (hlawful : db.Lawful pk) (horder : ∃ o ∈ vs.orderBy cursor, o.column = pk.column)
    (hpk : vs.model.primaryKey = some pk) (hfits : HookFits crates vs req cursor pk) {page : List db.Row}
    (hpage : page.Sublist ((inOrder vs req cursor).filter (admits vs))) (hlength : page.length ≤ db.maxBindParams) :
    vs.renderList ⟨[pkIn pk (readKeys crates.parsers vs.asList pk page)], vs.orderBy cursor, none, none⟩ =
      some (page.map vs.render) := by
  have htrans := transCmp_orderOf hlawful.orders (vs.orderBy cursor)
  have hdistinct := pairwise_lt_ranked (hlawful.distinct_matching horder req.where_)
  have hrows : ∀ r ∈ page, r ∈ db.rows := by
    intro r hr
    exact (mem_matching.1 (mem_ranked.1 (List.mem_filter.1 (hpage.subset hr)).1)).1
  exact renderKeys_eq hlawful hpk horder (hdistinct.sublist (hpage.trans List.filter_sublist)) hrows
    (fun r hr => hfits.readable r (hpage.subset hr)) (fun r hr => hfits.named r (hpage.subset hr)) hlength

section Hooked
variable {allows : RowJson → Bool} (hlawful : db.Lawful pk) (horder : ∃ o ∈ vs.orderBy cursor, o.column = pk.column)
  (hhook : vs.hook = some allows) (hpk : vs.model.primaryKey = some pk) (hfits : HookFits crates vs req cursor pk)
include hlawful horder hhook hfits

/-- The windows of a page run past hidden rows up to a window that shows some, or to the end of the list. -/
theorem scanWindows_eq (size : Nat) {windows : Nat} (hwindows : windows ≤ cursorHiddenWindows)
    {where_ : List (Cond fmt db.Given)} {hidden left : List db.Row} (h : Selects vs req cursor where_ left)
    (hstart : PageStart vs req cursor (hidden ++ left)) (hhidden : HiddenWindows vs hidden)
    (hlength : hidden.length = (cursorHiddenWindows - windows) * vs.viewHookScanCap) :
    ∃ skipped rest, left = skipped ++ rest ∧ HiddenWindows vs (hidden ++ skipped) ∧
      (windowRows vs rest ≠ [] ∨ rest.length ≤ vs.viewHookScanCap) ∧
      scanWindows crates vs allows req.where_ cursor size windows where_ =
        some ((windowRows vs rest).map (db.json vs.model.fields), decide (vs.viewHookScanCap < rest.length)) := by
  have hcap := vs.cap_le
  have hlimit : min (min vs.viewHookScanCap i64Max.toNat + 1) i64Max.toNat = vs.viewHookScanCap + 1 := by
    simp only [maxViewHookScanCap] at hcap
    simp only [i64Max]
    omega
  induction windows generalizing where_ hidden left with
  | zero =>
    have hfilled := hfits.runs hidden ((List.infix_append' [] hidden left).trans hstart.suffix.isInfix) hhidden.hides
    rw [hlength, Nat.sub_zero] at hfilled
    omega
  | succ windows ih =>
    rw [scanWindows, hlimit, h.select_eq hlawful horder]
    unfold windowRows
    generalize hcapEq : vs.viewHookScanCap = cap at hcap hlimit hlength ⊢
    simp only [slice, Option.bind_some, Option.map_some, Option.getD_some, Option.getD_none, List.drop_zero,
      List.length_take, List.take_take, Nat.min_eq_left (Nat.le_succ cap),
      filter_json hhook]
    have htruncated : decide (cap < min (cap + 1) left.length) = decide (cap < left.length) := by
      rw [decide_eq_decide]
      omega
    rw [htruncated]
    split
    · rename_i hstop
      refine ⟨[], left, rfl, by rwa [List.append_nil], ?_, rfl⟩
      simp only [Bool.or_eq_true, decide_eq_true_eq, Bool.not_eq_true', decide_eq_false_iff_not, not_lt,
        List.isEmpty_eq_false_iff, List.length_map] at hstop
      rcases hstop with (hmore | hend) | hsome
      · left
        intro hnil
        simp [hnil] at hmore
      · exact .inr hend
      · left
        simpa using hsome
    · rename_i hgo
      simp only [Bool.or_eq_true, decide_eq_true_eq, Bool.not_eq_true', decide_eq_false_iff_not, not_lt,
        List.isEmpty_eq_false_iff, List.length_map, not_or, not_le, List.map_eq_nil_iff, not_not] at hgo
      obtain ⟨⟨-, hmore⟩, hnone⟩ := hgo
      obtain ⟨front, e, back, hleft, htake, hback⟩ := exists_cut_at (by omega) hmore
      have hwindow : ∀ r ∈ front ++ [e], admits vs r = false := by
        rw [htake, List.filter_eq_nil_iff] at hnone
        intro r hr
        simpa using hnone r hr
      have hlengthWindow : (front ++ [e]).length = cap := by
        rw [← htake, List.length_take, Nat.min_eq_left hmore.le]
      subst hleft
      have hwhole : vs.viewHookScanCap ∣ (hidden ++ (front ++ [e])).length := by
        rw [List.length_append, hlengthWindow, ← hcapEq]
        exact Nat.dvd_add hhidden.whole dvd_rfl
      have hpassed : HiddenWindows vs (hidden ++ (front ++ [e])) :=
        ⟨fun r hr => (List.mem_append.1 hr).elim (hhidden.hides r) (hwindow r), hwhole⟩
      have hreads : PlaceReads crates vs req cursor e :=
        hfits.ends (hidden ++ front) e back (by rwa [List.append_assoc]) (by rwa [List.append_assoc]) hback
      obtain ⟨position, hplace, hposition⟩ := hreads.position hhook
      have hlast : ((front ++ [e]).map (db.json vs.model.fields)).getLast? = some (db.json vs.model.fields e) := by simp
      rw [htake, hlast, Option.bind_some, hposition]
      obtain ⟨skipped, rest, hbackEq, hskipped, hcases, hscan⟩ := ih (by omega)
        (selects_afterPlace hlawful horder ((List.suffix_append hidden _).trans hstart.suffix) hplace hreads.fits)
        (show PageStart vs req cursor ((hidden ++ (front ++ [e])) ++ back) by simpa using hstart) hpassed
        (by
          rw [List.length_append, hlength, hlengthWindow, hcapEq, ← Nat.succ_mul]
          congr 1
          omega)
      rw [windowRows, hcapEq] at hcases
      rw [windowRows, hcapEq] at hscan
      exact ⟨front ++ [e] ++ skipped, rest, by rw [hbackEq]; simp, by simpa using hskipped, hcases, hscan⟩

include hpk

/-- A page under a hook is made of the rows that its last window shows; it has a next one while more may follow. -/
private theorem cursorPageAdmitted_eq {left : List db.Row} (hstart : PageStart vs req cursor left)
    {where_ : List (Cond fmt db.Given)} (h : Selects vs req cursor where_ left) :
    ∃ skipped rest, left = skipped ++ rest ∧ HiddenWindows vs skipped ∧
      (windowRows vs rest ≠ [] ∨ rest.length ≤ vs.viewHookScanCap) ∧
      cursorPageAdmitted crates vs allows req cursor where_ = .page (vs.pageSize req)
        ((if decide ((vs.pageSize req).toNat < (windowRows vs rest).length) ||
              decide (vs.viewHookScanCap < rest.length) then
            (((windowRows vs rest).take (vs.pageSize req).toNat).map (db.json vs.model.fields)).getLast?
          else none).bind (tokenOf crates vs cursor))
        (((windowRows vs rest).take (vs.pageSize req).toNat).map vs.render) := by
  obtain ⟨skipped, rest, hleft, hpassed, hcases, hscan⟩ := scanWindows_eq hlawful horder hhook hfits
    (vs.pageSize req).toNat (le_refl cursorHiddenWindows) h (show PageStart vs req cursor ([] ++ left) from hstart)
    ⟨by simp, by simp⟩ (by simp)
  rw [List.nil_append] at hpassed
  refine ⟨skipped, rest, hleft, hpassed, hcases, ?_⟩
  have hroom := hfits.fits skipped rest (hleft ▸ hstart) hpassed
  have hadmitted : (windowRows vs rest).Sublist ((inOrder vs req cursor).filter (admits vs)) := by
    have hrest : rest <:+ inOrder vs req cursor := (hleft ▸ List.suffix_append skipped rest).trans hstart.suffix
    have hself : (windowRows vs rest).filter (admits vs) = windowRows vs rest := by
      rw [windowRows, List.filter_filter]
      simp
    rw [← hself]
    exact (List.filter_sublist.trans ((List.take_sublist _ _).trans hrest.sublist)).filter _
  generalize hn : (vs.pageSize req).toNat = n at hscan hroom ⊢
  generalize windowRows vs rest = A at hscan hroom hadmitted ⊢
  have hresults : vs.renderList ⟨[pkIn pk (readKeys crates.parsers vs.asList pk (A.take n))], vs.orderBy cursor, none,
      none⟩ = some ((A.take n).map vs.render) :=
    renderList_admitted hlawful horder hpk hfits ((List.take_sublist n A).trans hadmitted) hroom
  unfold cursorPageAdmitted
  simp only [hpk, hn, hscan, ← List.map_take, List.length_map]
  change (match vs.renderList ⟨[pkIn pk (readKeys crates.parsers vs.asList pk (A.take n))], _, none, none⟩ with
    | none => _
    | some results => _) = _
  rw [hresults]

/-- A page under a hook shows the first rows admitted, and resumes behind the last of them. -/
theorem cursorPageAdmitted_serves {left : List db.Row} (hstart : PageStart vs req cursor left)
    (hreads : ∀ e back, PageEdge vs req left e back → TokenReads crates vs req cursor e)
    {where_ : List (Cond fmt db.Given)} (h : Selects vs req cursor where_ left) :
    ∃ next results, cursorPageAdmitted crates vs allows req cursor where_ = .page (vs.pageSize req) next results ∧
      Serves (shownRows vs) (Stands crates vs req cursor) (results, next) left := by
  obtain ⟨skipped, rest, hleft, hpassed, hcases, hpage⟩ :=
    cursorPageAdmitted_eq hlawful horder hhook hpk hfits hstart h
  have hpos : 0 < (vs.pageSize req).toNat := by
    have hle : 1 ≤ vs.pageSize req := pageSize_pos
    omega
  have hskippedNone : skipped.filter (admits vs) = [] :=
    List.filter_eq_nil_iff.2 fun r hr => by simp [hpassed.hides r hr]
  have hedge : ∀ front e back, rest = front ++ e :: back → admits vs e = true →
      (front ++ [e]).filter (admits vs) = (windowRows vs rest).take (vs.pageSize req).toNat →
      ((vs.pageSize req).toNat < (windowRows vs rest).length ∨ vs.viewHookScanCap < rest.length) →
      PageEdge vs req left e back := by
    rintro front e back rfl he hfront hmore
    rw [hleft]
    exact .hooked (by rw [hhook]; rfl) hpassed he hfront hmore
  generalize hA : windowRows vs rest = A at hcases hpage hedge
  rw [windowRows] at hA
  generalize hcap : vs.viewHookScanCap = cap at hcases hpage hA hedge
  generalize hn : (vs.pageSize req).toNat = n at hpos hpage hedge
  rw [hpage]
  refine ⟨_, _, rfl, ?_⟩
  by_cases hnone : A = []
  · have hend := hcases.resolve_left (fun hne => hne hnone)
    have hrest : rest.filter (admits vs) = [] := by
      rw [List.take_of_length_le hend] at hA
      rw [hA, hnone]
    constructor
    · intro _
      simp [shownRows, hleft, hskippedNone, hrest, hnone]
    · intro next hnext
      simp [hnone] at hnext
  · obtain ⟨front, e, back, htake, he, hfront, hmore⟩ := exists_cut hpos (by rw [hA]; exact hnone)
    rw [hA] at hfront hmore
    have hrest : rest = front ++ e :: (back ++ rest.drop cap) := by
      rw [← List.cons_append, ← List.append_assoc, ← htake, List.take_append_drop]
    have hbehind : cap < rest.length → rest.drop cap ≠ [] := by
      intro hlt hnil
      rw [List.drop_eq_nil_iff] at hnil
      omega
    generalize rest.drop cap = behind at hrest hbehind
    by_cases hres : n < A.length ∨ cap < rest.length
    · have hedge' : PageEdge vs req left e (back ++ behind) := hedge front e _ hrest he hfront hres
      have htokenReads := hreads e _ hedge'
      obtain ⟨token, position, hplace, hdecodes, htoken⟩ := htokenReads.hooked hhook
      have hlast : ((A.take n).map (db.json vs.model.fields)).getLast? = some (db.json vs.model.fields e) := by
        rw [← hfront]
        simp [List.filter_append, he]
      have hany : (decide (n < A.length) || decide (cap < rest.length)) = true := by simpa using hres
      rw [if_pos hany, hlast, Option.bind_some, htoken]
      constructor
      · intro hnext
        cases hnext
      · intro next hnext
        cases hnext
        have hlist : front ++ e :: (back ++ behind) <:+ inOrder vs req cursor := by
          rw [← hrest]
          exact (hleft ▸ List.suffix_append skipped rest).trans hstart.suffix
        refine ⟨skipped ++ front ++ [e], back ++ behind, ?_, by simp, ?_, hstart.next hedge', position, hdecodes, ?_⟩
        · rw [hleft, hrest]
          simp
        · rw [shownRows, List.append_assoc, List.filter_append, hskippedNone, hfront, List.nil_append]
        · exact selects_afterPlace hlawful horder hlist hplace htokenReads.fits
    · have hany : (decide (n < A.length) || decide (cap < rest.length)) = false := by
        simpa [not_or] using hres
      push Not at hres
      rw [hany]
      constructor
      · intro _
        rw [List.take_of_length_le hres.2] at hA
        simp [shownRows, hleft, hskippedNone, hA, List.take_of_length_le hres.1]
      · intro next hnext
        simp at hnext

end Hooked

theorem mem_orderBy (hpk : vs.model.primaryKey = some pk) : ∃ o ∈ vs.orderBy cursor, o.column = pk.column := by
  by_cases hcolumn : pk.column = cursor.column
  · exact ⟨⟨cursor.column, vs.desc⟩, List.mem_cons_self, hcolumn.symm⟩
  · have htie : vs.tiebreak cursor = some pk := Option.filter_eq_some_iff.2 ⟨hpk, by simpa using hcolumn⟩
    refine ⟨⟨pk.column, vs.desc⟩, ?_, rfl⟩
    rw [CursorSet.orderBy, cursorOrder, htie]
    simp

theorem handleListCursor_eq (hcursor : vs.cursor = some cursor) (hsupported : cursorFieldSupported cursor.ty = true)
    {token : Option Text} {where_ : List (Cond fmt db.Given)}
    (hwhere : match token with
      | none => where_ = req.where_
      | some token => ∃ position, Decodes crates vs cursor token position ∧ where_ = afterPlace vs req cursor position) :
    handleListCursor crates vs req token = match vs.hook with
      | some allows => cursorPageAdmitted crates vs allows req cursor where_
      | none => cursorPage crates vs req cursor where_ := by
  unfold handleListCursor
  simp only [hcursor, hsupported, Bool.not_true, Bool.false_eq_true, if_false]
  cases token with
  | none =>
    simp only at hwhere
    simp [hwhere]
  | some token =>
    obtain ⟨position, ⟨hne, hdecode⟩, heq⟩ := hwhere
    have hfilter : (some token).filter (fun c => !c.isEmpty) = some token := by
      rw [Option.filter_eq_some_iff]
      simpa using hne
    rw [hfilter]
    simp only [hdecode, Option.map_some, Option.toList_some, List.map_cons, List.map_nil, heq, afterPlace]

theorem turn_eq {token next : Option Text} {size : Int} {results : List RowJson}
    (h : handleListCursor crates vs req token = .page size next results) :
    turn crates vs req token = some (results, next) := by rw [turn, h]

/-- Following the tokens from the start shows each matching row that the hook admits once, in the order of the list:
every request succeeds, and the walk ends. -/
theorem cursor_pages_visit_once (hlawful : db.Lawful pk) (hpk : vs.model.primaryKey = some pk)
    (hcursor : vs.cursor = some cursor) (hsupported : cursorFieldSupported cursor.ty = true)
    (hbinds : db.whereBinds req.where_ ≤ db.maxBindParams)
    (hreads : ∀ left e back, PageStart vs req cursor left → PageEdge vs req left e back →
      TokenReads crates vs req cursor e)
    (hplain : vs.hook = none → vs.pageSize req < i64Max)
    (hhooked : vs.hook.isSome = true → HookFits crates vs req cursor pk) :
    follow (turn crates vs req) ((inOrder vs req cursor).length + 1) none =
      some (shownRows vs (inOrder vs req cursor)) := by
  have horder : ∃ o ∈ vs.orderBy cursor, o.column = pk.column := mem_orderBy hpk
  apply @follow_eq _ _ _ (turn crates vs req) (shownRows vs) (Stands crates vs req cursor)
  · intro a b
    simp [shownRows]
  · intro token left hstands
    obtain ⟨where_, hwhere, hstart, hselects⟩ : ∃ where_, (match token with
        | none => where_ = req.where_
        | some token => ∃ position, Decodes crates vs cursor token position ∧
            where_ = afterPlace vs req cursor position) ∧ PageStart vs req cursor left ∧
          Selects vs req cursor where_ left := by
      cases token with
      | none =>
        have hleft : left = inOrder vs req cursor := hstands
        exact ⟨req.where_, rfl, hleft ▸ .first, hleft.symm, hbinds⟩
      | some token =>
        obtain ⟨hstart, position, hdecodes, hselects⟩ := hstands
        exact ⟨_, ⟨position, hdecodes, rfl⟩, hstart, hselects⟩
    have hresponse := handleListCursor_eq hcursor hsupported hwhere
    cases hhook : vs.hook with
    | none =>
      rw [hhook] at hresponse
      obtain ⟨next, results, hpage, hserves⟩ := cursorPage_serves hlawful horder hhook (hplain hhook) hstart
        (fun e back => hreads left e back hstart) hselects
      exact ⟨(results, next), turn_eq (hresponse.trans hpage), hserves⟩
    | some allows =>
      rw [hhook] at hresponse
      obtain ⟨next, results, hpage, hserves⟩ := cursorPageAdmitted_serves hlawful horder hhook hpk
        (hhooked (by rw [hhook]; rfl)) hstart (fun e back => hreads left e back hstart) hselects
      exact ⟨(results, next), turn_eq (hresponse.trans hpage), hserves⟩
  · rfl
  · omega

end Page

/-- A JSON string, with its quotes and backslashes escaped. -/
private def quoted (s : Text) : Text :=
  '"' :: (s.flatMap fun c => if c = '"' ∨ c = '\\' then ['\\', c] else [c]) ++ ['"']

/-- A JSON string behind its first quote, and what is left. -/
private def readQuoted : Text → Option (Text × Text)
  | '"' :: rest => some ([], rest)
  | '\\' :: c :: rest => (readQuoted rest).map fun p => (c :: p.1, p.2)
  | c :: rest => (readQuoted rest).map fun p => (c :: p.1, p.2)
  | [] => none

/-- An array of two strings without spaces. -/
private def readPair (s : Text) : Option (List Text) :=
  match s with
  | '[' :: '"' :: first => (readQuoted first).bind fun a =>
    match a.2 with
    | ',' :: '"' :: second => (readQuoted second).bind fun b => if b.2 = [']'] then some [a.1, b.1] else none
    | _ => none
  | _ => none

private def slugFormats : Formats :=
  ⟨Unit, Unit, Unit, Unit, Unit, Nat, Unit, fun _ => [], fun _ => [], fun _ => [], fun _ => [], fun _ => [],
    fun _ => [], fun _ => [], quoted⟩

private theorem readQuoted_quoted (s rest : Text) :
    readQuoted ((s.flatMap fun c => if c = '"' ∨ c = '\\' then ['\\', c] else [c]) ++ '"' :: rest) = some (s, rest) := by
  induction s with
  | nil => simp [readQuoted]
  | cons c s ih =>
    rw [List.flatMap_cons, List.append_assoc]
    by_cases hescaped : c = '"' ∨ c = '\\'
    · rw [if_pos hescaped]
      simp [readQuoted, ih]
    · rw [if_neg hescaped]
      rw [not_or] at hescaped
      have hstep : ∀ rest, readQuoted (c :: rest) = (readQuoted rest).map fun p => (c :: p.1, p.2) := by
        intro rest
        rw [readQuoted]
        · exact hescaped.1
        · intro d tail h
          exact absurd h hescaped.2
      simp [hstep, ih]

private theorem readPair_pairText (a b : Text) : readPair (pairText slugFormats a b) = some [a, b] := by
  have hsecond := readQuoted_quoted b [']']
  have hfirst := readQuoted_quoted a (',' :: quoted b ++ [']'])
  simp only [pairText, slugFormats, quoted, List.cons_append, List.append_assoc, List.nil_append, readPair] at *
  rw [hfirst]
  simp only [Option.bind_some, hsecond, if_true]

private def slugCrates : TokenCrates slugFormats where
  parsers := ⟨fun _ => none, fun _ => none, fun _ => none⟩
  engine := Base64.urlSafeNoPad
  encode_nil := rfl
  strings := readPair
  strings_pair := readPair_pairText

/-- Text by its code points. -/
private def slugRank : Text → Text → Text → Ordering := fun _ => compareOn fun s => s.map Char.toNat

private def slugsBase (slugs : List Text) : Database slugFormats where
  Row := Text
  Given := Unit
  rows := slugs
  within _ _ := true
  isNull _ _ := false
  compare r column v := match v with
    | .string s => some (slugRank column r s)
    | _ => some .lt
  order := slugRank
  cell r _ := .string r
  binds _ := 0
  maxBindParams := 32766
  select _ := none
  count _ := none

private def slugsDb (slugs : List Text) : Database slugFormats := (slugsBase slugs).answering

private def slugField : FieldSchema := ⟨"slug".toList, "slug".toList, .string, true⟩

/-- Pages of one row, by the key itself. -/
private def slugs (rows : List Text) : CursorSet slugFormats (slugsDb rows) where
  model := ⟨[slugField]⟩
  hook := none
  field := "slug".toList
  desc := false
  defaultPageSize := 1
  maxPageSize := 100
  viewHookScanCap := 1000
  cap_le := by decide
  render r := [("slug".toList, .string r)]
  renderedKey name := some name

private def noFilters : CursorRequest Unit := ⟨none, []⟩

private theorem slugsDb_lawful (rows : List Text) (h : Distinct (slugRank []) rows) :
    (slugsDb rows).Lawful slugField := by
  apply answering_lawful
  · intro column
    change Std.TransCmp (compareOn fun s : Text => s.map Char.toNat)
    infer_instance
  · exact h
  · intro r _
    rfl
  · intro r column v _ _
    cases v <;> rfl

private def pairSlugs : List Text := ["[\"m\",\"n\"]".toList, "b".toList, "z".toList]

/-- The token of a bare key that is an array of two strings is read as the place of its first string: the walk
leaves out the rows up to there. -/
theorem pair_key_skips_row :
    follow (turn slugCrates (slugs pairSlugs) noFilters) 4 none =
        some [[("slug".toList, .string "[\"m\",\"n\"]".toList)], [("slug".toList, .string "z".toList)]] ∧
      shownRows (slugs pairSlugs) (inOrder (slugs pairSlugs) noFilters slugField) =
        [[("slug".toList, .string "[\"m\",\"n\"]".toList)], [("slug".toList, .string "b".toList)],
          [("slug".toList, .string "z".toList)]] ∧
      (slugsDb pairSlugs).Lawful slugField := by
  refine ⟨by decide, by decide, slugsDb_lawful _ ?_⟩
  unfold Distinct
  decide

private def plainSlugs : List Text := ["b".toList, "a".toList, "c".toList]

private theorem inOrder_plainSlugs : inOrder (slugs plainSlugs) noFilters slugField =
    (["a".toList, "b".toList, "c".toList] : List Text) := by
  change ranked (slugRank []) plainSlugs = _
  decide

private theorem inOrder_pairSlugs : inOrder (slugs pairSlugs) ⟨some 3, []⟩ slugField = pairSlugs := by
  change ranked (slugRank []) pairSlugs = _
  decide

private theorem plainSlugs_read (s : Text) (hs : s ∈ ["a".toList, "b".toList]) :
    TokenReads slugCrates (slugs plainSlugs) noFilters slugField s := by
  have hpair : ∀ s ∈ ["a".toList, "b".toList], s ≠ [] ∧ readPair s = none := by decide
  obtain ⟨hne, hnone⟩ := hpair s hs
  refine ⟨⟨⟨s, .string s, rfl, rfl, fun _ _ => rfl⟩, fun pk hpk => (by cases hpk), by decide⟩, ?_⟩
  intro _ t ht
  have heq : s = t := Option.some.inj ht
  subst heq
  refine ⟨hne, fun a b h => ?_⟩
  have hread : readPair s = some [a, b] := h
  rw [hnone] at hread
  cases hread

private theorem plain_edge {fmt : Formats} {db : Database fmt} {vs : CursorSet fmt db}
    {req : CursorRequest db.Given}
    {cursor : FieldSchema} (hhook : vs.hook = none) {left back : List db.Row} {e : db.Row}
    (hstart : PageStart vs req cursor left) (hedge : PageEdge vs req left e back) :
    ∃ front, inOrder vs req cursor = front ++ e :: back ∧ back ≠ [] ∧ (vs.pageSize req).toNat ≤ front.length + 1 := by
  obtain ⟨pre, hpre⟩ := hstart.suffix
  cases hedge with
  | plain _ size more =>
    exact ⟨pre ++ _, by rw [← hpre, List.append_assoc], more, by rw [List.length_append]; omega⟩
  | hooked hook =>
    rw [hhook] at hook
    cases hook

/-- Three pages of one row each; and on one page of three the keys that mislead make no token. -/
theorem known_cursor_pages :
    follow (turn slugCrates (slugs plainSlugs) noFilters) 4 none =
        some [[("slug".toList, .string "a".toList)], [("slug".toList, .string "b".toList)],
          [("slug".toList, .string "c".toList)]] ∧
      follow (turn slugCrates (slugs pairSlugs) ⟨some 3, []⟩) 4 none =
        some [[("slug".toList, .string "[\"m\",\"n\"]".toList)], [("slug".toList, .string "b".toList)],
          [("slug".toList, .string "z".toList)]] := by
  constructor
  · have hlawful : (slugsDb plainSlugs).Lawful slugField := by
      apply slugsDb_lawful
      unfold Distinct
      decide
    have hreads : ∀ left e back, PageStart (slugs plainSlugs) noFilters slugField left →
        PageEdge (slugs plainSlugs) noFilters left e back →
        TokenReads slugCrates (slugs plainSlugs) noFilters slugField e := by
      intro left e back hstart hedge
      obtain ⟨front, hlist, hback, -⟩ := plain_edge rfl hstart hedge
      rw [inOrder_plainSlugs] at hlist
      apply plainSlugs_read
      have hmem : e ∈ (front ++ e :: back).dropLast := by
        rw [List.dropLast_append_of_ne_nil (by simp), List.dropLast_cons_of_ne_nil hback]
        simp
      rwa [← hlist] at hmem
    have hwalk := @cursor_pages_visit_once slugFormats slugCrates (slugsDb plainSlugs) (slugs plainSlugs) noFilters
      slugField slugField hlawful rfl rfl rfl (by decide) hreads (fun _ => by decide) (fun h => by cases h)
    rw [inOrder_plainSlugs] at hwalk
    exact hwalk
  · have hlawful : (slugsDb pairSlugs).Lawful slugField := by
      apply slugsDb_lawful
      unfold Distinct
      decide
    have hreads : ∀ left e back, PageStart (slugs pairSlugs) ⟨some 3, []⟩ slugField left →
        PageEdge (slugs pairSlugs) ⟨some 3, []⟩ left e back →
        TokenReads slugCrates (slugs pairSlugs) ⟨some 3, []⟩ slugField e := by
      intro left e back hstart hedge
      obtain ⟨front, hlist, hback, hsize⟩ := plain_edge rfl hstart hedge
      have hpos := List.length_pos_of_ne_nil hback
      have hlength : 3 = front.length + (back.length + 1) := by
        rw [← List.length_cons (a := e), ← List.length_append, ← hlist, inOrder_pairSlugs]
        rfl
      rw [show ((slugs pairSlugs).pageSize ⟨some 3, []⟩).toNat = 3 by decide] at hsize
      omega
    have hwalk := @cursor_pages_visit_once slugFormats slugCrates (slugsDb pairSlugs) (slugs pairSlugs) ⟨some 3, []⟩
      slugField slugField hlawful rfl rfl rfl (by decide) hreads (fun _ => by decide) (fun h => by cases h)
    rw [inOrder_pairSlugs] at hwalk
    exact hwalk

end Rustango.Viewset.Lists
