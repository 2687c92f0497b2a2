import Rustango.Pagination.Query

/-!
# Page links

`page_number_links`, `cursor_links` and `LinkHeaderBuilder` of `pagination.rs`, and when each link keeps
the query of its base URL.
-/

namespace Rustango.Pagination

open Url

def natText (n : Nat) : Text := (toString n).toList

def intText (n : Int) : Text := (toString n).toList

def pageKey : Text := "page".toList

def pageSizeKey : Text := "page_size".toList

def cursorKey : Text := "cursor".toList

def maxPageSize : Nat := 1000

def clampSize (pageSize : Nat) : Nat := min (max pageSize 1) maxPageSize

/-- The keys that the links of a JSON body set themselves. -/
def ownKeys : List Text := [pageKey, pageSizeKey, cursorKey]

structure PageLinks where
  current : Option Text := none
  first : Option Text := none
  prev : Option Text := none
  next : Option Text := none
  last : Option Text := none

def pageParams (page pageSize : Nat) : Query := [(pageKey, natText page), (pageSizeKey, natText pageSize)]

def pageNumberUrl (base : Text) (page pageSize : Nat) : Text :=
  joinUrl (stripQuery base) (queryParams base ownKeys ++ pageParams page pageSize)

def cursorParams (cursor : Option Text) (pageSize : Nat) : Query :=
  cursor.toList.map (fun c => (cursorKey, c)) ++ [(pageSizeKey, natText pageSize)]

def cursorUrl (base : Text) (cursor : Option Text) (pageSize : Nat) : Text :=
  joinUrl (stripQuery base) (queryParams base ownKeys ++ cursorParams cursor pageSize)

def lastPage (pageSize count : Nat) : Nat := (count + pageSize - 1) / pageSize

def pageNumberLinks (base : Text) (page pageSize count : Nat) : PageLinks :=
  let page := max page 1
  let pageSize := clampSize pageSize
  let last := lastPage pageSize count
  { current := some (pageNumberUrl base page pageSize)
    first := if 0 < last then some (pageNumberUrl base 1 pageSize) else none
    last := if 0 < last then some (pageNumberUrl base last pageSize) else none
    prev := if 1 < page then some (pageNumberUrl base (page - 1) pageSize) else none
    next := if page < last then some (pageNumberUrl base (page + 1) pageSize) else none }

def cursorLinks (base : Text) (currentCursor nextCursor : Option Text) (pageSize : Nat) : PageLinks :=
  let pageSize := clampSize pageSize
  { current := currentCursor.map fun c => cursorUrl base (some c) pageSize
    first := some (cursorUrl base none pageSize)
    next := nextCursor.map fun c => cursorUrl base (some c) pageSize }

structure PageInfo where
  currentPage : Int
  totalPages : Int

/-- `extra_query` is a `BTreeMap`: one value a key, in the order of the keys. -/
structure LinkHeaderBuilder where
  baseUrl : Text
  extraQuery : Query
  rels : List (Text × Text)

namespace LinkHeaderBuilder

def new (baseUrl : Text) : LinkHeaderBuilder := ⟨baseUrl, [], []⟩

def keepParam (b : LinkHeaderBuilder) (key value : Text) : LinkHeaderBuilder :=
  { b with extraQuery := (b.extraQuery.filter (·.1 ≠ key)).orderedInsert keyOrder (key, value) }

def pageInfoRels (info : PageInfo) : List (Text × Int) :=
  if 1 < info.totalPages then
    [("first".toList, 1), ("last".toList, info.totalPages)] ++
      (if 1 < info.currentPage then [("prev".toList, info.currentPage - 1)] else []) ++
      (if info.currentPage < info.totalPages then [("next".toList, info.currentPage + 1)] else [])
  else []

def withPageInfo (b : LinkHeaderBuilder) (info : PageInfo) : LinkHeaderBuilder :=
  { b with rels := b.rels ++ (pageInfoRels info).map fun rel => (rel.1, intText rel.2) }

def rel (b : LinkHeaderBuilder) (rel : Text) (page : Int) : LinkHeaderBuilder :=
  { b with rels := b.rels ++ [(rel, intText page)] }

def cursorMark : Text := "cursor:".toList

def cursorRel (b : LinkHeaderBuilder) (rel cursor : Text) : LinkHeaderBuilder :=
  { b with rels := b.rels ++ [(cursorMark ++ rel, cursor)] }

/-- The parameter that a rel sets and the rel's name in the header. -/
def paramKey (rel : Text) : Text × Text :=
  match rel.dropPrefix? cursorMark with
  | some stripped => (cursorKey, stripped)
  | none => (pageKey, rel)

def keptParams (b : LinkHeaderBuilder) (key : Text) : Query := b.extraQuery.filter (·.1 ≠ key)

def url (b : LinkHeaderBuilder) (rel value : Text) : Text :=
  let key := (paramKey rel).1
  let query := (queryParams b.baseUrl [pageKey, cursorKey]).filter fun pair => pair.1 ∉ b.extraQuery.map Prod.fst
  joinUrl (stripQuery b.baseUrl) (query ++ b.keptParams key ++ [(key, value)])

def build (b : LinkHeaderBuilder) : Text :=
  ", ".toList.intercalate (b.rels.map fun rel =>
    '<' :: b.url rel.1 rel.2 ++ ">; rel=\"".toList ++ (paramKey rel.1).2 ++ ['"'])

end LinkHeaderBuilder

/-- The links of a JSON body keep the query beside the page they are for. -/
structure PageNumberLinksKeep (base : Text) (page pageSize count : Nat) : Prop where
  current : ∀ link ∈ (pageNumberLinks base page pageSize count).current,
    KeepsParams base link ownKeys (pageParams (max page 1) (clampSize pageSize))
  first : ∀ link ∈ (pageNumberLinks base page pageSize count).first,
    KeepsParams base link ownKeys (pageParams 1 (clampSize pageSize))
  last : ∀ link ∈ (pageNumberLinks base page pageSize count).last,
    KeepsParams base link ownKeys (pageParams (lastPage (clampSize pageSize) count) (clampSize pageSize))
  prev : ∀ link ∈ (pageNumberLinks base page pageSize count).prev,
    KeepsParams base link ownKeys (pageParams (max page 1 - 1) (clampSize pageSize))
  next : ∀ link ∈ (pageNumberLinks base page pageSize count).next,
    KeepsParams base link ownKeys (pageParams (max page 1 + 1) (clampSize pageSize))

structure CursorLinksKeep (base : Text) (currentCursor nextCursor : Option Text) (pageSize : Nat) : Prop where
  current : ∀ link ∈ (cursorLinks base currentCursor nextCursor pageSize).current,
    KeepsParams base link ownKeys (cursorParams currentCursor (clampSize pageSize))
  first : ∀ link ∈ (cursorLinks base currentCursor nextCursor pageSize).first,
    KeepsParams base link ownKeys (cursorParams none (clampSize pageSize))
  next : ∀ link ∈ (cursorLinks base currentCursor nextCursor pageSize).next,
    KeepsParams base link ownKeys (cursorParams nextCursor (clampSize pageSize))

/-- What a link of the header was asked for. -/
inductive Ask
  | page (n : Int)
  | cursor (c : Text)

def Ask.param : Ask → Text × Text
  | page n => (pageKey, intText n)
  | cursor c => (cursorKey, c)

/-- A call of the builder. -/
inductive Call
  | keepParam (key value : Text)
  | withPageInfo (info : PageInfo)
  | rel (rel : Text) (page : Int)
  | cursorRel (rel cursor : Text)

namespace Call

def apply (b : LinkHeaderBuilder) : Call → LinkHeaderBuilder
  | keepParam key value => b.keepParam key value
  | withPageInfo info => b.withPageInfo info
  | rel r page => b.rel r page
  | cursorRel r cursor => b.cursorRel r cursor

/-- The links that a call asks for, each under the rel it was given. -/
def asked : Call → List (Text × Ask)
  | keepParam _ _ => []
  | withPageInfo info => (LinkHeaderBuilder.pageInfoRels info).map fun r => (r.1, .page r.2)
  | rel r page => [(r, .page page)]
  | cursorRel r cursor => [(r, .cursor cursor)]

end Call

namespace LinkHeaderBuilder

def run (base : Text) (calls : List Call) : LinkHeaderBuilder := calls.foldl Call.apply (new base)

/-- The entry of `rels` that a link asked for becomes. -/
def stored (entry : Text × Ask) : Text × Text :=
  match entry.2 with
  | .page n => (entry.1, intText n)
  | .cursor c => (cursorMark ++ entry.1, c)

/-- The keys that the links of the header set themselves. -/
def headerKeys (b : LinkHeaderBuilder) : List Text := [pageKey, cursorKey] ++ b.extraQuery.map Prod.fst

/-- The link asked for keeps the query, and has the kept params beside its own. -/
def LinkKeeps (b : LinkHeaderBuilder) (entry : Text × Ask) : Prop :=
  KeepsParams b.baseUrl (b.url (stored entry).1 (stored entry).2) b.headerKeys
    (b.keptParams entry.2.param.1 ++ [entry.2.param])

/-- The rel of a page begins as those of the cursors do, so that the page is written as a cursor. -/
def isMisread (entry : Text × Ask) : Bool :=
  match entry.2 with
  | .page _ => (entry.1.dropPrefix? cursorMark).isSome
  | .cursor _ => false

/-- Where a page is written as a cursor, the kept params are the page and that cursor. -/
def ReadRight (b : LinkHeaderBuilder) (entry : Text × Ask) : Prop :=
  isMisread entry = true → pairsUnder pageKey b.extraQuery = [(pageKey, entry.2.param.2)] ∧
    pairsUnder cursorKey b.extraQuery = [(cursorKey, entry.2.param.2)]

theorem rels_run (base : Text) (calls : List Call) :
    (run base calls).rels = (calls.flatMap Call.asked).map stored := by
  have hall : ∀ b : LinkHeaderBuilder, (calls.foldl Call.apply b).rels =
      b.rels ++ (calls.flatMap Call.asked).map stored := by
    induction calls with
    | nil => simp
    | cons call calls ih =>
      intro b
      rw [List.foldl_cons, ih, List.flatMap_cons, List.map_append, ← List.append_assoc]
      congr 1
      cases call with
      | keepParam => simp [Call.apply, Call.asked, keepParam]
      | withPageInfo => simp [Call.apply, Call.asked, withPageInfo, stored]
      | rel => simp [Call.apply, Call.asked, rel, stored]
      | cursorRel => simp [Call.apply, Call.asked, cursorRel, stored]
  exact hall (new base)

theorem baseUrl_run (base : Text) (calls : List Call) : (run base calls).baseUrl = base := by
  have hall : ∀ b : LinkHeaderBuilder, (calls.foldl Call.apply b).baseUrl = b.baseUrl := by
    induction calls with
    | nil => exact fun _ => rfl
    | cons call calls ih =>
      intro b
      rw [List.foldl_cons, ih]
      cases call <;> rfl
  exact hall (new base)

theorem url_eq (b : LinkHeaderBuilder) (rel value : Text) :
    b.url rel value = joinUrl (stripQuery b.baseUrl) (queryParams b.baseUrl b.headerKeys ++
      (b.keptParams (paramKey rel).1 ++ [((paramKey rel).1, value)])) := by
  have hdropped : (queryParams b.baseUrl [pageKey, cursorKey]).filter
      (fun pair => pair.1 ∉ b.extraQuery.map Prod.fst) = queryParams b.baseUrl b.headerKeys := by
    rw [queryParams_eq, queryParams_eq b.baseUrl b.headerKeys, List.filter_filter]
    apply List.filter_congr
    intro pair _
    simp only [headerKeys, List.mem_append]
    by_cases hown : pair.1 ∈ [pageKey, cursorKey] <;> simp [hown]
  simp only [url, hdropped, List.append_assoc]

theorem nothing_not_mem (b : LinkHeaderBuilder) (key value : Text) (hkey : key ≠ []) :
    ([], []) ∉ b.keptParams key ++ [(key, value)] ↔ ([], []) ∉ b.extraQuery := by
  simp only [keptParams, List.mem_append, List.mem_filter, List.mem_singleton, not_or, Prod.mk.injEq]
  constructor
  · intro h hmem
    exact h.1 ⟨hmem, by simpa using Ne.symm hkey⟩
  · intro h
    exact ⟨fun hmem => h hmem.1, fun heq => hkey heq.1.symm⟩

theorem pairsUnder_keptParams (b : LinkHeaderBuilder) (key own : Text) :
    pairsUnder key (b.keptParams own) = if key = own then [] else pairsUnder key b.extraQuery := by
  unfold keptParams pairsUnder
  rw [List.filter_filter]
  split
  · rename_i h
    apply List.filter_eq_nil_iff.2
    intro pair _
    simp [h]
  · rename_i h
    apply List.filter_congr
    intro pair _
    by_cases hkey : pair.1 = key
    · simp [hkey, h]
    · simp [hkey]

theorem paramKey_cursor (rel : Text) : (paramKey (cursorMark ++ rel)).1 = cursorKey := by
  have hdrop : (cursorMark ++ rel).dropPrefix? cursorMark = some rel :=
    List.dropPrefix?_eq_some_iff.2 ⟨cursorMark, rfl, by simp⟩
  unfold paramKey
  rw [hdrop]

theorem paramKey_stored (entry : Text × Ask) :
    (paramKey (stored entry).1).1 = if isMisread entry then cursorKey else entry.2.param.1 := by
  obtain ⟨rel, ask⟩ := entry
  cases ask with
  | cursor c =>
    simp only [stored, isMisread, Ask.param]
    exact paramKey_cursor rel
  | page n =>
    simp only [stored, isMisread, Ask.param, paramKey]
    split <;> rename_i hdrop <;> simp [hdrop]

theorem stored_value (entry : Text × Ask) : (stored entry).2 = entry.2.param.2 := by
  obtain ⟨rel, ask⟩ := entry
  cases ask <;> rfl

/-- When a link of the header keeps the query. -/
theorem linkKeeps_iff (b : LinkHeaderBuilder) (entry : Text × Ask) :
    b.LinkKeeps entry ↔ Survives b.baseUrl b.headerKeys ∧ ([], []) ∉ b.extraQuery ∧ b.ReadRight entry := by
  have hkey : entry.2.param.1 ≠ [] := by
    cases entry.2 <;> simp [Ask.param, pageKey, cursorKey]
  unfold LinkKeeps
  rw [url_eq, paramKey_stored, stored_value]
  cases hmisread : isMisread entry with
  | false =>
    rw [if_neg Bool.false_ne_true, keepsParams_iff, nothing_not_mem b _ _ hkey]
    simp [ReadRight, hmisread]
  | true =>
    have hpage : entry.2.param.1 = pageKey := by
      obtain ⟨rel, ask⟩ := entry
      cases ask with
      | page n => rfl
      | cursor c => cases hmisread
    have hne : pageKey ≠ cursorKey := by decide
    have hunder : ∀ key own : Text, pairsUnder key (b.keptParams own ++ [(own, entry.2.param.2)]) =
        if key = own then [(own, entry.2.param.2)] else pairsUnder key b.extraQuery := by
      intro key own
      rw [pairsUnder_append, pairsUnder_keptParams]
      by_cases h : key = own
      · simp [h, pairsUnder]
      · have hno : ¬ own = key := fun heq => h heq.symm
        simp [h, hno, pairsUnder]
    have hparam : entry.2.param = (pageKey, entry.2.param.2) := Prod.ext hpage rfl
    rw [if_pos rfl, hpage, hparam, keepsParams_other_iff, nothing_not_mem b pageKey _ (by decide)]
    · refine and_congr_right fun _ => and_congr_right fun _ => ?_
      simp only [ReadRight, hmisread, true_implies, hunder]
      constructor
      · intro h
        have hcursor := h cursorKey
        have hpages := h pageKey
        rw [if_pos rfl, if_neg hne.symm] at hcursor
        rw [if_pos rfl, if_neg hne] at hpages
        exact ⟨hpages, hcursor.symm⟩
      · intro h key
        by_cases hc : key = cursorKey
        · rw [hc, if_pos rfl, if_neg hne.symm]
          exact h.2.symm
        · by_cases hp : key = pageKey
          · rw [hp, if_pos rfl, if_neg hne]
            exact h.1
          · rw [if_neg hc, if_neg hp]
    · intro key hdropped
      simp only [headerKeys, List.cons_append, List.mem_cons, not_or] at hdropped
      rw [hunder, hunder, if_neg hdropped.1, if_neg hdropped.2.1]
    · rw [hunder, hunder, if_neg (by decide), if_neg (by decide)]

end LinkHeaderBuilder

private theorem something_pageParams (page pageSize : Nat) : ([], []) ∉ pageParams page pageSize := by
  have hpage : [] ≠ pageKey := by decide
  have hsize : [] ≠ pageSizeKey := by decide
  simp [pageParams, hpage, hsize]

private theorem something_cursorParams (cursor : Option Text) (pageSize : Nat) :
    ([], []) ∉ cursorParams cursor pageSize := by
  have hcursor : [] ≠ cursorKey := by decide
  have hsize : [] ≠ pageSizeKey := by decide
  cases cursor <;> simp [cursorParams, hcursor, hsize]

private theorem pageNumberUrl_keeps (base : Text) (page pageSize : Nat) :
    KeepsParams base (pageNumberUrl base page pageSize) ownKeys (pageParams page pageSize) ↔
      Survives base ownKeys := by
  rw [pageNumberUrl, keepsParams_iff]
  exact and_iff_left (something_pageParams page pageSize)

private theorem cursorUrl_keeps (base : Text) (cursor : Option Text) (pageSize : Nat) :
    KeepsParams base (cursorUrl base cursor pageSize) ownKeys (cursorParams cursor pageSize) ↔
      Survives base ownKeys := by
  rw [cursorUrl, keepsParams_iff]
  exact and_iff_left (something_cursorParams cursor pageSize)

private theorem pageNumberLinks_keep_iff (base : Text) (page pageSize count : Nat) :
    PageNumberLinksKeep base page pageSize count ↔ Survives base ownKeys := by
  constructor
  · intro h
    exact (pageNumberUrl_keeps base _ _).1 (h.current _ rfl)
  · intro h
    have hurl := fun page => (pageNumberUrl_keeps base page (clampSize pageSize)).2 h
    constructor <;> intro link hlink <;> simp only [pageNumberLinks, Option.mem_def] at hlink
    · rw [← Option.some.inj hlink]
      exact hurl _
    all_goals
      split at hlink
      · rw [← Option.some.inj hlink]
        exact hurl _
      · cases hlink

private theorem cursorLinks_keep_iff (base : Text) (currentCursor nextCursor : Option Text) (pageSize : Nat) :
    CursorLinksKeep base currentCursor nextCursor pageSize ↔ Survives base ownKeys := by
  constructor
  · intro h
    exact (cursorUrl_keeps base none _).1 (h.first _ rfl)
  · intro h
    have hurl := fun cursor => (cursorUrl_keeps base cursor (clampSize pageSize)).2 h
    constructor <;> intro link hlink <;> simp only [cursorLinks, Option.mem_def] at hlink
    · cases currentCursor with
      | none => cases hlink
      | some c =>
        rw [← Option.some.inj hlink]
        exact hurl _
    · rw [← Option.some.inj hlink]
      exact hurl _
    · cases nextCursor with
      | none => cases hlink
      | some c =>
        rw [← Option.some.inj hlink]
        exact hurl _

/-- When the links of the three entry points keep the query of their base URL. -/
theorem links_keep_query_iff (base : Text) (page pageSize count : Nat) (currentCursor nextCursor : Option Text)
    (calls : List Call) :
    (PageNumberLinksKeep base page pageSize count ↔ Survives base ownKeys) ∧
    (CursorLinksKeep base currentCursor nextCursor pageSize ↔ Survives base ownKeys) ∧
    (LinkHeaderBuilder.run base calls).rels = (calls.flatMap Call.asked).map LinkHeaderBuilder.stored ∧
    ∀ entry, (LinkHeaderBuilder.run base calls).LinkKeeps entry ↔
      Survives base (LinkHeaderBuilder.run base calls).headerKeys ∧
        ([], []) ∉ (LinkHeaderBuilder.run base calls).extraQuery ∧
        (LinkHeaderBuilder.run base calls).ReadRight entry := by
  refine ⟨pageNumberLinks_keep_iff base page pageSize count,
    cursorLinks_keep_iff base currentCursor nextCursor pageSize, LinkHeaderBuilder.rels_run base calls, ?_⟩
  intro entry
  have hlink := (LinkHeaderBuilder.run base calls).linkKeeps_iff entry
  rw [LinkHeaderBuilder.baseUrl_run] at hlink
  exact hlink

/-- A second `?` ends the query: the parameter behind it is on no link. -/
theorem links_lose_query : ¬ ∀ (base : Text) (page pageSize count : Nat),
    PageNumberLinksKeep base page pageSize count := by
  intro h
  have hkeeps := (h "/p?q=a?b&r=1".toList 1 10 5).current _ rfl "r".toList
  revert hkeeps
  decide

end Rustango.Pagination
