import Rustango.Viewset.ListData

/-!
# Lists under a view hook

`run_list` and `render_admitted` of `viewset/mod.rs` with `view_hook_rows` and `fold` of
`object_permissions/scope.rs`: page-number and limit/offset lists.
-/

namespace Rustango.Viewset.Lists

open Rustango.Ranked
open Rustango.Url (Text)

/-- The rows a "view" hook admits, as a filter SQL can apply. -/
inductive ViewHookRows (C : Type)
  | all
  | only (c : C)
  | tooMany

/-- The conditions that they add, unless they are too many. -/
def ViewHookRows.conds {C : Type} : ViewHookRows C → Option (List C)
  | .all => some []
  | .only c => some [c]
  | .tooMany => none

inductive PaginationStyle
  | pageNumber
  | limitOffset
deriving DecidableEq

def maxViewHookScanCap : Nat := 100000

structure ViewSet (fmt : Formats) (db : Database fmt) where
  model : ModelSchema
  /-- What the "view" hook says of a row, for this request. -/
  hook : Option (RowJson → Bool)
  pagination : PaginationStyle
  defaultPageSize : Nat
  maxPageSize : Nat
  maxOffset : Nat
  count : Bool
  viewHookScanCap : Nat
  cap_le : 1 ≤ viewHookScanCap ∧ viewHookScanCap ≤ maxViewHookScanCap
  render : db.Row → RowJson

/-- A list request: its paging parameters, the filters, scopes and search that it runs under, how many values its
`__in` lists hold, and the order it asks for. -/
structure ListRequest (S : Type) where
  params : Text → Option Text
  filters : List S
  inValues : Nat
  order : List OrderItem

inductive ListResponse
  | badRequest
  | serverError
  | pageNumber (count : Option Int) (page pageSize : Int) (lastPage : Option Int) (results : List RowJson)
  | limitOffset (count : Option Int) (limit offset : Int) (results : List RowJson)
deriving DecidableEq

def i64Max : Int := 2 ^ 63 - 1

/-- `n as i64` of a `usize` -/
def castI64 (n : Nat) : Int := Int.bmod n (2 ^ 64)

def pageOffset (page pageSize : Int) : Int := min ((max page 1 - 1) * max pageSize 0) i64Max

/-- `max = 0` lifts the cap. -/
def offsetTooDeep (offset : Int) (max : Nat) : Bool := decide (0 < max) && decide (min (max : Int) i64Max < offset)

def reservedBinds : Nat := 1000

def inValuesBudget (maxBindParams : Nat) : Nat := maxBindParams - reservedBinds

section Fold
variable {fmt : Formats} {S : Type}

/-- The admitted and denied keys as one filter: the shorter list, or `tooMany` when it would not fit `binds`. -/
def fold (pk : FieldSchema) (admitted denied : List (SqlValue fmt)) (binds : Nat) : ViewHookRows (Cond fmt S) :=
  if binds < min denied.length admitted.length then .tooMany
  else if denied.isEmpty then .all
  -- A primary key is never `NULL`: no row.
  else if admitted.isEmpty then .only (.isNull pk.column true)
  else if denied.length ≤ admitted.length then .only (.notIn pk.column denied)
  else .only (.isIn pk.column admitted)

def matchNothing (pk : FieldSchema) : Cond fmt S := .and (.isNull pk.column true) (.isNull pk.column false)

/-- `pk IN (pks)`, or no row when `pks` is empty: SQL has no `IN ()`. -/
def pkIn (pk : FieldSchema) (pks : List (SqlValue fmt)) : Cond fmt S :=
  if pks.isEmpty then matchNothing pk else .isIn pk.column pks

end Fold

section Lists
variable {fmt : Formats} (parsers : Parsers fmt)

/-- The keys of the rows that a hook admits and of those that it denies; none where a key does not read back. -/
def splitKeys (pk : FieldSchema) (allows : RowJson → Bool) :
    List RowJson → Option (List (SqlValue fmt) × List (SqlValue fmt))
  | [] => some ([], [])
  | row :: rows => (rowPk parsers row pk).bind fun v => (splitKeys pk allows rows).map fun keys =>
      if allows row then (v :: keys.1, keys.2) else (keys.1, v :: keys.2)

variable {db : Database fmt} (vs : ViewSet fmt db)

/-- `None` is a database error. -/
def viewHookRows (allows : RowJson → Bool) (filters : List (Cond fmt db.Given)) (binds : Nat) :
    Option (ViewHookRows (Cond fmt db.Given)) :=
  match vs.model.primaryKey with
  | none => some .tooMany
  | some pk =>
    (db.select ⟨filters, [], some (min (min vs.viewHookScanCap i64Max.toNat + 1) i64Max.toNat), none⟩).map fun rows =>
      if vs.viewHookScanCap < rows.length then .tooMany
      else match splitKeys parsers pk allows (rows.map (db.json vs.model.fields)) with
        | none => .tooMany
        | some keys => fold pk keys.1 keys.2 binds

def renderList (q : SelectQuery fmt db.Given) : Option (List RowJson) := (db.select q).map fun rows => rows.map vs.render

/-- The page `window` selects, with the rows the "view" hook denies left out: a row may have changed since the
scan. -/
def renderAdmitted (allows : RowJson → Bool) (window : SelectQuery fmt db.Given) : Option (List RowJson) :=
  match vs.model.primaryKey with
  | none => some []
  | some pk => (db.select window).bind fun rows =>
      let admitted := ((rows.map (db.json vs.model.fields)).filter allows).filterMap fun row => rowPk parsers row pk
      renderList vs ⟨[pkIn pk admitted], window.orderBy, none, none⟩

namespace ListRequest
variable (req : ListRequest db.Given)

def number (key : Text) : Option Int := (req.params key).bind (parseInt 64)

def pageSize : Int :=
  max (min ((req.number "page_size".toList).getD (castI64 vs.defaultPageSize)) (castI64 vs.maxPageSize)) 1

def page : Int := max ((req.number "page".toList).getD 1) 1

def limit : Int := max (min ((req.number "limit".toList).getD (req.pageSize vs)) (castI64 vs.maxPageSize)) 1

/-- The rows that the page skips. -/
def offset : Int :=
  match vs.pagination with
  | .pageNumber => pageOffset req.page (req.pageSize vs)
  | .limitOffset => max ((req.number "offset".toList).getD 0) 0

/-- The rows that the page holds at most. -/
def size : Int :=
  match vs.pagination with
  | .pageNumber => req.pageSize vs
  | .limitOffset => req.limit vs

def where_ : List (Cond fmt db.Given) := req.filters.map .given

end ListRequest

/-- The filters and what the hook adds to them, or the response that ends the list. -/
def narrowed (req : ListRequest db.Given) : Except ListResponse (List (Cond fmt db.Given)) :=
  match vs.hook with
  | none => .ok req.where_
  | some allows =>
    match viewHookRows parsers vs allows req.where_ (inValuesBudget db.maxBindParams - req.inValues) with
    | none => .error .serverError
    | some .all => .ok req.where_
    | some (.only c) => .ok (req.where_ ++ [c])
    | some .tooMany => .error .badRequest

/-- The body of a list: the page and its totals. -/
def listBody (req : ListRequest db.Given) (count : Option Int) (results : List RowJson) : ListResponse :=
  match vs.pagination with
  | .pageNumber => .pageNumber count req.page (req.pageSize vs)
      (count.map fun n => max (n - 1) 0 / req.pageSize vs + 1) results
  | .limitOffset => .limitOffset count (req.limit vs) (req.offset vs) results

/-- The page that `where_` selects, and its totals. -/
def listPage (req : ListRequest db.Given) (where_ : List (Cond fmt db.Given)) : ListResponse :=
  if offsetTooDeep (req.offset vs) vs.maxOffset then .badRequest
  else
    let window : SelectQuery fmt db.Given :=
      ⟨where_, vs.model.withPkTiebreak req.order, some (req.size vs).toNat, some (req.offset vs).toNat⟩
    let results := match vs.hook with
      | some allows => renderAdmitted parsers vs allows window
      | none => renderList vs window
    match results with
    | none => .serverError
    | some results =>
      if vs.count then
        match db.count where_ with
        | none => .serverError
        | some count => listBody vs req (some count) results
      else listBody vs req none results

def runList (req : ListRequest db.Given) : ListResponse :=
  if inValuesBudget db.maxBindParams < req.inValues then .badRequest
  else match narrowed parsers vs req with
  | .error response => response
  | .ok where_ => listPage parsers vs req where_

variable {vs} {parsers}

/-- The rows that match the filters and that the hook admits, in the order asked for. -/
def shown (vs : ViewSet fmt db) (allows : RowJson → Bool) (req : ListRequest db.Given) : List db.Row :=
  ranked (db.orderOf (vs.model.withPkTiebreak req.order))
    ((db.matching req.where_).filter fun r => allows (db.json vs.model.fields r))

/-- The slice of them that is asked for. -/
def shownPage (vs : ViewSet fmt db) (allows : RowJson → Bool) (req : ListRequest db.Given) : List db.Row :=
  slice (some (req.size vs).toNat) (some (req.offset vs).toNat) (shown vs allows req)

/-- The list of the rows shown alone. -/
def shownBody (vs : ViewSet fmt db) (allows : RowJson → Bool) (req : ListRequest db.Given) : ListResponse :=
  listBody vs req (if vs.count then some ((shown vs allows req).length : Int) else none)
    ((shownPage vs allows req).map vs.render)

def admittedRows (vs : ViewSet fmt db) (allows : RowJson → Bool) (req : ListRequest db.Given) : List db.Row :=
  (db.matching req.where_).filter fun r => allows (db.json vs.model.fields r)

def deniedRows (vs : ViewSet fmt db) (allows : RowJson → Bool) (req : ListRequest db.Given) : List db.Row :=
  (db.matching req.where_).filter fun r => !allows (db.json vs.model.fields r)

/-- The rows whose keys the filter of the hook writes out. -/
def listed (vs : ViewSet fmt db) (allows : RowJson → Bool) (req : ListRequest db.Given) : List db.Row :=
  if (deniedRows vs allows req).length ≤ (admittedRows vs allows req).length then deniedRows vs allows req
  else admittedRows vs allows req

/-- The list is refused: too many values, no primary key, too many rows, a key that does not read back, a filter
over the bind budget, or too deep a page. -/
def Refused (parsers : Parsers fmt) (vs : ViewSet fmt db) (allows : RowJson → Bool) (req : ListRequest db.Given) :
    Prop :=
  inValuesBudget db.maxBindParams < req.inValues ∨ vs.model.primaryKey = none ∨
    vs.viewHookScanCap < (db.matching req.where_).length ∨
    (∃ pk ∈ vs.model.primaryKey, ∃ r ∈ db.matching req.where_,
      (rowPk parsers (db.json vs.model.fields r) pk).isNone = true) ∨
    inValuesBudget db.maxBindParams - req.inValues < (listed vs allows req).length ∨
    offsetTooDeep (req.offset vs) vs.maxOffset = true

/-- A row's key, read back, names that row and no other. -/
def NamesItself (parsers : Parsers fmt) (vs : ViewSet fmt db) (r : db.Row) : Prop :=
  ∀ pk ∈ vs.model.primaryKey, ∀ v ∈ rowPk parsers (db.json vs.model.fields r) pk, ∀ r' ∈ db.rows,
    db.equals r' pk.column v = true ↔ r' = r

/-- The keys that the list writes out name their rows, and fit the statements that bind them. -/
structure KeysFit (parsers : Parsers fmt) (vs : ViewSet fmt db) (allows : RowJson → Bool)
    (req : ListRequest db.Given) : Prop where
  listed : ∀ r ∈ listed vs allows req, NamesItself parsers vs r
  page : ∀ r ∈ shownPage vs allows req, NamesItself parsers vs r
  listedFits : db.whereBinds req.where_ + (Lists.listed vs allows req).length ≤ db.maxBindParams
  pageFits : (shownPage vs allows req).length ≤ db.maxBindParams

end Lists

section Keys
variable {fmt : Formats} {parsers : Parsers fmt} {pk : FieldSchema} {allows : RowJson → Bool}

theorem splitKeys_eq_none {rows : List RowJson} :
    splitKeys parsers pk allows rows = none ↔ ∃ row ∈ rows, (rowPk parsers row pk).isNone = true := by
  induction rows with
  | nil => simp [splitKeys]
  | cons row rows ih =>
    rw [splitKeys]
    cases hrow : rowPk parsers row pk with
    | none => simp [hrow]
    | some v => simp [hrow, ih]

theorem splitKeys_eq_some {rows : List RowJson} {keys : List (SqlValue fmt) × List (SqlValue fmt)}
    (h : splitKeys parsers pk allows rows = some keys) :
    keys.1 = (rows.filter allows).filterMap (fun row => rowPk parsers row pk) ∧
      keys.2 = (rows.filter fun row => !allows row).filterMap (fun row => rowPk parsers row pk) := by
  induction rows generalizing keys with
  | nil =>
    cases h
    exact ⟨rfl, rfl⟩
  | cons row rows ih =>
    rw [splitKeys] at h
    obtain ⟨v, hrow, hrest⟩ := Option.bind_eq_some_iff.1 h
    obtain ⟨rest, hsplit, hkeys⟩ := Option.map_eq_some_iff.1 hrest
    obtain ⟨hadmitted, hdenied⟩ := ih hsplit
    subst hkeys
    cases hallows : allows row <;> simp [hallows, hrow, hadmitted, hdenied]

variable {db : Database fmt} {vs : ViewSet fmt db}

/-- The keys of rows, as they read back. -/
def readKeys (parsers : Parsers fmt) (vs : ViewSet fmt db) (pk : FieldSchema) (rows : List db.Row) :
    List (SqlValue fmt) :=
  (rows.map (db.json vs.model.fields)).filterMap fun row => rowPk parsers row pk

def Readable (parsers : Parsers fmt) (vs : ViewSet fmt db) (pk : FieldSchema) (rows : List db.Row) : Prop :=
  ∀ r ∈ rows, (rowPk parsers (db.json vs.model.fields r) pk).isSome = true

theorem length_readKeys {rows : List db.Row} (h : Readable parsers vs pk rows) :
    (readKeys parsers vs pk rows).length = rows.length := by
  simpa [readKeys] using fun r hr => h r hr

theorem isEmpty_readKeys {rows : List db.Row} (h : Readable parsers vs pk rows) :
    (readKeys parsers vs pk rows).isEmpty = rows.isEmpty := by
  have hlength := length_readKeys h
  cases hrows : rows with
  | nil => rfl
  | cons r rest =>
    rw [hrows] at hlength
    cases hkeys : readKeys parsers vs pk (r :: rest) with
    | nil => simp [hkeys] at hlength
    | cons v keys => rfl

end Keys

section Conditions
variable {fmt : Formats} {parsers : Parsers fmt} {db : Database fmt} {vs : ViewSet fmt db} {pk : FieldSchema}
  {rows : List db.Row} {r : db.Row}

theorem equals_readKeys_iff (hpk : vs.model.primaryKey = some pk) (hread : Readable parsers vs pk rows)
    (hnames : ∀ r ∈ rows, NamesItself parsers vs r) (hr : r ∈ db.rows) :
    (∃ v ∈ readKeys parsers vs pk rows, db.equals r pk.column v = true) ↔ r ∈ rows := by
  simp only [readKeys, List.mem_filterMap, List.mem_map]
  constructor
  · intro h
    obtain ⟨v, ⟨row, ⟨s, hs, hrow⟩, hv⟩, heq⟩ := h
    rw [← hrow] at hv
    rw [(hnames s hs pk hpk v hv r hr).1 heq]
    exact hs
  · intro hmem
    obtain ⟨v, hv⟩ := Option.isSome_iff_exists.1 (hread r hmem)
    exact ⟨v, ⟨_, ⟨r, hmem, rfl⟩, hv⟩, (hnames r hmem pk hpk v hv r hr).2 rfl⟩

theorem holds_isIn (hpk : vs.model.primaryKey = some pk) (hread : Readable parsers vs pk rows)
    (hnames : ∀ r ∈ rows, NamesItself parsers vs r) (hr : r ∈ db.rows) :
    db.holds r (.isIn pk.column (readKeys parsers vs pk rows)) = true ↔ r ∈ rows := by
  rw [← equals_readKeys_iff hpk hread hnames hr, Database.holds, List.any_eq_true]

theorem holds_notIn (hlawful : db.Lawful pk) (hpk : vs.model.primaryKey = some pk)
    (hread : Readable parsers vs pk rows) (hnames : ∀ r ∈ rows, NamesItself parsers vs r) (hr : r ∈ db.rows) :
    db.holds r (.notIn pk.column (readKeys parsers vs pk rows)) = true ↔ r ∉ rows := by
  rw [← equals_readKeys_iff hpk hread hnames hr, Database.holds, List.all_eq_true]
  push Not
  apply forall₂_congr
  intro v hv
  obtain ⟨row, -, hrow⟩ := List.mem_filterMap.1 hv
  have hsome := hlawful.compares r pk.column v (hlawful.pkNotNull r hr) (rowPk_not_null hrow)
  obtain ⟨o, ho⟩ := Option.isSome_iff_exists.1 hsome
  simp [Database.equals, ho]

theorem holds_pkIn (hpk : vs.model.primaryKey = some pk) (hread : Readable parsers vs pk rows)
    (hnames : ∀ r ∈ rows, NamesItself parsers vs r) (hr : r ∈ db.rows) :
    db.holds r (pkIn pk (readKeys parsers vs pk rows)) = true ↔ r ∈ rows := by
  unfold pkIn
  split
  · rename_i hempty
    rw [isEmpty_readKeys hread, List.isEmpty_iff] at hempty
    cases hnull : db.isNull r pk.column <;> simp [matchNothing, Database.holds, hempty, hnull]
  · exact holds_isIn hpk hread hnames hr

/-- What the folded keys add to a query admits the admitted rows alone. -/
theorem fold_spec (hlawful : db.Lawful pk) (hpk : vs.model.primaryKey = some pk) {admitted denied : List db.Row}
    (hadmitted : Readable parsers vs pk admitted) (hdenied : Readable parsers vs pk denied)
    (hdisjoint : ∀ r ∈ admitted, r ∉ denied)
    (hnames : ∀ r ∈ if denied.length ≤ admitted.length then denied else admitted, NamesItself parsers vs r)
    (binds : Nat) (hbinds : min denied.length admitted.length ≤ binds) :
    ∃ extra : List (Cond fmt db.Given),
      (fold pk (readKeys parsers vs pk admitted) (readKeys parsers vs pk denied) binds).conds = some extra ∧
        db.whereBinds extra = min denied.length admitted.length ∧
        ∀ r ∈ db.rows, r ∈ admitted ∨ r ∈ denied → ((∀ c ∈ extra, db.holds r c = true) ↔ r ∈ admitted) := by
  unfold fold
  rw [length_readKeys hadmitted, length_readKeys hdenied, isEmpty_readKeys hadmitted, isEmpty_readKeys hdenied,
    if_neg (by omega)]
  have hside : ∀ r, r ∈ admitted ∨ r ∈ denied → (r ∉ denied ↔ r ∈ admitted) := by
    intro r hr
    constructor
    · exact fun hnot => hr.resolve_right hnot
    · exact hdisjoint r
  split
  · rename_i hempty
    rw [List.isEmpty_iff] at hempty
    subst hempty
    exact ⟨[], rfl, by simp [Database.whereBinds], by simp⟩
  · split
    · rename_i hempty
      rw [List.isEmpty_iff] at hempty
      subst hempty
      refine ⟨[_], rfl, by simp [Database.whereBinds, Database.condBinds], ?_⟩
      intro r hr _
      simp [Database.holds, hlawful.pkNotNull r hr]
    · by_cases hshort : denied.length ≤ admitted.length
      · rw [if_pos hshort] at hnames ⊢
        refine ⟨[_], rfl, ?_, ?_⟩
        · simp [Database.whereBinds, Database.condBinds, length_readKeys hdenied, hshort]
        · intro r hr hside'
          rw [List.forall_mem_singleton, holds_notIn hlawful hpk hdenied hnames hr]
          exact hside r hside'
      · rw [if_neg hshort] at hnames ⊢
        refine ⟨[_], rfl, ?_, ?_⟩
        · simp only [Database.whereBinds, Database.condBinds, length_readKeys hadmitted, List.map_cons, List.map_nil,
            List.sum_cons, List.sum_nil]
          omega
        · intro r hr _
          rw [List.forall_mem_singleton]
          exact holds_isIn hpk hadmitted hnames hr

end Conditions

section List
variable {fmt : Formats} {parsers : Parsers fmt} {db : Database fmt} {vs : ViewSet fmt db} {pk : FieldSchema}
  {allows : RowJson → Bool} {req : ListRequest db.Given}

theorem length_listed :
    (listed vs allows req).length = min (deniedRows vs allows req).length (admittedRows vs allows req).length := by
  unfold listed
  split <;> omega

/-- The scan reads the matching rows, unless they are more than its cap. -/
theorem viewHookRows_eq (parsers : Parsers fmt) (allows : RowJson → Bool) (hlawful : db.Lawful pk) (hpk : vs.model.primaryKey = some pk)
    (hfilters : db.whereBinds req.where_ ≤ db.maxBindParams) (binds : Nat) :
    ∃ rows : List db.Row, rows.Perm (db.matching req.where_) ∧ viewHookRows parsers vs allows req.where_ binds =
      some (if vs.viewHookScanCap < (db.matching req.where_).length then .tooMany
        else match splitKeys parsers pk allows (rows.map (db.json vs.model.fields)) with
          | none => .tooMany
          | some keys => fold pk keys.1 keys.2 binds) := by
  obtain ⟨rows, hperm, -, hselect⟩ :=
    hlawful.selects ⟨req.where_, [], some (min (min vs.viewHookScanCap i64Max.toNat + 1) i64Max.toNat), none⟩ hfilters
  refine ⟨rows, hperm, ?_⟩
  have hcap : min (min vs.viewHookScanCap i64Max.toNat + 1) i64Max.toNat = vs.viewHookScanCap + 1 := by
    have hle := vs.cap_le.2
    simp only [maxViewHookScanCap] at hle
    simp only [i64Max]
    omega
  have hlength : rows.length = (db.matching req.where_).length := hperm.length_eq
  rw [hcap] at hselect
  unfold viewHookRows
  simp only [hpk, hcap, hselect, slice, Option.map_some, Option.getD_some, Option.getD_none, List.drop_zero,
    List.length_take]
  by_cases htoo : vs.viewHookScanCap < (db.matching req.where_).length
  · rw [if_pos htoo, if_pos (by omega)]
  · rw [if_neg htoo, if_neg (by omega), List.take_of_length_le (by omega)]

theorem readKeys_of_splitKeys {rows : List db.Row} {keys : List (SqlValue fmt) × List (SqlValue fmt)}
    (h : splitKeys parsers pk allows (rows.map (db.json vs.model.fields)) = some keys) :
    keys.1 = readKeys parsers vs pk (rows.filter fun r => allows (db.json vs.model.fields r)) ∧
      keys.2 = readKeys parsers vs pk (rows.filter fun r => !allows (db.json vs.model.fields r)) := by
  have hkeys := splitKeys_eq_some h
  rw [List.filter_map, List.filter_map] at hkeys
  exact hkeys

theorem narrowed_refused (hlawful : db.Lawful pk) (hpk : vs.model.primaryKey = some pk) (hhook : vs.hook = some allows)
    (hfilters : db.whereBinds req.where_ ≤ db.maxBindParams)
    (h : vs.viewHookScanCap < (db.matching req.where_).length ∨
      (∃ r ∈ db.matching req.where_, (rowPk parsers (db.json vs.model.fields r) pk).isNone = true) ∨
      inValuesBudget db.maxBindParams - req.inValues < (listed vs allows req).length) :
    narrowed parsers vs req = .error .badRequest := by
  obtain ⟨rows, hperm, hscan⟩ := viewHookRows_eq parsers allows hlawful hpk hfilters
    (inValuesBudget db.maxBindParams - req.inValues)
  unfold narrowed
  simp only [hhook, hscan]
  by_cases htoo : vs.viewHookScanCap < (db.matching req.where_).length
  · rw [if_pos htoo]
  · rw [if_neg htoo]
    cases hsplit : splitKeys parsers pk allows (rows.map (db.json vs.model.fields)) with
    | none => rfl
    | some keys =>
      have hread : Readable parsers vs pk rows := by
        intro r hr
        by_contra hnone
        have hsome : splitKeys parsers pk allows (rows.map (db.json vs.model.fields)) = none :=
          splitKeys_eq_none.2 ⟨_, List.mem_map_of_mem hr, by simpa using hnone⟩
        rw [hsplit] at hsome
        cases hsome
      have hlisted : inValuesBudget db.maxBindParams - req.inValues < (listed vs allows req).length := by
        rcases h with h | h | h
        · exact absurd h htoo
        · obtain ⟨r, hr, hnone⟩ := h
          have hsome := hread r (hperm.mem_iff.2 hr)
          rw [Option.isNone_iff_eq_none] at hnone
          rw [hnone] at hsome
          cases hsome
        · exact h
      obtain ⟨hadmitted, hdenied⟩ := readKeys_of_splitKeys hsplit
      have hpermA := hperm.filter fun r => allows (db.json vs.model.fields r)
      have hpermD := hperm.filter fun r => !allows (db.json vs.model.fields r)
      rw [length_listed, deniedRows, admittedRows, ← hpermA.length_eq, ← hpermD.length_eq] at hlisted
      simp only
      rw [fold, if_pos]
      rw [hadmitted, hdenied, length_readKeys fun r hr => hread r (List.mem_filter.1 hr).1,
        length_readKeys fun r hr => hread r (List.mem_filter.1 hr).1]
      exact hlisted

/-- What the hook adds to the filters leaves the rows it admits. -/
theorem narrowed_eq (hlawful : db.Lawful pk) (hpk : vs.model.primaryKey = some pk) (hhook : vs.hook = some allows)
    (hfilters : db.whereBinds req.where_ ≤ db.maxBindParams)
    (hcap : (db.matching req.where_).length ≤ vs.viewHookScanCap)
    (hread : Readable parsers vs pk (db.matching req.where_))
    (hbudget : (listed vs allows req).length ≤ inValuesBudget db.maxBindParams - req.inValues)
    (hnames : ∀ r ∈ listed vs allows req, NamesItself parsers vs r) :
    ∃ where_, narrowed parsers vs req = .ok where_ ∧
      db.whereBinds where_ = db.whereBinds req.where_ + (listed vs allows req).length ∧
      db.matching where_ = admittedRows vs allows req := by
  obtain ⟨rows, hperm, hscan⟩ := viewHookRows_eq parsers allows hlawful hpk hfilters
    (inValuesBudget db.maxBindParams - req.inValues)
  have hreadRows : Readable parsers vs pk rows := fun r hr => hread r (hperm.mem_iff.1 hr)
  cases hsplit : splitKeys parsers pk allows (rows.map (db.json vs.model.fields)) with
  | none =>
    obtain ⟨row, hrow, hnone⟩ := splitKeys_eq_none.1 hsplit
    obtain ⟨r, hr, heq⟩ := List.mem_map.1 hrow
    have hsome := hreadRows r hr
    rw [heq, ← Option.not_isNone, hnone] at hsome
    cases hsome
  | some keys =>
    obtain ⟨hadmitted, hdenied⟩ := readKeys_of_splitKeys hsplit
    have hpermA := hperm.filter fun r => allows (db.json vs.model.fields r)
    have hpermD := hperm.filter fun r => !allows (db.json vs.model.fields r)
    have hnamesRows : ∀ r ∈ if (rows.filter fun r => !allows (db.json vs.model.fields r)).length ≤
        (rows.filter fun r => allows (db.json vs.model.fields r)).length
        then rows.filter fun r => !allows (db.json vs.model.fields r)
        else rows.filter fun r => allows (db.json vs.model.fields r), NamesItself parsers vs r := by
      rw [hpermA.length_eq, hpermD.length_eq]
      intro r hr
      apply hnames r
      unfold listed admittedRows deniedRows
      split at hr <;> rename_i hlen
      · rw [if_pos hlen]
        exact hpermD.mem_iff.1 hr
      · rw [if_neg hlen]
        exact hpermA.mem_iff.1 hr
    obtain ⟨extra, hconds, hbinds, hextra⟩ := fold_spec hlawful hpk
      (fun r hr => hreadRows r (List.mem_filter.1 hr).1) (fun r hr => hreadRows r (List.mem_filter.1 hr).1)
      (fun r hr hr' => by simp_all) hnamesRows (inValuesBudget db.maxBindParams - req.inValues)
      (by rw [hpermA.length_eq, hpermD.length_eq]; exact length_listed.symm.trans_le hbudget)
    rw [← hadmitted, ← hdenied] at hconds
    rw [hpermA.length_eq, hpermD.length_eq] at hbinds
    refine ⟨req.where_ ++ extra, ?_, ?_, ?_⟩
    · unfold narrowed
      simp only [hhook, hscan, if_neg (not_lt.2 hcap), hsplit]
      cases hfold : fold pk keys.1 keys.2 (inValuesBudget db.maxBindParams - req.inValues) with
      | all =>
        rw [hfold] at hconds
        cases hconds
        simp
      | only c =>
        rw [hfold] at hconds
        cases hconds
        rfl
      | tooMany =>
        rw [hfold] at hconds
        cases hconds
    · rw [whereBinds_append, hbinds, length_listed]
      rfl
    · rw [matching_append]
      apply List.filter_congr
      intro r hr
      have hmem : r ∈ rows := hperm.mem_iff.2 hr
      have hside := hextra r (mem_matching.1 hr).1 (by
        cases hallows : allows (db.json vs.model.fields r) <;> simp [hmem, hallows])
      rw [Bool.eq_iff_iff, List.all_eq_true, hside]
      simp [hmem]

/-- Rows read again by their keys come back in their order. -/
theorem renderKeys_eq (hlawful : db.Lawful pk) (hpk : vs.model.primaryKey = some pk) {order : List OrderItem}
    {page : List db.Row} (horder : ∃ o ∈ order, o.column = pk.column)
    (hsorted : page.Pairwise fun a b => db.orderOf order a b = .lt) (hrows : ∀ r ∈ page, r ∈ db.rows)
    (hread : Readable parsers vs pk page) (hnames : ∀ r ∈ page, NamesItself parsers vs r)
    (hfits : page.length ≤ db.maxBindParams) :
    renderList vs ⟨[pkIn pk (readKeys parsers vs pk page)], order, none, none⟩ = some (page.map vs.render) := by
  have htrans := transCmp_orderOf hlawful.orders order
  have hmatching : page.Perm (db.matching [pkIn pk (readKeys parsers vs pk page)]) := by
    have hdistinct : Distinct (db.orderOf order) page := hsorted.imp fun hlt => by simp [hlt]
    rw [List.perm_ext_iff_of_nodup hdistinct.nodup (hlawful.distinct_matching horder _).nodup]
    intro r
    rw [mem_matching]
    constructor
    · intro hr
      refine ⟨hrows r hr, ?_⟩
      rw [List.forall_mem_singleton, holds_pkIn hpk hread hnames (hrows r hr)]
      exact hr
    · intro hr
      rw [List.forall_mem_singleton, holds_pkIn hpk hread hnames hr.1] at hr
      exact hr.2
  have hbinds : db.whereBinds [pkIn pk (readKeys parsers vs pk page)] ≤ db.maxBindParams := by
    have hlength := length_readKeys hread
    simp only [Database.whereBinds, List.map_cons, List.map_nil, List.sum_cons, List.sum_nil, pkIn]
    split
    · simp [matchNothing, Database.condBinds]
    · simp only [Database.condBinds]
      omega
  have hpage : page = ranked (db.orderOf order) (db.matching [pkIn pk (readKeys parsers vs pk page)]) :=
    eq_ranked (hlawful.distinct_matching horder _) hmatching (hsorted.imp fun hlt => by simp [hlt])
  have hagain := hlawful.select_eq (q := ⟨[pkIn pk (readKeys parsers vs pk page)], order, none, none⟩) horder hbinds
  simp only [slice, Option.getD_none, List.drop_zero, Option.map_none] at hagain
  rw [← hpage] at hagain
  change (db.select ⟨[pkIn pk (readKeys parsers vs pk page)], order, none, none⟩).map _ = _
  rw [hagain, Option.map_some]

theorem renderAdmitted_eq (hlawful : db.Lawful pk) (hpk : vs.model.primaryKey = some pk)
    {window : SelectQuery fmt db.Given} {page : List db.Row} (hselect : db.select window = some page)
    (horder : ∃ o ∈ window.orderBy, o.column = pk.column)
    (hsorted : page.Pairwise fun a b => db.orderOf window.orderBy a b = .lt) (hrows : ∀ r ∈ page, r ∈ db.rows)
    (hallows : ∀ r ∈ page, allows (db.json vs.model.fields r) = true) (hread : Readable parsers vs pk page)
    (hnames : ∀ r ∈ page, NamesItself parsers vs r) (hfits : page.length ≤ db.maxBindParams) :
    renderAdmitted parsers vs allows window = some (page.map vs.render) := by
  have hkept : (page.map (db.json vs.model.fields)).filter allows = page.map (db.json vs.model.fields) := by
    rw [List.filter_eq_self]
    intro row hrow
    obtain ⟨r, hr, heq⟩ := List.mem_map.1 hrow
    rw [← heq]
    exact hallows r hr
  unfold renderAdmitted
  simp only [hpk, hselect, Option.bind_some, hkept]
  exact renderKeys_eq hlawful hpk horder hsorted hrows hread hnames hfits

/-- The list of a request that is not refused. -/
theorem runList_shown (hlawful : db.Lawful pk) (hpk : vs.model.primaryKey = some pk) (hhook : vs.hook = some allows)
    (hfilters : db.whereBinds req.where_ ≤ db.maxBindParams)
    (hscan : ¬ (vs.viewHookScanCap < (db.matching req.where_).length ∨
      (∃ r ∈ db.matching req.where_, (rowPk parsers (db.json vs.model.fields r) pk).isNone = true) ∨
      inValuesBudget db.maxBindParams - req.inValues < (listed vs allows req).length))
    (hdeep : ¬ offsetTooDeep (req.offset vs) vs.maxOffset = true) (hfits : KeysFit parsers vs allows req) :
    ∃ where_, narrowed parsers vs req = .ok where_ ∧ listPage parsers vs req where_ = shownBody vs allows req := by
  push Not at hscan
  obtain ⟨hcap, hunread, hbudget⟩ := hscan
  have hread : Readable parsers vs pk (db.matching req.where_) := by
    intro r hr
    simpa [Option.isSome_iff_ne_none] using hunread r hr
  obtain ⟨where_, hnarrowed, hbinds, hmatching⟩ := narrowed_eq hlawful hpk hhook hfilters hcap hread hbudget hfits.listed
  have horder := mem_withPkTiebreak hpk req.order
  have htrans := transCmp_orderOf hlawful.orders (vs.model.withPkTiebreak req.order)
  have hfitsWhere : db.whereBinds where_ ≤ db.maxBindParams := hbinds.trans_le hfits.listedFits
  have hselect := hlawful.select_eq (q := ⟨where_, vs.model.withPkTiebreak req.order, some (req.size vs).toNat,
    some (req.offset vs).toNat⟩) horder hfitsWhere
  simp only [hmatching] at hselect
  change db.select _ = some (shownPage vs allows req) at hselect
  have hsub : (shownPage vs allows req).Sublist (shown vs allows req) :=
    (List.take_sublist _ _).trans (List.drop_sublist _ _)
  have hmem : ∀ r ∈ shownPage vs allows req, r ∈ admittedRows vs allows req := fun r hr => mem_ranked.1 (hsub.subset hr)
  have hresults := @renderAdmitted_eq fmt parsers db vs pk allows hlawful hpk _ _ hselect horder
    ((pairwise_lt_ranked ((hlawful.distinct_matching horder _).sublist List.filter_sublist)).sublist hsub)
    (fun r hr => (mem_matching.1 (List.mem_filter.1 (hmem r hr)).1).1) (fun r hr => (List.mem_filter.1 (hmem r hr)).2)
    (fun r hr => hread r (List.mem_filter.1 (hmem r hr)).1) hfits.page hfits.pageFits
  refine ⟨where_, hnarrowed, ?_⟩
  unfold listPage
  simp only [if_neg hdeep, hhook]
  rw [hresults]
  simp only [hlawful.counts where_ hfitsWhere, hmatching, shownBody, shown, length_ranked]
  split <;> rfl

theorem narrowed_cases (hlawful : db.Lawful pk) (hpk : vs.model.primaryKey = some pk) (hhook : vs.hook = some allows)
    (hfilters : db.whereBinds req.where_ ≤ db.maxBindParams) :
    narrowed parsers vs req = .error .badRequest ∨ ∃ where_, narrowed parsers vs req = .ok where_ := by
  obtain ⟨rows, -, hscan⟩ := viewHookRows_eq parsers allows hlawful hpk hfilters
    (inValuesBudget db.maxBindParams - req.inValues)
  unfold narrowed
  simp only [hhook, hscan]
  generalize (if vs.viewHookScanCap < (db.matching req.where_).length then ViewHookRows.tooMany
    else _ : ViewHookRows (Cond fmt db.Given)) = answer
  cases answer <;> simp

/-- A hooked list is refused, or is the list of the rows shown alone, where the keys that it writes out name their
rows and fit. -/
theorem run_list_hooked (hlawful : ∀ pk ∈ vs.model.primaryKey, db.Lawful pk) (hhook : vs.hook = some allows)
    (hfilters : req.inValues ≤ inValuesBudget db.maxBindParams → db.whereBinds req.where_ ≤ db.maxBindParams)
    (hkeys : ¬ Refused parsers vs allows req → KeysFit parsers vs allows req) :
    (Refused parsers vs allows req → runList parsers vs req = .badRequest) ∧
      (¬ Refused parsers vs allows req → runList parsers vs req = shownBody vs allows req) := by
  unfold runList
  by_cases hin : inValuesBudget db.maxBindParams < req.inValues
  · exact ⟨fun _ => if_pos hin, fun hnot => absurd (.inl hin) hnot⟩
  rw [if_neg hin]
  have hbinds := hfilters (not_lt.1 hin)
  cases hpk : vs.model.primaryKey with
  | none =>
    have hnarrowed : narrowed parsers vs req = .error .badRequest := by
      simp [narrowed, hhook, viewHookRows, hpk]
    rw [hnarrowed]
    exact ⟨fun _ => rfl, fun hnot => absurd (.inr (.inl hpk)) hnot⟩
  | some pk =>
    have hlaw := hlawful pk hpk
    by_cases hscan : vs.viewHookScanCap < (db.matching req.where_).length ∨
      (∃ r ∈ db.matching req.where_, (rowPk parsers (db.json vs.model.fields r) pk).isNone = true) ∨
      inValuesBudget db.maxBindParams - req.inValues < (listed vs allows req).length
    · rw [narrowed_refused hlaw hpk hhook hbinds hscan]
      refine ⟨fun _ => rfl, fun hnot => absurd ?_ hnot⟩
      rcases hscan with hcap | hread | hbudget
      · exact .inr (.inr (.inl hcap))
      · exact .inr (.inr (.inr (.inl ⟨pk, hpk, hread⟩)))
      · exact .inr (.inr (.inr (.inr (.inl hbudget))))
    · by_cases hdeep : offsetTooDeep (req.offset vs) vs.maxOffset = true
      · refine ⟨fun _ => ?_, fun hnot => absurd (.inr (.inr (.inr (.inr (.inr hdeep))))) hnot⟩
        rcases narrowed_cases hlaw hpk hhook hbinds with hnarrowed | hnarrowed
        · rw [hnarrowed]
        · obtain ⟨where_, hnarrowed⟩ := hnarrowed
          rw [hnarrowed]
          exact if_pos hdeep
      · have hfits : ¬ Refused parsers vs allows req := by
          rintro (h | h | h | ⟨pk', hpk', h⟩ | h | h)
          · exact hin h
          · rw [hpk] at h
            cases h
          · exact hscan (.inl h)
          · rw [hpk] at hpk'
            cases hpk'
            exact hscan (.inr (.inl h))
          · exact hscan (.inr (.inr h))
          · exact hdeep h
        obtain ⟨where_, hnarrowed, hpage⟩ := runList_shown hlaw hpk hhook hbinds hscan hdeep (hkeys hfits)
        rw [hnarrowed]
        exact ⟨fun hrefused => absurd hrefused hfits, fun _ => hpage⟩

end List

/-- A uuid is a number, and its text that many marks. -/
private def markFormats : Formats :=
  ⟨Unit, Unit, Unit, Unit, Unit, Nat, Unit, fun _ => [], fun _ => [], fun _ => [], fun _ => [], fun _ => [],
    fun u => List.replicate u 'u', fun _ => [], fun s => '"' :: s ++ ['"']⟩

private def markParsers : Parsers markFormats := ⟨fun s => some s.length, fun _ => none, fun _ => none⟩

private structure NoteRow where
  /-- The key is stored as text, not as the bytes that a uuid binds. -/
  text : Bool
  id : Nat
  hidden : Bool
deriving DecidableEq

/-- Text sorts before bytes. -/
private def NoteRow.rank (r : NoteRow) : Nat := if r.text then r.id else 1000 + r.id

private def noteRank : Text → NoteRow → NoteRow → Ordering := fun _ => compareOn NoteRow.rank

/-- A SQLite table of notes: a text is less than any bytes. -/
private def notesBase (notes : List NoteRow) : Database markFormats where
  Row := NoteRow
  Given := Unit
  rows := notes
  within _ _ := true
  isNull _ _ := false
  compare r _ v := match v with
    | .uuid u => if r.text then some .lt else some (Ord.compare r.id u)
    | _ => some .lt
  order := noteRank
  cell r f := if f.name = "id".toList then .string (List.replicate r.id 'u') else .bool r.hidden
  binds _ := 0
  maxBindParams := 32766
  select _ := none
  count _ := none

private def notesDb (notes : List NoteRow) : Database markFormats := (notesBase notes).answering

private def noteId : FieldSchema := ⟨"id".toList, "id".toList, .uuid, true⟩

private def noteModel : ModelSchema := ⟨[noteId, ⟨"hidden".toList, "hidden".toList, .bool, false⟩]⟩

private def visible (row : RowJson) : Bool := row.get "hidden".toList ≠ some (.bool true)

private def notes (rows : List NoteRow) : ViewSet markFormats (notesDb rows) where
  model := noteModel
  hook := some visible
  pagination := .pageNumber
  defaultPageSize := 2
  maxPageSize := 100
  maxOffset := 10000
  count := true
  viewHookScanCap := 2000
  cap_le := by decide
  render r := [("id".toList, .string (List.replicate (NoteRow.id r) 'u'))]

private def firstPage : ListRequest Unit := ⟨fun _ => none, [], 0, []⟩

private theorem notesDb_lawful (rows : List NoteRow) (h : Distinct (noteRank []) rows) :
    (notesDb rows).Lawful noteId := by
  apply answering_lawful
  · intro column
    change Std.TransCmp (compareOn NoteRow.rank)
    infer_instance
  · exact h
  · intro r _
    rfl
  · intro r column v _ _
    cases v <;> simp only [notesBase]
    all_goals first | rfl | skip
    split <;> rfl

private def mixedNotes : List NoteRow := [⟨true, 1, true⟩, ⟨false, 2, false⟩, ⟨false, 3, false⟩]

/-- A denied row whose key is stored as text stays in the count, and in the place of a row that is admitted. -/
theorem text_key_shows_hidden_row :
    runList markParsers (notes mixedNotes) firstPage =
        .pageNumber (some 3) 1 2 (some 2) [[("id".toList, .string "uu".toList)]] ∧
      shownBody (notes mixedNotes) visible firstPage =
        .pageNumber (some 2) 1 2 (some 1) [[("id".toList, .string "uu".toList)], [("id".toList, .string "uuu".toList)]] ∧
      (notesDb mixedNotes).Lawful noteId := by
  refine ⟨by decide, by decide, notesDb_lawful _ ?_⟩
  unfold Distinct
  decide

private def byteNotes : List NoteRow := [⟨false, 1, true⟩, ⟨false, 2, false⟩]

private theorem byteNotes_lawful : (notesDb byteNotes).Lawful noteId := by
  apply notesDb_lawful
  unfold Distinct
  decide

private theorem byteNotes_named (r : NoteRow) (hr : r ∈ byteNotes) :
    NamesItself markParsers (notes byteNotes) r := by
  intro pk hpk v hv r' hr'
  have hkey : noteId = pk := Option.some.inj hpk
  subst hkey
  have hvalue : rowPk markParsers ((notesDb byteNotes).json noteModel.fields r) noteId =
      some (.uuid (List.replicate r.id 'u').length) := rfl
  rw [List.length_replicate] at hvalue
  have heq : SqlValue.uuid r.id = v := Option.some.inj (hvalue.symm.trans hv)
  subst heq
  have hbytes : ∀ r ∈ byteNotes, ∀ r' ∈ byteNotes,
      decide ((if NoteRow.text r' then some Ordering.lt else some (Ord.compare r'.id r.id)) = some .eq) = true ↔
        r' = r := by decide
  exact hbytes r hr r' hr'

private def hiddenNote : (notesDb byteNotes).Row := NoteRow.mk false 1 true

private def shownNote : (notesDb byteNotes).Row := NoteRow.mk false 2 false

private instance (rows : List NoteRow) : DecidableEq (notesDb rows).Row := inferInstanceAs (DecidableEq NoteRow)

private theorem listed_byteNotes : listed (notes byteNotes) visible firstPage = [hiddenNote] := by
  decide

private theorem shownPage_byteNotes :
    shownPage (notes byteNotes) visible firstPage = [shownNote] := by
  decide

private theorem byteNotes_accepted : ¬ Refused markParsers (notes byteNotes) visible firstPage := by
  have hread : ∀ r ∈ (notesDb byteNotes).matching firstPage.where_,
      (rowPk markParsers ((notesDb byteNotes).json noteModel.fields r) noteId).isNone = false := fun _ _ => rfl
  unfold Refused
  rw [listed_byteNotes]
  intro h
  rcases h with h | h | h | h | h | h
  · revert h
    decide
  · cases h
  · revert h
    decide
  · obtain ⟨pk, hpk, r, hr, hnone⟩ := h
    have hkey : noteId = pk := Option.some.inj hpk
    subst hkey
    rw [show (notes byteNotes).model.fields = noteModel.fields from rfl, hread r hr] at hnone
    cases hnone
  · revert h
    decide
  · revert h
    decide

theorem known_hooked_list :
    runList markParsers (notes byteNotes) firstPage =
      .pageNumber (some 1) 1 2 (some 1) [[("id".toList, .string "uu".toList)]] := by
  have hlawful : ∀ pk ∈ (notes byteNotes).model.primaryKey, (notesDb byteNotes).Lawful pk := by
    intro pk hpk
    have hkey : noteId = pk := Option.some.inj hpk
    subst hkey
    exact byteNotes_lawful
  have hfits : KeysFit markParsers (notes byteNotes) visible firstPage := by
    constructor
    · rw [listed_byteNotes, List.forall_mem_singleton]
      exact byteNotes_named ⟨false, 1, true⟩ (by decide)
    · rw [shownPage_byteNotes, List.forall_mem_singleton]
      exact byteNotes_named ⟨false, 2, false⟩ (by decide)
    · rw [listed_byteNotes]
      decide
    · rw [shownPage_byteNotes]
      decide
  have hshown := (run_list_hooked hlawful rfl (fun _ => by decide) fun _ => hfits).2 byteNotes_accepted
  exact hshown.trans (by decide)

end Rustango.Viewset.Lists
