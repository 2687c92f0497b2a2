import Mathlib
import Rustango.Url.Codec

/-!
# CSV export

`CsvWriter` of `csv.rs`: the quoting of a field, the cells that a spreadsheet would run, and the width that the headers
fix. What is written is read back by a reader of RFC 4180 that skips blank lines.
-/

namespace Rustango.Csv

open Rustango.Url (Text)

def isSign (c : Char) : Bool := c = '+' || c = '-'

def dropSign : Text → Text
  | [] => []
  | c :: t => if isSign c then t else c :: t

/-- `e` and its digits, or nothing. -/
def isExponent : Text → Bool
  | [] => true
  | c :: t => (c = 'e' || c = 'E') && dropSign t ≠ [] && (dropSign t).all Char.isDigit

def isDecimal (t : Text) : Bool :=
  let whole := t.takeWhile Char.isDigit
  match t.dropWhile Char.isDigit with
  | '.' :: rest => (whole ≠ [] || rest.takeWhile Char.isDigit ≠ []) && isExponent (rest.dropWhile Char.isDigit)
  | rest => whole ≠ [] && isExponent rest

/-- `str::parse::<f64>` takes the text. -/
def parsesF64 (t : Text) : Bool :=
  let t := dropSign t
  t.map Char.toLower ∈ ["inf".toList, "infinity".toList, "nan".toList] || isDecimal t

/-- A spreadsheet starts a formula there. -/
def startsFormula : Text → Bool
  | [] => false
  | c :: _ => c ∈ ['=', '+', '-', '@', '\t', '\r']

def neutralizeFormula (s : Text) : Text := if startsFormula s && !parsesF64 s then '\'' :: s else s

def needsQuoting (s : Text) : Bool := s.any fun c => c ∈ [',', '"', '\r', '\n']

def escapeField (s : Text) : Text :=
  if needsQuoting s then '"' :: (s.flatMap fun c => if c = '"' then ['"', '"'] else [c]) ++ ['"'] else s

structure CsvWriter where
  out : Text := []
  columnCount : Option Nat := none
  allowFormulas : Bool := false

namespace CsvWriter
variable (w : CsvWriter)

def cell (s : Text) : Text := if w.allowFormulas then s else neutralizeFormula s

def writeRow (row : List Text) : CsvWriter :=
  -- A bare line end would be a blank line, which readers skip.
  if row = [[]] then { w with out := w.out ++ "\"\"\r\n".toList }
  else { w with out := w.out ++ [','].intercalate (row.map fun s => escapeField (w.cell s)) ++ "\r\n".toList }

def headers (row : List Text) : CsvWriter := { w with columnCount := some row.length }.writeRow row

/-- `Vec::resize` -/
def resize (row : List Text) (n : Nat) : List Text := row.take n ++ List.replicate (n - row.length) []

def row (cells : List Text) : CsvWriter := w.writeRow (w.columnCount.elim cells (resize cells))

end CsvWriter

/-- `raw_formulas` -/
def CsvWriter.rawFormulas (w : CsvWriter) : CsvWriter := { w with allowFormulas := true }

inductive Call where
  | headers (cells : List Text)
  | row (cells : List Text)
  | rawFormulas
deriving DecidableEq

def Call.run (w : CsvWriter) : Call → CsvWriter
  | .headers cells => w.headers cells
  | .row cells => w.row cells
  | .rawFormulas => w.rawFormulas

/-- What the calls write, from a new writer on. -/
def exportOf (calls : List Call) : Text := (calls.foldl Call.run {}).out

inductive Mode where
  | bare
  | quoted
  /-- After a quote in a quoted field. -/
  | closed
  /-- After the `\r` of a record, or of a blank line. -/
  | ending
  | blank
deriving DecidableEq

/-- A reader of RFC 4180 in the middle of a text. -/
structure Reader where
  mode : Mode
  field : Text
  record : List Text
  records : List (List Text)
deriving DecidableEq

namespace Reader
variable (r : Reader)

def endField : Reader := ⟨.bare, [], r.record ++ [r.field], r.records⟩

def step (c : Char) : Option Reader :=
  match r.mode with
  | .bare =>
    if c = ',' then some r.endField
    else if c = '\r' then some { r with mode := if r.field = [] ∧ r.record = [] then .blank else .ending }
    else if c = '\n' then none
    else if c = '"' then if r.field = [] then some { r with mode := .quoted } else none
    else some { r with field := r.field ++ [c] }
  | .quoted => if c = '"' then some { r with mode := .closed } else some { r with field := r.field ++ [c] }
  | .closed =>
    if c = '"' then some { r with mode := .quoted, field := r.field ++ [c] }
    else if c = ',' then some r.endField
    else if c = '\r' then some { r with mode := .ending }
    else none
  | .ending => if c = '\n' then some ⟨.bare, [], [], r.records ++ [r.record ++ [r.field]]⟩ else none
  | .blank => if c = '\n' then some ⟨.bare, [], [], r.records⟩ else none

def read (t : Text) : Option Reader := t.foldlM step r

theorem read_append (s t : Text) : r.read (s ++ t) = (r.read s).bind fun r => r.read t := List.foldlM_append ..

end Reader

/-- The records of a text that ends with its last record. -/
def records (t : Text) : Option (List (List Text)) :=
  ((⟨.bare, [], [], []⟩ : Reader).read t).bind fun r =>
    if r.mode = .bare ∧ r.field = [] ∧ r.record = [] then some r.records else none

section Field
variable {record : List Text} {recs : List (List Text)}

/-- The mode that a written field leaves the reader in. -/
def modeAfter (s : Text) : Mode := if needsQuoting s then .closed else .bare

private theorem read_bare {s : Text} (h : needsQuoting s = false) (field : Text) :
    (⟨.bare, field, record, recs⟩ : Reader).read s = some ⟨.bare, field ++ s, record, recs⟩ := by
  induction s generalizing field with
  | nil => simp [Reader.read]
  | cons c s ih =>
    rw [needsQuoting, List.any_cons, Bool.or_eq_false_iff, decide_eq_false_iff_not] at h
    obtain ⟨hc, hs⟩ := h
    simp only [List.mem_cons, List.not_mem_nil, or_false, not_or] at hc
    have hstep : (⟨.bare, field, record, recs⟩ : Reader).step c = some ⟨.bare, field ++ [c], record, recs⟩ := by
      simp [Reader.step, hc]
    have hrest := ih hs (field ++ [c])
    rw [Reader.read] at hrest ⊢
    rw [List.foldlM_cons, hstep]
    simpa using hrest

private theorem read_quoted (s field : Text) :
    (⟨.quoted, field, record, recs⟩ : Reader).read (s.flatMap fun c => if c = '"' then ['"', '"'] else [c]) =
      some ⟨.quoted, field ++ s, record, recs⟩ := by
  induction s generalizing field with
  | nil => simp [Reader.read]
  | cons c s ih =>
    rw [List.flatMap_cons, Reader.read_append]
    have hone : (⟨.quoted, field, record, recs⟩ : Reader).read (if c = '"' then ['"', '"'] else [c]) =
        some ⟨.quoted, field ++ [c], record, recs⟩ := by
      by_cases hc : c = '"'
      · subst hc
        rfl
      · simp [Reader.read, Reader.step, hc]
    rw [hone, Option.bind_some, ih]
    simp

private theorem read_escapeField (s : Text) : (⟨.bare, [], record, recs⟩ : Reader).read (escapeField s) =
    some ⟨modeAfter s, s, record, recs⟩ := by
  by_cases h : needsQuoting s = true
  · have hopen : (⟨.bare, [], record, recs⟩ : Reader).read ['"'] = some ⟨.quoted, [], record, recs⟩ := rfl
    have hclose : (⟨.quoted, s, record, recs⟩ : Reader).read ['"'] = some ⟨.closed, s, record, recs⟩ := rfl
    rw [escapeField, if_pos h, modeAfter, if_pos h, ← List.singleton_append, List.append_assoc, Reader.read_append,
      hopen, Option.bind_some, Reader.read_append, read_quoted, Option.bind_some, List.nil_append, hclose]
  · rw [escapeField, if_neg h, modeAfter, if_neg h, read_bare (by simpa using h), List.nil_append]

private theorem read_comma (s : Text) : (⟨modeAfter s, s, record, recs⟩ : Reader).read [','] =
    some ⟨.bare, [], record ++ [s], recs⟩ := by
  rw [modeAfter]
  split <;> rfl

private theorem read_lineEnd {s : Text} (h : s ≠ [] ∨ record ≠ []) :
    (⟨modeAfter s, s, record, recs⟩ : Reader).read "\r\n".toList =
      some ⟨.bare, [], [], recs ++ [record ++ [s]]⟩ := by
  have hblank : ¬ (s = [] ∧ record = []) := by
    rintro ⟨hs, hr⟩
    exact h.elim (fun hne => hne hs) fun hne => hne hr
  rw [modeAfter]
  split
  · rfl
  · simp [Reader.read, Reader.step, hblank]

end Field

section Row
variable {recs : List (List Text)}

private theorem read_cells (cells : List Text) :
    ∀ (s : Text) (record : List Text), (record = [] → cells = [] → s ≠ []) →
    (⟨.bare, [], record, recs⟩ : Reader).read ([','].intercalate ((s :: cells).map escapeField) ++ "\r\n".toList) =
      some ⟨.bare, [], [], recs ++ [record ++ s :: cells]⟩ := by
  induction cells with
  | nil =>
    intro s record hne
    have hend : s ≠ [] ∨ record ≠ [] := by
      by_cases hr : record = []
      · exact .inl (hne hr rfl)
      · exact .inr hr
    rw [List.map_singleton, List.intercalate_singleton, Reader.read_append, read_escapeField, Option.bind_some,
      read_lineEnd hend]
  | cons t cells ih =>
    intro s record _
    rw [List.map_cons, List.map_cons, List.intercalate_cons_cons, ← List.map_cons, List.append_assoc, List.append_assoc,
      Reader.read_append, read_escapeField, Option.bind_some, Reader.read_append, read_comma, Option.bind_some,
      ih t (record ++ [s]) (by simp)]
    simp

private theorem neutralizeFormula_eq_nil {s : Text} : neutralizeFormula s = [] ↔ s = [] := by
  rw [neutralizeFormula]
  split
  · next h =>
    cases s with
    | nil => simp [startsFormula] at h
    | cons c s => simp
  · rfl

private theorem cell_eq_nil {w : CsvWriter} {s : Text} : w.cell s = [] ↔ s = [] := by
  rw [CsvWriter.cell]
  split
  · rfl
  · exact neutralizeFormula_eq_nil

private theorem read_writeRow (w : CsvWriter) (row : List Text) (r : Reader)
    (h : r.read w.out = some ⟨.bare, [], [], recs⟩) :
    r.read (w.writeRow row).out = some ⟨.bare, [], [], recs ++ if row = [] then [] else [row.map w.cell]⟩ := by
  rw [CsvWriter.writeRow]
  split
  · next hempty =>
    subst hempty
    have hcell : w.cell [] = [] := cell_eq_nil.mpr rfl
    rw [Reader.read_append, h, Option.bind_some, if_neg (by simp), List.map_singleton, hcell]
    rfl
  · next hne =>
    dsimp only
    rw [List.append_assoc, Reader.read_append, h, Option.bind_some]
    cases row with
    | nil =>
      rw [if_pos rfl, List.append_nil]
      rfl
    | cons s cells =>
      have hlone : ([] : List Text) = [] → cells.map w.cell = [] → w.cell s ≠ [] := by
        intro _ hcells hs
        apply hne
        rw [List.map_eq_nil_iff.mp hcells, cell_eq_nil.mp hs]
      have hread := @read_cells recs (cells.map w.cell) (w.cell s) [] hlone
      rw [← List.map_cons, List.map_map] at hread
      rw [if_neg (List.cons_ne_nil _ _)]
      exact hread

end Row

def exported (raw : Bool) (s : Text) : Text := if raw then s else neutralizeFormula s

/-- The rows of the calls, where `n` columns are fixed. -/
def rowsOf : Option Nat → Bool → List Call → List (List Text)
  | _, _, [] => []
  | _, raw, .headers cells :: calls => cells.map (exported raw) :: rowsOf (some cells.length) raw calls
  | n, raw, .row cells :: calls => (n.elim cells (CsvWriter.resize cells)).map (exported raw) :: rowsOf n raw calls
  | n, _, .rawFormulas :: calls => rowsOf n true calls

private theorem writeRow_columnCount (w : CsvWriter) (row : List Text) :
    (w.writeRow row).columnCount = w.columnCount := by
  rw [CsvWriter.writeRow]
  split <;> rfl

private theorem writeRow_allowFormulas (w : CsvWriter) (row : List Text) :
    (w.writeRow row).allowFormulas = w.allowFormulas := by
  rw [CsvWriter.writeRow]
  split <;> rfl

private theorem filter_row (cells : List Text) (f : Text → Text) (rows : List (List Text)) :
    (cells.map f :: rows).filter (· ≠ []) =
      (if cells = [] then [] else [cells.map f]) ++ rows.filter (· ≠ []) := by
  cases cells with
  | nil => simp
  | cons s cells => simp

private theorem read_foldl (r : Reader) (calls : List Call) : ∀ (w : CsvWriter) (recs : List (List Text)),
    r.read w.out = some ⟨.bare, [], [], recs⟩ → r.read (calls.foldl Call.run w).out =
      some ⟨.bare, [], [], recs ++ (rowsOf w.columnCount w.allowFormulas calls).filter (· ≠ [])⟩ := by
  induction calls with
  | nil =>
    intro w recs h
    simpa [rowsOf] using h
  | cons call calls ih =>
    intro w recs h
    cases call with
    | headers cells =>
      have hrow := read_writeRow { w with columnCount := some cells.length } cells r h
      have hrest := ih (w.headers cells) _ hrow
      rw [CsvWriter.headers, writeRow_columnCount, writeRow_allowFormulas] at hrest
      rw [List.foldl_cons, rowsOf, filter_row, ← List.append_assoc]
      exact hrest
    | row cells =>
      have hrow := read_writeRow w (w.columnCount.elim cells (CsvWriter.resize cells)) r h
      have hrest := ih (w.row cells) _ hrow
      rw [CsvWriter.row, writeRow_columnCount, writeRow_allowFormulas] at hrest
      rw [List.foldl_cons, rowsOf, filter_row, ← List.append_assoc]
      exact hrest
    | rawFormulas => exact ih w.rawFormulas recs h

/-- A reader finds the rows of the calls, as wide as the headers before them; only a row of no cells is lost. -/
theorem export_reads_back (calls : List Call) :
    records (exportOf calls) = some ((rowsOf none false calls).filter (· ≠ [])) := by
  have hread := read_foldl ⟨.bare, [], [], []⟩ calls {} [] rfl
  rw [records, exportOf, hread, Option.bind_some, if_pos ⟨rfl, rfl, rfl⟩, List.nil_append]

private theorem neutralizeFormula_safe (s : Text) (h : startsFormula (neutralizeFormula s) = true) :
    parsesF64 (neutralizeFormula s) = true := by
  rw [neutralizeFormula] at h ⊢
  by_cases hformula : (startsFormula s && !parsesF64 s) = true
  · rw [if_pos hformula] at h
    exact absurd h (by simp [startsFormula])
  · rw [if_neg hformula] at h ⊢
    simpa [h] using hformula

private theorem rowsOf_safe {calls : List Call} (hraw : .rawFormulas ∉ calls) : ∀ (n : Option Nat),
    ∀ row ∈ rowsOf n false calls, ∀ cell ∈ row, startsFormula cell = true → parsesF64 cell = true := by
  induction calls with
  | nil =>
    intro n row hrow
    exact absurd hrow List.not_mem_nil
  | cons call calls ih =>
    intro n row hrow cell hcell hstarts
    have hrest := ih fun hmem => hraw (List.mem_cons_of_mem _ hmem)
    have hwritten : ∀ cells : List Text, row = cells.map (exported false) → parsesF64 cell = true := by
      intro cells heq
      rw [heq] at hcell
      obtain ⟨s, -, rfl⟩ := List.mem_map.mp hcell
      exact neutralizeFormula_safe s hstarts
    cases call with
    | headers cells => exact (List.mem_cons.mp hrow).elim (hwritten _) fun hlater => hrest _ row hlater cell hcell hstarts
    | row cells => exact (List.mem_cons.mp hrow).elim (hwritten _) fun hlater => hrest _ row hlater cell hcell hstarts
    | rawFormulas => exact absurd List.mem_cons_self hraw

/-- No cell of an export starts a formula, unless it is a number. -/
theorem export_has_no_formula {calls : List Call} (hraw : .rawFormulas ∉ calls) :
    ∃ recs, records (exportOf calls) = some recs ∧
      ∀ record ∈ recs, ∀ cell ∈ record, startsFormula cell = true → parsesF64 cell = true := by
  have hread := read_foldl ⟨.bare, [], [], []⟩ calls {} [] rfl
  refine ⟨(rowsOf none false calls).filter (· ≠ []), ?_, ?_⟩
  · rw [records, exportOf, hread, Option.bind_some, if_pos ⟨rfl, rfl, rfl⟩, List.nil_append]
  · intro record hrecord
    exact rowsOf_safe hraw none record (List.mem_of_mem_filter hrecord)

/-- A number and a formula. -/
private def ledgerCalls : List Call := [.headers ["id".toList, "note".toList], .row ["-5".toList, "=A1, \"x\"".toList]]

theorem ledger_has_no_formula : .rawFormulas ∉ ledgerCalls ∧ ∃ recs, records (exportOf ledgerCalls) = some recs ∧
    ∀ record ∈ recs, ∀ cell ∈ record, startsFormula cell = true → parsesF64 cell = true :=
  ⟨by decide, export_has_no_formula (by decide)⟩

example : records (exportOf ledgerCalls) =
    some [["id".toList, "note".toList], ["-5".toList, "'=A1, \"x\"".toList]] := by rfl

end Rustango.Csv
