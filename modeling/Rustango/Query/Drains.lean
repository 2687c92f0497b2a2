import Rustango.Query.ChunkedIter

/-!
# What an iterator hands out

Each chunk is a part of the query's window, at the position that the chunks before it have reached; so the
calls hand out what a fetch returns.
-/

namespace Rustango.Query

open Rustango.Firsts

variable {L : Lang} {m : Meaning L} {db : Database L} {q : SelectQuery L}

namespace SelectQuery

theorem fetches_unsliced_plain (hc : q.compound = []) {all : List (ResultRow L)} :
    q.unsliced.Fetches m db all ↔ q.InScope m ∧ ∃ draw l, (q.matching m db).Perm l ∧
      l.Pairwise (ordered m q.model.table draw q.orderBy) ∧ all = (q.dedupFetched m l).map (q.output m) := by
  have hunsliced : q.unsliced = { q with limit := none, offset := none } := by simp [unsliced, hc]
  rw [fetches_plain (unsliced_compound.trans hc), hunsliced]
  exact Iff.rfl

theorem fetches_unsliced_combined (hc : q.compound ≠ []) {all : List (ResultRow L)} :
    q.unsliced.Fetches m db all ↔ ∃ envs, q.asBranch.Selects m db envs ∧ ∃ combined,
      SelectQuery.Folds m db q.compound (envs.map (q.output m)) combined ∧
        Windowed m q.model.table q.compoundOrderBy none none combined all := by
  have hunsliced : q.unsliced = { q with compoundLimit := none, compoundOffset := none } := by
    simp [unsliced, hc]
  have hne : q.unsliced.compound ≠ [] := fun h => hc (unsliced_compound.symm.trans h)
  rw [fetches_combined hne, answers_compound_iff (show q.unsliced.asBranch.compound ≠ [] from hne), hunsliced]
  exact Iff.rfl

/-- A fetch of the query is the window of a fetch without it. -/
theorem fetches_sliced {rows : List (ResultRow L)} : q.Fetches m db rows ↔
    ∃ all, q.unsliced.Fetches m db all ∧ rows = slice q.outerLimit q.outerOffset all := by
  by_cases hc : q.compound = []
  · have hlimit : q.outerLimit = q.limit := by simp [outerLimit, hc]
    have hoffset : q.outerOffset = q.offset := by simp [outerOffset, hc]
    rw [fetches_plain hc, hlimit, hoffset]
    simp only [fetches_unsliced_plain hc, slice]
    constructor
    · intro h
      obtain ⟨hscope, draw, l, hl, hsorted, hrows⟩ := h
      exact ⟨_, ⟨hscope, draw, l, hl, hsorted, rfl⟩, by rw [hrows, window_map]⟩
    · intro h
      obtain ⟨all, ⟨hscope, draw, l, hl, hsorted, hall⟩, hrows⟩ := h
      exact ⟨hscope, draw, l, hl, hsorted, by rw [hrows, hall, window_map]⟩
  · have hlimit : q.outerLimit = q.compoundLimit := by simp [outerLimit, hc]
    have hoffset : q.outerOffset = q.compoundOffset := by simp [outerOffset, hc]
    rw [fetches_combined hc, answers_compound_iff (show q.asBranch.compound ≠ [] from hc), hlimit, hoffset]
    simp only [fetches_unsliced_combined hc, Windowed]
    constructor
    · intro h
      obtain ⟨envs, henvs, combined, hfolds, hitems, draw, l, hl, hsorted, hrows⟩ := h
      exact ⟨l, ⟨envs, henvs, combined, hfolds, hitems, draw, l, hl, hsorted, rfl⟩, hrows⟩
    · intro h
      obtain ⟨all, ⟨envs, henvs, combined, hfolds, hitems, draw, l, hl, hsorted, hall⟩, hrows⟩ := h
      refine ⟨envs, henvs, combined, hfolds, hitems, draw, l, hl, hsorted, ?_⟩
      rw [hrows, hall]
      rfl

variable {limit offset : Int}

@[simp] theorem unsliced_withWindow : (q.withWindow limit offset).unsliced = q.unsliced := by
  cases hc : q.compound.isEmpty <;> simp [withWindow, unsliced, hc]

@[simp] theorem outerLimit_withWindow : (q.withWindow limit offset).outerLimit = some limit := by
  cases hc : q.compound.isEmpty <;> simp [withWindow, outerLimit, hc]

@[simp] theorem outerOffset_withWindow : (q.withWindow limit offset).outerOffset = some offset := by
  cases hc : q.compound.isEmpty <;> simp [withWindow, outerOffset, hc]

/-- The order is total: without its window the query has this answer and no other. -/
def Settled (m : Meaning L) (db : Database L) (q : SelectQuery L) (all : List (ResultRow L)) : Prop :=
  ∀ rows, q.unsliced.Fetches m db rows ↔ rows = all

theorem Settled.fetches_iff {all rows : List (ResultRow L)} (h : q.Settled m db all) :
    q.Fetches m db rows ↔ rows = slice q.outerLimit q.outerOffset all := by
  rw [fetches_sliced]
  simp only [h _, exists_eq_left]

theorem Settled.withWindow {all : List (ResultRow L)} (h : q.Settled m db all) :
    (q.withWindow limit offset).Settled m db all := by
  intro rows
  rw [unsliced_withWindow]
  exact h rows

/-- A total order of the rows of a query without set operations settles it. -/
theorem TotallyOrdered.settled (htotal : q.TotallyOrdered m db) (hc : q.compound = []) (hscope : q.InScope m) :
    ∃ all, q.Settled m db all := by
  obtain ⟨l, hl, hsorted⟩ := exists_arrangement m q.model.table (fun _ => 0) q.orderBy (q.matching m db)
  refine ⟨(q.dedupFetched m l).map (q.output m), ?_⟩
  intro rows
  rw [fetches_unsliced_plain hc]
  constructor
  · intro h
    obtain ⟨-, draw, l', hl', hsorted', hrows⟩ := h
    have heq : l = l' := by
      apply @List.Perm.eq_of_pairwise _ (fun a b => ∃ draw, ordered m q.model.table draw q.orderBy a b)
      · intro a b ha hb hab hba
        obtain ⟨draw₁, hab⟩ := hab
        obtain ⟨draw₂, hba⟩ := hba
        exact htotal draw₁ draw₂ a (hl.mem_iff.2 ha) b (hl'.mem_iff.2 hb) hab hba
      · exact hsorted.imp fun hab => ⟨_, hab⟩
      · exact hsorted'.imp fun hab => ⟨_, hab⟩
      · exact hl.symm.trans hl'
    rw [hrows, heq]
  · intro h
    exact ⟨hscope, fun _ => 0, l, hl, hsorted, h⟩

end SelectQuery

namespace ChunkedIter

section Fetch
variable {it it' : ChunkedIter L} {select : SelectQuery L → List (ResultRow L)}
  {out : Option (List (ResultRow L))}

/-- What a chunk does: none is left, or its rows move the offset. -/
theorem fetchNextChunk_cases (h : it.fetchNextChunk select = some (it', out)) :
    (it' = { it with exhausted := true } ∧ out = none ∧ ∀ q ∈ it.statement, select q = []) ∨
      ∃ q, it.statement = some q ∧ select q ≠ [] ∧ it.offset + (select q).length ≤ i64Max ∧
        out = some (select q) ∧
        it' = { it with
          exhausted := it.exhausted || decide ((select q).length < it.size)
          offset := it.offset + (select q).length } := by
  unfold fetchNextChunk at h
  cases hq : it.statement with
  | none =>
    simp only [hq, Option.some.injEq, Prod.mk.injEq] at h
    exact Or.inl ⟨h.1.symm, h.2.symm, by simp⟩
  | some q =>
    simp only [hq] at h
    by_cases hrows : select q = []
    · simp only [hrows, List.isEmpty_nil, if_true, Option.some.injEq, Prod.mk.injEq] at h
      exact Or.inl ⟨h.1.symm, h.2.symm, by simp [hrows]⟩
    · have hempty : (select q).isEmpty = false := List.isEmpty_eq_false_iff.2 hrows
      rw [hempty, if_neg Bool.false_ne_true, Option.map_eq_some_iff] at h
      obtain ⟨offset, hoffset, h⟩ := h
      unfold addI64 at hoffset
      split at hoffset
      · rename_i hle
        cases hoffset
        cases h
        exact Or.inr ⟨q, rfl, hrows, hle, rfl, rfl⟩
      · cases hoffset

end Fetch

/-- The calls have handed out `given` and buffered what follows it, up to row `k` of the window. -/
structure At (first : ChunkedIter L) (rest : List (ResultRow L)) (it : ChunkedIter L)
    (given : List (ResultRow L)) (k : Nat) : Prop where
  query : it.query = first.query
  chunkSize : it.chunkSize = first.chunkSize
  end_ : it.end_ = first.end_
  taken : given ++ it.buffer = rest.take k
  offset : it.offset = first.offset + k
  bound : k ≤ rest.length
  fits : k = 0 ∨ first.offset + k ≤ i64Max
  seen : it.seen = given.length
  finished : it.exhausted = true → k = rest.length ∨ i64Max ≤ first.offset + k

end ChunkedIter

/-- The rows that the iterator may reach: it takes a negative limit for 0. -/
def SelectQuery.reached (q : SelectQuery L) (all : List (ResultRow L)) : List (ResultRow L) :=
  window (offsetCount q.outerOffset) (q.outerLimit.map Int.toNat) all

namespace ChunkedIter

section Steps
variable {chunkSize : Int} {all : List (ResultRow L)} {it it' : ChunkedIter L} {given : List (ResultRow L)} {k : Nat}
  {select : SelectQuery L → List (ResultRow L)} {call : Call} {out : Option (List (ResultRow L))}

theorem at_first : At (q.chunks chunkSize) (q.reached all) (q.chunks chunkSize) [] 0 := by
  constructor <;> simp [SelectQuery.chunks]

theorem chunks_offset : (q.chunks chunkSize).offset = offsetCount q.outerOffset := by
  simp only [SelectQuery.chunks, offsetCount]
  omega

/-- Past a chunk that is asked for there is room in the window. -/
theorem At.statement_eq (h : At (q.chunks chunkSize) (q.reached all) it given k) {chunk : SelectQuery L}
    (hchunk : it.statement = some chunk) : it.exhausted = false ∧ 0 < it.size ∧
      chunk = q.withWindow it.size it.offset ∧
      ∀ n, q.outerLimit = some n → it.offset + it.size ≤ offsetCount q.outerOffset + max n 0 := by
  unfold statement at hchunk
  cases hexhausted : it.exhausted with
  | true => simp [hexhausted] at hchunk
  | false =>
    rw [hexhausted, if_neg Bool.false_ne_true] at hchunk
    by_cases hsize : it.size ≤ 0
    · rw [if_pos hsize] at hchunk
      cases hchunk
    · rw [if_neg hsize, h.query] at hchunk
      refine ⟨rfl, by omega, (Option.some.inj hchunk).symm, ?_⟩
      intro n hn
      have hend : it.end_ = some (saturatingAddI64 (q.chunks chunkSize).offset (max n 0)) := by
        rw [h.end_]
        simp [SelectQuery.chunks, hn]
      have hle : it.size ≤ saturatingAddI64 (q.chunks chunkSize).offset (max n 0) - it.offset := by
        rw [size, hend]
        exact min_le_right _ _
      rw [chunks_offset, saturatingAddI64] at hle
      omega

/-- Where no chunk is asked for, the window or the integers end. -/
theorem At.statement_none (h : At (q.chunks chunkSize) (q.reached all) it given k) (hsize : 0 < chunkSize)
    (hnone : it.statement = none) :
    k = (q.reached all).length ∨ i64Max ≤ (q.chunks chunkSize).offset + k := by
  unfold statement at hnone
  by_cases hexhausted : it.exhausted = true
  · exact h.finished hexhausted
  rw [if_neg hexhausted] at hnone
  have hle : it.size ≤ 0 := by
    by_contra hpos
    rw [if_neg hpos] at hnone
    cases hnone
  have hchunk : it.chunkSize = chunkSize := h.chunkSize
  have hoffset := h.offset
  have hbound := h.bound
  unfold size at hle
  rw [h.end_] at hle
  cases hlimit : q.outerLimit with
  | none =>
    simp only [SelectQuery.chunks, hlimit, Option.map_none] at hle
    omega
  | some n =>
    have hrest : (q.reached all).length ≤ n.toNat := by
      rw [SelectQuery.reached, hlimit]
      exact List.length_take_le _ _
    simp only [SelectQuery.chunks, hlimit, Option.map_some, saturatingAddI64] at hle hoffset ⊢
    omega

theorem At.select_eq (h : At (q.chunks chunkSize) (q.reached all) it given k) (hset : q.Settled m db all)
    {chunk : SelectQuery L} (hchunk : it.statement = some chunk) {rows : List (ResultRow L)} :
    chunk.Fetches m db rows ↔ rows = ((q.reached all).drop k).take it.size.toNat := by
  obtain ⟨-, hpos, heq, hroom⟩ := h.statement_eq hchunk
  have hoffset := h.offset
  rw [chunks_offset] at hoffset
  rw [heq, hset.withWindow.fetches_iff, SelectQuery.outerLimit_withWindow, SelectQuery.outerOffset_withWindow]
  have hlimit : limitCount (some it.size) = some it.size.toNat := by
    simp only [limitCount, Option.bind_some, if_neg (Int.not_lt.2 (Int.le_of_lt hpos))]
  have hskip : offsetCount (some it.offset) = offsetCount q.outerOffset + k := by
    rw [offsetCount, Option.getD_some, hoffset]
    omega
  rw [slice, hlimit, hskip, SelectQuery.reached]
  cases hn : q.outerLimit with
  | none => simp only [window, Option.map_none, List.drop_drop]
  | some n =>
    have hfits := hroom n hn
    have hmin : min it.size.toNat (n.toNat - k) = it.size.toNat := by omega
    simp only [window, Option.map_some, List.drop_take, List.drop_drop, List.take_take, hmin]

theorem At.drain {first : ChunkedIter L} {rest front buffer : List (ResultRow L)} (h : At first rest it given k)
    (hbuffer : it.buffer = front ++ buffer) :
    At first rest { it with buffer := buffer, seen := it.seen + front.length } (given ++ front) k := by
  have htaken := h.taken
  have hseen := h.seen
  rw [hbuffer] at htaken
  refine { h with taken := ?_, seen := ?_ }
  · rw [List.append_assoc]
    exact htaken
  · simp only [List.length_append]
    omega

/-- A chunk ends the iteration or goes to the buffer. -/
theorem At.fetch (h : At (q.chunks chunkSize) (q.reached all) it given k) (hset : q.Settled m db all)
    (hsize : 0 < chunkSize) (hbuffer : it.buffer = [])
    (hselect : ∀ chunk ∈ it.statement, chunk.Fetches m db (select chunk))
    (hfetch : it.fetchNextChunk select = some (it', out)) :
    (out = none ∧ At (q.chunks chunkSize) (q.reached all) it' given k ∧ it'.buffer = [] ∧ it'.exhausted = true) ∨
      ∃ rows, out = some rows ∧ rows ≠ [] ∧ it'.buffer = [] ∧
        At (q.chunks chunkSize) (q.reached all) { it' with buffer := rows } given (k + rows.length) := by
  have htaken := h.taken
  rw [hbuffer, List.append_nil] at htaken
  rcases fetchNextChunk_cases hfetch with ⟨hit, hout, hempty⟩ | ⟨chunk, hchunk, hrows, hle, hout, hit⟩
  · left
    have hend : k = (q.reached all).length ∨ i64Max ≤ (q.chunks chunkSize).offset + k := by
      cases hchunk : it.statement with
      | none => exact h.statement_none hsize hchunk
      | some chunk =>
        have hnil := (h.select_eq hset hchunk).1 (hselect chunk hchunk)
        rw [hempty chunk hchunk] at hnil
        have hpos := (h.statement_eq hchunk).2.1
        have hlength := congrArg List.length hnil
        simp only [List.length_nil, List.length_take, List.length_drop] at hlength
        have hbound := h.bound
        omega
    rw [hit]
    exact ⟨hout, { h with finished := fun _ => hend }, hbuffer, rfl⟩
  · right
    have hpart := (h.select_eq hset hchunk).1 (hselect chunk hchunk)
    obtain ⟨hexhausted, hpos, -, -⟩ := h.statement_eq hchunk
    have hlength := congrArg List.length hpart
    rw [List.length_take, List.length_drop] at hlength
    have hnext : ((q.reached all).drop k).take (select chunk).length = select chunk := by
      rw [hlength, hpart, List.take_eq_take_iff, List.length_drop]
      omega
    have hbound := h.bound
    have hoffset := h.offset
    refine ⟨select chunk, hout, hrows, by rw [hit]; exact hbuffer, ?_⟩
    rw [hit]
    refine { h with taken := ?_, offset := ?_, bound := ?_, fits := ?_, finished := ?_ }
    · rw [htaken, List.take_add, hnext]
    · simp only [hoffset]
      omega
    · omega
    · right
      omega
    · intro hshort
      simp only [hexhausted, Bool.false_or, decide_eq_true_eq] at hshort
      left
      omega

theorem At.addI64_seen (h : At (q.chunks chunkSize) (q.reached all) it given k) {front buffer : List (ResultRow L)}
    (hbuffer : it.buffer = front ++ buffer) : addI64 it.seen front.length = some (it.seen + front.length) := by
  have htaken := congrArg List.length h.taken
  rw [hbuffer, List.length_append, List.length_append, List.length_take] at htaken
  have hseen := h.seen
  have hstart : (q.chunks chunkSize).offset = offsetCount q.outerOffset := chunks_offset
  have hmax : 0 ≤ i64Max := by decide
  have hle : it.seen + front.length ≤ i64Max := by
    rcases h.fits with hzero | hfits <;> omega
  rw [addI64, if_pos hle]

theorem asks_eq (hbuffer : it.buffer = []) : it.asks = it.statement := by
  rw [asks, hbuffer, List.isEmpty_nil, if_pos rfl]

/-- What a call hands out is the next part of the window. -/
theorem At.step (h : At (q.chunks chunkSize) (q.reached all) it given k) (hset : q.Settled m db all)
    (hsize : 0 < chunkSize) (hstep : Step m db it call it' out) :
    (∃ k', At (q.chunks chunkSize) (q.reached all) it' (given ++ out.getD []) k') ∧ out ≠ some [] ∧
      (out = none → it'.buffer = [] ∧ it'.exhausted = true) := by
  obtain ⟨select, hselect, hnext⟩ := hstep
  cases hbuffer : it.buffer with
  | cons row buffer =>
    cases call with
    | nextChunk =>
      have hall : it.buffer = it.buffer ++ [] := by rw [List.append_nil]
      simp only [next, nextChunk, hbuffer, List.isEmpty_cons, Bool.false_eq_true, if_false] at hnext
      rw [← hbuffer, h.addI64_seen hall] at hnext
      cases hnext
      exact ⟨⟨k, h.drain hall⟩, by simp [hbuffer], by simp⟩
    | nextRow =>
      have hfront : it.buffer = [row] ++ buffer := hbuffer
      simp only [next, nextRow, hbuffer] at hnext
      rw [show (1 : Int) = ([row].length : Int) from rfl, h.addI64_seen hfront] at hnext
      cases hnext
      exact ⟨⟨k, h.drain hfront⟩, by simp, by simp⟩
  | nil =>
    rw [asks_eq hbuffer] at hselect
    cases hfetch : it.fetchNextChunk select with
    | none =>
      cases call <;> simp [next, nextChunk, nextRow, hbuffer, hfetch] at hnext
    | some result =>
      obtain ⟨it₁, out₁⟩ := result
      rcases h.fetch hset hsize hbuffer hselect hfetch with ⟨hout, hat, hempty, hdone⟩ | ⟨rows, hout, hrows, hempty, hat⟩
      · subst hout
        cases call with
        | nextChunk =>
          simp only [next, nextChunk, hbuffer, List.isEmpty_nil, if_true, hfetch, Option.bind_some] at hnext
          cases hnext
          exact ⟨⟨k, by rwa [Option.getD_none, List.append_nil]⟩, by simp, fun _ => ⟨hempty, hdone⟩⟩
        | nextRow =>
          simp only [next, nextRow, hbuffer, hfetch, Option.bind_some, Option.map_some, Option.map_none] at hnext
          cases hnext
          exact ⟨⟨k, by rwa [Option.getD_none, List.append_nil]⟩, by simp, fun _ => ⟨hempty, hdone⟩⟩
      · subst hout
        cases call with
        | nextChunk =>
          have hall : ({ it₁ with buffer := rows } : ChunkedIter L).buffer = rows ++ [] := by simp
          have hroom := hat.addI64_seen hall
          have hdrain := hat.drain hall
          simp only [next, nextChunk, hbuffer, List.isEmpty_nil, if_true, hfetch, Option.bind_some] at hnext hroom
          rw [hroom] at hnext
          cases hnext
          rw [← hempty] at hdrain
          exact ⟨⟨_, hdrain⟩, by simp [hrows], by simp⟩
        | nextRow =>
          cases rows with
          | nil => exact absurd rfl hrows
          | cons row buffer =>
            have hfront : ({ it₁ with buffer := row :: buffer } : ChunkedIter L).buffer = [row] ++ buffer := rfl
            have hroom := hat.addI64_seen hfront
            simp only [next, nextRow, hbuffer, hfetch, Option.bind_some] at hnext hroom
            rw [show (1 : Int) = ([row].length : Int) from rfl, hroom] at hnext
            cases hnext
            exact ⟨⟨_, hat.drain hfront⟩, by simp, by simp⟩

theorem step_finished (hbuffer : it.buffer = []) (hexhausted : it.exhausted = true)
    (hstep : Step m db it call it' out) : it' = it ∧ out = none := by
  obtain ⟨select, -, hnext⟩ := hstep
  have hsame : ({ it with exhausted := true } : ChunkedIter L) = it := by
    cases it
    cases hexhausted
    rfl
  have hfetch : it.fetchNextChunk select = some (it, none) := by
    rw [fetchNextChunk, statement, if_pos hexhausted]
    simp only [hsame]
  cases call with
  | nextChunk =>
    simp only [next, nextChunk, hbuffer, List.isEmpty_nil, if_true, hfetch, Option.bind_some] at hnext
    cases hnext
    exact ⟨rfl, rfl⟩
  | nextRow =>
    simp only [next, nextRow, hbuffer, hfetch, Option.bind_some, Option.map_some, Option.map_none] at hnext
    cases hnext
    exact ⟨rfl, rfl⟩

/-- A chunk overflows nothing where the window ends within the integers. -/
theorem At.fetch_succeeds (h : At (q.chunks chunkSize) (q.reached all) it given k) (hset : q.Settled m db all)
    (hroom : q.reached all = [] ∨ (q.chunks chunkSize).offset + (q.reached all).length ≤ i64Max)
    (hselect : ∀ chunk ∈ it.statement, chunk.Fetches m db (select chunk)) :
    ∃ result, it.fetchNextChunk select = some result := by
  unfold fetchNextChunk
  cases hchunk : it.statement with
  | none => exact ⟨_, rfl⟩
  | some chunk =>
    by_cases hrows : select chunk = []
    · simp [hrows]
    · have hempty : (select chunk).isEmpty = false := List.isEmpty_eq_false_iff.2 hrows
      have hlength := congrArg List.length ((h.select_eq hset hchunk).1 (hselect chunk hchunk))
      rw [List.length_take, List.length_drop] at hlength
      have hoffset := h.offset
      have hbound := h.bound
      have hpos := List.length_pos_of_ne_nil hrows
      have hne : q.reached all ≠ [] := by
        intro hnil
        rw [hnil] at hlength hbound
        simp only [List.length_nil] at hlength hbound
        omega
      have hle := hroom.resolve_left hne
      have hadd : it.offset + (select chunk).length ≤ i64Max := by omega
      simp [hempty, addI64, hadd]

theorem step_of_ne_none (hselect : ∀ chunk ∈ it.asks, chunk.Fetches m db (select chunk))
    (hnext : it.next select call ≠ none) : ∃ it' out, Step m db it call it' out := by
  obtain ⟨⟨it', out⟩, h⟩ := Option.ne_none_iff_exists'.1 hnext
  exact ⟨it', out, select, hselect, h⟩

/-- So every call succeeds. -/
theorem At.step_succeeds (h : At (q.chunks chunkSize) (q.reached all) it given k) (hset : q.Settled m db all)
    (hsize : 0 < chunkSize)
    (hroom : q.reached all = [] ∨ (q.chunks chunkSize).offset + (q.reached all).length ≤ i64Max) (call : Call) :
    ∃ it' out, Step m db it call it' out := by
  cases hbuffer : it.buffer with
  | cons row buffer =>
    have hnone : it.asks = none := by simp [asks, hbuffer]
    have hselect : ∀ chunk ∈ it.asks, chunk.Fetches m db ((fun _ => []) chunk) := by
      rw [hnone]
      intro chunk hchunk
      cases hchunk
    cases call with
    | nextChunk =>
      have hall : it.buffer = it.buffer ++ [] := by rw [List.append_nil]
      apply step_of_ne_none hselect
      simp only [next, nextChunk, hbuffer, List.isEmpty_cons, Bool.false_eq_true, if_false]
      rw [← hbuffer, h.addI64_seen hall]
      simp
    | nextRow =>
      have hfront : it.buffer = [row] ++ buffer := hbuffer
      apply step_of_ne_none hselect
      simp only [next, nextRow, hbuffer]
      rw [show (1 : Int) = ([row].length : Int) from rfl, h.addI64_seen hfront]
      simp
  | nil =>
    let select : SelectQuery L → List (ResultRow L) := fun _ => ((q.reached all).drop k).take it.size.toNat
    have hselect : ∀ chunk ∈ it.statement, chunk.Fetches m db (select chunk) :=
      fun chunk hchunk => (h.select_eq hset hchunk).2 rfl
    have hasks : ∀ chunk ∈ it.asks, chunk.Fetches m db (select chunk) := by
      rw [asks_eq hbuffer]
      exact hselect
    obtain ⟨⟨it₁, out₁⟩, hfetch⟩ := h.fetch_succeeds hset hroom hselect
    rcases h.fetch hset hsize hbuffer hselect hfetch with ⟨hout, -, -, -⟩ | ⟨rows, hout, hrows, -, hat⟩
    · subst hout
      apply step_of_ne_none hasks
      cases call <;> simp [next, nextChunk, nextRow, hbuffer, hfetch]
    · subst hout
      cases call with
      | nextChunk =>
        have hall : ({ it₁ with buffer := rows } : ChunkedIter L).buffer = rows ++ [] := by simp
        have hseen := hat.addI64_seen hall
        apply step_of_ne_none hasks
        simp only [next, nextChunk, hbuffer, List.isEmpty_nil, if_true, hfetch, Option.bind_some] at hseen ⊢
        rw [hseen]
        simp
      | nextRow =>
        cases rows with
        | nil => exact absurd rfl hrows
        | cons row buffer =>
          have hfront : ({ it₁ with buffer := row :: buffer } : ChunkedIter L).buffer = [row] ++ buffer := rfl
          have hseen := hat.addI64_seen hfront
          apply step_of_ne_none hasks
          simp only [next, nextRow, hbuffer, hfetch, Option.bind_some] at hseen ⊢
          rw [show (1 : Int) = ([row].length : Int) from rfl, hseen]
          simp

end Steps

theorem handed_append (outs : List (Option (List (ResultRow L)))) (out : Option (List (ResultRow L))) :
    handed (outs ++ [out]) = handed outs ++ out.getD [] := by
  simp [handed]

section Runs
variable {chunkSize : Int} {all : List (ResultRow L)} {outs : List (Option (List (ResultRow L)))} {it : ChunkedIter L}

/-- What a run has handed out: the first rows of the window, a row a call at least. -/
theorem Run.at_ (h : Run m db (q.chunks chunkSize) outs it) (hset : q.Settled m db all) (hsize : 0 < chunkSize) :
    (∃ k, At (q.chunks chunkSize) (q.reached all) it (handed outs) k) ∧
      (none ∈ outs → it.buffer = [] ∧ it.exhausted = true) ∧ (none ∉ outs → outs.length ≤ (handed outs).length) := by
  induction h with
  | nil => exact ⟨⟨0, at_first⟩, by simp, by simp [handed]⟩
  | step hrun hstep ih =>
    obtain ⟨⟨k, hat⟩, hdone, hcount⟩ := ih
    obtain ⟨hnext, hne, hend⟩ := hat.step hset hsize hstep
    rename_i outs it call it' out
    rw [handed_append]
    refine ⟨hnext, ?_, ?_⟩
    · intro hmem
      rcases List.mem_append.1 hmem with hmem | hmem
      · obtain ⟨hbuffer, hexhausted⟩ := hdone hmem
        obtain ⟨hsame, -⟩ := step_finished hbuffer hexhausted hstep
        rw [hsame]
        exact ⟨hbuffer, hexhausted⟩
      · exact hend (List.mem_singleton.1 hmem).symm
    · intro hmem
      have hbefore := hcount fun h => hmem (List.mem_append_left _ h)
      cases out with
      | none => exact absurd (List.mem_append_right outs List.mem_cons_self) hmem
      | some rows =>
        have hpos : 0 < rows.length := List.length_pos_of_ne_nil fun h => hne (by rw [h])
        simp only [List.length_append, List.length_singleton, Option.getD_some]
        omega

theorem handed_length_le (h : Run m db (q.chunks chunkSize) outs it) (hset : q.Settled m db all)
    (hsize : 0 < chunkSize) : (handed outs).length ≤ (q.reached all).length := by
  obtain ⟨⟨k, hat⟩, -⟩ := h.at_ hset hsize
  have htaken := congrArg List.length hat.taken
  have hbound := hat.bound
  rw [List.length_append, List.length_take] at htaken
  omega

/-- Within the integers the iterator hands out the rows that it may reach. -/
theorem drains_reached (hset : q.Settled m db all) (hsize : 0 < chunkSize)
    (hroom : q.reached all = [] ∨ (q.chunks chunkSize).offset + (q.reached all).length ≤ i64Max) :
    (q.chunks chunkSize).Drains m db (q.reached all) := by
  constructor
  · intro outs it hrun call
    obtain ⟨⟨k, hat⟩, -⟩ := hrun.at_ hset hsize
    exact hat.step_succeeds hset hsize hroom call
  · intro outs it hrun hmem
    obtain ⟨⟨k, hat⟩, hdone, -⟩ := hrun.at_ hset hsize
    obtain ⟨hbuffer, hexhausted⟩ := hdone hmem
    have htaken := hat.taken
    rw [hbuffer, List.append_nil] at htaken
    have hbound := hat.bound
    have hall : k = (q.reached all).length := by
      rcases hat.finished hexhausted with hall | hmax
      · exact hall
      · rcases hroom with hnil | hroom
        · rw [hnil] at hbound ⊢
          exact Nat.le_antisymm hbound (Nat.zero_le _)
        · omega
    rw [htaken, hall, List.take_length]
  · intro outs it hrun hmem call it' out hstep
    obtain ⟨-, hdone, -⟩ := hrun.at_ hset hsize
    obtain ⟨hbuffer, hexhausted⟩ := hdone hmem
    exact (step_finished hbuffer hexhausted hstep).2
  · intro outs it hrun hlong
    obtain ⟨-, -, hcount⟩ := hrun.at_ hset hsize
    have hle := handed_length_le hrun hset hsize
    by_contra hmem
    have hcalls := hcount hmem
    omega
  · intro outs it hrun
    obtain ⟨⟨k, hat⟩, -⟩ := hrun.at_ hset hsize
    exact hat.seen
  · intro outs it hrun chunk hchunk
    obtain ⟨⟨k, hat⟩, -⟩ := hrun.at_ hset hsize
    have hstatement : it.statement = some chunk := by
      unfold asks at hchunk
      split at hchunk
      · exact hchunk
      · cases hchunk
    obtain ⟨-, hpos, heq, hends⟩ := hat.statement_eq hstatement
    have hoffset := hat.offset
    have hstart : max (q.outerOffset.getD 0) 0 = (offsetCount q.outerOffset : Int) := by
      rw [offsetCount]
      omega
    rw [chunks_offset] at hoffset
    change q.InWindow chunk
    rw [heq]
    refine ⟨SelectQuery.unsliced_withWindow, it.size, it.offset, SelectQuery.outerLimit_withWindow,
      SelectQuery.outerOffset_withWindow, hpos, by omega, ?_⟩
    intro n hn
    have hfits := hends n hn
    omega

theorem exists_run_to_end {rows : List (ResultRow L)} (h : (q.chunks chunkSize).Drains m db rows) (calls : Nat) :
    ∃ outs it, Run m db (q.chunks chunkSize) outs it ∧ outs.length = calls := by
  induction calls with
  | zero => exact ⟨[], _, .nil, rfl⟩
  | succ calls ih =>
    obtain ⟨outs, it, hrun, hlength⟩ := ih
    obtain ⟨it', out, hstep⟩ := h.succeeds outs it hrun .nextChunk
    refine ⟨outs ++ [out], it', hrun.step hstep, ?_⟩
    rw [List.length_append, List.length_singleton, hlength]

end Runs

end ChunkedIter

/-- The window holds rows only where its limit is not negative and its end within the integers. -/
def SelectQuery.WindowFits (q : SelectQuery L) (all : List (ResultRow L)) : Prop :=
  slice q.outerLimit q.outerOffset all = [] ∨ (∀ n, q.outerLimit = some n → 0 ≤ n) ∧
    (offsetCount q.outerOffset : Int) + (slice q.outerLimit q.outerOffset all).length ≤ i64Max

private theorem limitCount_of_nonneg {limit : Option Int} (h : ∀ n, limit = some n → 0 ≤ n) :
    limitCount limit = limit.map Int.toNat := by
  cases limit with
  | none => rfl
  | some n =>
    have hn := h n rfl
    simp only [limitCount, Option.bind_some, if_neg (Int.not_lt.2 hn), Option.map_some]

theorem SelectQuery.WindowFits.reached_eq {all : List (ResultRow L)} (h : q.WindowFits all) :
    q.reached all = slice q.outerLimit q.outerOffset all := by
  by_cases hlimit : ∀ n, q.outerLimit = some n → 0 ≤ n
  · rw [reached, slice, limitCount_of_nonneg hlimit]
  · have hnil := h.resolve_right fun h => hlimit h.1
    rw [hnil, reached]
    cases hn : q.outerLimit with
    | none => exact absurd (fun n h => by rw [hn] at h; cases h) hlimit
    | some n =>
      have hneg : n.toNat = 0 := by
        by_contra hpos
        apply hlimit
        intro n' hn'
        obtain rfl : n = n' := Option.some.inj (hn.symm.trans hn')
        omega
      rw [Option.map_some, hneg, window_some_zero]

namespace QuerySet
variable (core : Core L) (m : Meaning L) (db : Database L)

/-- Iterating the queryset hands out what a fetch of it returns. -/
def IteratesAsFetched (qs : QuerySet L) (chunkSize : Int) (hsize : 0 < chunkSize) : Prop :=
  ∃ q it, qs.compile core = .ok q ∧ qs.iterator core chunkSize hsize = .ok it ∧
    ∀ rows, q.Fetches m db rows → it.Drains m db rows

variable {core} {m} {db}

/-- The iterator reads what a fetch reads just where the window fits. -/
theorem iterates_as_fetched_iff {qs : QuerySet L} (hq : qs.compile core = .ok q) {all : List (ResultRow L)}
    (hset : q.Settled m db all) (chunkSize : Int) (hsize : 0 < chunkSize) :
    qs.IteratesAsFetched core m db chunkSize hsize ↔ q.WindowFits all := by
  have hiter : qs.iterator core chunkSize hsize = .ok (q.chunks chunkSize) := by
    rw [iterator, hq]
    rfl
  constructor
  · intro h
    obtain ⟨q', it, hq', hit, hdrains⟩ := h
    obtain rfl : q = q' := Except.ok.inj (hq.symm.trans hq')
    obtain rfl : q.chunks chunkSize = it := Except.ok.inj (hiter.symm.trans hit)
    have hall := hdrains _ (hset.fetches_iff.2 rfl)
    obtain ⟨outs, it, hrun, hlength⟩ := ChunkedIter.exists_run_to_end hall
      ((slice q.outerLimit q.outerOffset all).length + 1)
    have hmem := hall.ends outs it hrun (by omega)
    have hhanded := hall.complete outs it hrun hmem
    obtain ⟨⟨k, hat⟩, hdone, -⟩ := hrun.at_ hset hsize
    have htaken := hat.taken
    rw [(hdone hmem).1, List.append_nil, hhanded] at htaken
    have hcount := congrArg List.length htaken
    rw [List.length_take] at hcount
    have hbound := hat.bound
    have hfits := hat.fits
    rw [ChunkedIter.chunks_offset] at hfits
    by_cases hnil : slice q.outerLimit q.outerOffset all = []
    · exact Or.inl hnil
    have hpos := List.length_pos_of_ne_nil hnil
    refine Or.inr ⟨?_, by omega⟩
    intro n hn
    by_contra hneg
    have hreached : q.reached all = [] := by
      rw [SelectQuery.reached, hn, Option.map_some, Int.toNat_of_nonpos (by omega), window_some_zero]
    rw [hreached] at hbound
    simp only [List.length_nil] at hbound
    omega
  · intro h
    refine ⟨q, _, hq, hiter, ?_⟩
    intro rows hrows
    rw [hset.fetches_iff] at hrows
    rw [hrows, ← h.reached_eq]
    apply ChunkedIter.drains_reached hset hsize
    rw [ChunkedIter.chunks_offset, h.reached_eq]
    exact h.imp id fun h => h.2

end QuerySet

private def booksById (limit : Int) : QuerySet IntLang := ((QuerySet.new book).orderBy_ [("id", false)]).limit_ limit

private def booksByIdFetch (limit : Int) : SelectQuery IntLang :=
  { SelectQuery.new book with
    orderBy := [.column "id" false .default]
    limit := some limit }

private theorem booksById_compile (limit : Int) :
    (booksById limit).compile bookCore = .ok (booksByIdFetch limit) := rfl

private theorem booksById_settled (limit : Int) :
    ∃ all, (booksByIdFetch limit).Settled intMeaning twoBooks all ∧
    2 = all.length := by
  have hscope : (booksByIdFetch limit).InScope intMeaning := by
    refine ⟨List.nodup_singleton _, List.nil_subset _, ?_⟩
    intro i hi
    obtain rfl := List.mem_singleton.1 hi
    exact List.nil_subset _
  have hrows : (booksByIdFetch limit).matching intMeaning twoBooks =
      [Env.base (bookRow 1 7), Env.base (bookRow 2 7)] := rfl
  have htotal : (booksByIdFetch limit).TotallyOrdered intMeaning twoBooks := by
    intro draw draw' a ha b hb hab hba
    rw [hrows] at ha hb
    have hle := hab.1
    have hge := hba.1
    simp only [List.mem_cons, List.not_mem_nil, or_false] at ha hb
    rcases ha with ha | ha <;> rcases hb with hb | hb <;> subst ha hb
    · rfl
    · exact absurd (show (2 : Int) ≤ 1 from hge) (by decide)
    · exact absurd (show (2 : Int) ≤ 1 from hle) (by decide)
    · rfl
  obtain ⟨all, hset⟩ := htotal.settled rfl hscope
  refine ⟨all, hset, ?_⟩
  have hfetches : (booksByIdFetch limit).unsliced.Fetches intMeaning twoBooks all := (hset all).2 rfl
  have hlength := (SelectQuery.fetches_unsliced_plain rfl).1 hfetches
  obtain ⟨-, draw, l, hl, -, hall⟩ := hlength
  have hperm := hl.length_eq
  rw [hrows] at hperm
  rw [hall, List.length_map]
  exact hperm

/-- An iterator over one book hands it out. -/
theorem first_book_iterates : (booksById 1).IteratesAsFetched bookCore intMeaning twoBooks 1 (by decide) := by
  obtain ⟨all, hset, hlength⟩ := booksById_settled 1
  apply (QuerySet.iterates_as_fetched_iff (booksById_compile 1) hset 1 (by decide)).2
  right
  constructor
  · intro n hn
    cases hn
    decide
  · have hle : (slice (some 1) none all).length ≤ 1 := List.length_take_le 1 _
    have hmax : (1 : Int) ≤ i64Max := by decide
    change (0 : Int) + ((slice (some 1) none all).length : Int) ≤ i64Max
    omega

/-- SQLite reads a negative limit as none and fetches both books; the iterator hands out no book. -/
theorem negative_limit_iterates_nothing : (∃ rows, (booksByIdFetch (-1)).Fetches intMeaning twoBooks rows ∧
      2 = rows.length) ∧
    ¬ (booksById (-1)).IteratesAsFetched bookCore intMeaning twoBooks 1 (by decide) := by
  obtain ⟨all, hset, hlength⟩ := booksById_settled (-1)
  have hfetch : (booksByIdFetch (-1)).Fetches intMeaning twoBooks all := hset.fetches_iff.2 rfl
  refine ⟨⟨all, hfetch, hlength⟩, ?_⟩
  intro h
  obtain ⟨q, it, hq, hit, hdrains⟩ := h
  obtain rfl : booksByIdFetch (-1) = q := Except.ok.inj ((booksById_compile (-1)).symm.trans hq)
  obtain rfl : (booksByIdFetch (-1)).chunks 1 = it := Except.ok.inj hit
  have hstep : ChunkedIter.Step intMeaning twoBooks ((booksByIdFetch (-1)).chunks 1) .nextChunk
      { (booksByIdFetch (-1)).chunks 1 with exhausted := true } none := by
    refine ⟨fun _ => [], ?_, rfl⟩
    intro q hq
    cases hq
  have hhanded := (hdrains all hfetch).complete _ _ (.step .nil hstep) List.mem_cons_self
  rw [← hhanded] at hlength
  cases hlength

end Rustango.Query
