import Rustango.Lib.Pieces
import Rustango.Query.LookupGrammar

/-!
# What a lookup key names

A key is a walk along foreign keys, a field of the model the walk reaches, and maybe a lookup. A key
can be read in several ways when a field is spelled like a lookup; the resolvers of `filter`,
`order_by` and `values` are compared with its readings.
-/

namespace Rustango.Query

open Rustango.Outcome Rustango.Pieces

variable {L : Lang}

/-- What may follow a field. -/
inductive Suffix where
  | exact
  | date (transform : DateFn) (op : Op)
  | lookup (l : Lookup)
deriving DecidableEq, Repr

def Suffix.ofSegments : List String → Option Suffix
  | [] => some .exact
  | [token] =>
    match dateTransformFn token with
    | some transform => some (.date transform .eq)
    | none => (lookupOf token).map .lookup
  | [token, trailing] => do
    let transform ← dateTransformFn token
    let op ← dateCompareOp trailing
    some (.date transform op)
  | _ => none

/-- One foreign key of a walk, at any depth. -/
def Hops.hop (core : Core L) (model : ModelSchema L) (h : Hops L) (seg : String) :
    Option (Hops L) := do
  let f ← h.current.field seg
  let relation ← f.relation
  let target ← core.forTable relation.target.1
  let alias_ := "__".intercalate (h.path.toList ++ [seg])
  let join := relationJoin target (h.prevAlias model) f.column alias_ relation.target.2 []
  some ⟨h.joins ++ [join], target, some alias_⟩

/-- The walk along foreign keys of these names. -/
def walk (core : Core L) (model : ModelSchema L) (fks : List String) : Option (Hops L) :=
  fks.foldlM (Hops.hop core model) ⟨[], model, none⟩

section Readings
variable (core : Core L) (model : ModelSchema L) (segs : List String)

/-- The segments of a key as a walk, a name, and what is left. -/
structure Path where
  fks : List String
  name : String
  rest : List String
  split : segs = fks ++ name :: rest
  hops : Hops L
  walked : walk core model fks = some hops

/-- A path to a field that is there, followed by nothing, a date part or a lookup. -/
structure Reading extends Path core model segs where
  field : FieldSchema
  found : hops.current.field name = some field
  suffix : Suffix
  spelled : Suffix.ofSegments rest = some suffix

end Readings

/-- The function, operator and value a suffix compares with. -/
def Suffix.comparison (g : Grammar L) (name text : String) (value : L.Value) :
    Suffix → Except QueryError (Option DateFn × Op × L.Value)
  | .exact => .ok (none, .eq, value)
  | .date transform op => .ok (some transform, op, value)
  | .lookup l => (l.read g name text value).map fun r => (none, r.1, r.2)

namespace Reading

variable {core : Core L} {model : ModelSchema L} {segs : List String} (g : Grammar L)
  (r : Reading core model segs)

/-- The predicate of a reading: on an own column, or on a column of the last join. -/
def predicate : Option DateFn × Op × L.Value → WhereExpr L Empty
  | (transform, op, value) =>
    match r.hops.path, transform with
    | none, none => .predicate ⟨r.field.column, op, value⟩
    | none, some transform => .exprCompare (g.call transform (.column r.field.column)) op (.literal value)
    | some alias_, none => .exprCompare (.aliasedColumn alias_ r.field.column) op (.literal value)
    | some alias_, some transform =>
      .exprCompare (g.call transform (.aliasedColumn alias_ r.field.column)) op (.literal value)

/-- The check of a predicate before it is used. -/
def check : Option DateFn × Op × L.Value → Except QueryError Unit
  | (transform, op, value) =>
    match r.hops.path, transform with
    | none, none => core.checkValueType model r.field op value
    | none, some _ => .ok ()
    | some _, _ => core.validate model (r.predicate g (transform, op, value))

/-- What a filter is when its key is read so. -/
def answer (value : L.Value) : Except QueryError (WhereExpr L Empty × List (Join L)) := do
  let c ← r.suffix.comparison g r.name ("__".intercalate r.rest) value
  r.check g c
  .ok (r.predicate g c, r.hops.joins)

end Reading

/-- What one `filter(key, value)` adds to a `SELECT`: its predicate and its joins. -/
def resolveFilter (core : Core L) (model : ModelSchema L) (key : String) (value : L.Value) :
    Except QueryError (WhereExpr L Empty × List (Join L)) := do
  let (pending, joins) ← convertRelationSpan core model [] (parseToPending core key value)
  let predicate ← resolveOnePending core model pending
  .ok (predicate, joins)

/-- The grammar takes the segments after the first for a suffix, right or wrong. -/
def takenAsSuffix : List String → Bool
  | [] => false
  | token :: trailing =>
    (dateTransformFn token).isSome || (lookupOf ("__".intercalate (token :: trailing))).isSome

/-- No walk competes with what the grammar takes for a suffix of the first segment. -/
def Unambiguous (core : Core L) (model : ModelSchema L) (segs : List String) : Prop :=
  takenAsSuffix segs.tail = true → ∀ r : Reading core model segs, r.fks = []

theorem segments_key (key : String) : Segments '_' (key.splitOn "__") := segments_splitOn '_' key

theorem splitOn_join {ps : List String} (h : Segments '_' ps) :
    ("__".intercalate ps).splitOn "__" = ps := splitOn_intercalate h

private theorem join_splitOn (s : String) : "__".intercalate (s.splitOn "__") = s := intercalate_splitOn '_' s

private theorem splitOn_entry {α : Type} {table : List (String × α)}
    (h : ∀ e ∈ table, pieces '_' e.1.toList = [e.1.toList]) {s : String} {a : α}
    (hs : table.lookup s = some a) : s.splitOn "__" = [s] := by
  obtain ⟨l, r, rfl, -⟩ := List.lookup_eq_some_iff.mp hs
  have hentry := h (s, a) (List.mem_append_right l List.mem_cons_self)
  have hsplit : s.splitOn "__" = (pieces '_' s.toList).map String.ofList := splitOn_doubled '_' s
  rw [hsplit, hentry, List.map_singleton, String.ofList_toList]

private theorem dateCompareOp_splitOn {s : String} {op : Op} (h : dateCompareOp s = some op) :
    s.splitOn "__" = [s] := splitOn_entry (by decide) h

private theorem lookupOf_splitOn {s : String} {l : Lookup} (h : lookupOf s = some l) :
    s.splitOn "__" = [s] := splitOn_entry (by decide +kernel) h

private theorem lookup_join_eq_none {α : Type} {lookup : String → Option α}
    (h : ∀ {s a}, lookup s = some a → s.splitOn "__" = [s]) {s t : String} {ps : List String}
    (hs : Segments '_' (s :: t :: ps)) : lookup ("__".intercalate (s :: t :: ps)) = none := by
  cases ha : lookup ("__".intercalate (s :: t :: ps)) with
  | none => rfl
  | some a =>
    have hone := h ha
    rw [splitOn_join hs] at hone
    exact absurd (congrArg List.length hone) (by simp)

section Grammar
variable (g : Grammar L)

/-- What the grammar makes of a comparison of `name`. -/
def parsed (name : String) : Option DateFn × Op × L.Value → ParsedLookup L
  | (none, op, value) => .raw name op value
  | (some transform, op, value) => .dateTransform name (g.call transform) op value

private theorem parseLookup_eq {key name : String} {rest : List String} (value : L.Value)
    (hkey : key.splitOn "__" = name :: rest) : g.parseLookup key value =
      match Suffix.ofSegments rest with
      | some s => (s.comparison g name ("__".intercalate rest) value).map (parsed g name)
      | none =>
        if takenAsSuffix rest then .error (.unknownLookup name ("__".intercalate rest))
        else .ok (.relationSpan key value) := by
  have hsegs : Segments '_' (name :: rest) := hkey ▸ segments_key key
  rw [Grammar.parseLookup, hkey]
  match rest with
  | [] =>
    have hone := join_splitOn key
    rw [hkey, String.intercalate_singleton] at hone
    rw [← hone]
    rfl
  | [token] =>
    simp only [String.intercalate_singleton, Suffix.ofSegments, takenAsSuffix]
    cases dateTransformFn token with
    | some transform => rfl
    | none =>
      cases lookupOf token with
      | none => rfl
      | some l =>
        simp only [Option.map_some, Suffix.comparison]
        cases l.read g name token value <;> rfl
  | [token, trailing] =>
    have hnone := lookup_join_eq_none lookupOf_splitOn hsegs.tail
    simp only [String.intercalate_singleton, Suffix.ofSegments, takenAsSuffix, hnone]
    cases dateTransformFn token with
    | none => rfl
    | some transform =>
      cases dateCompareOp trailing <;> simp [Suffix.comparison, parsed, Except.map]
  | token :: t :: t' :: ps =>
    have hnone := lookup_join_eq_none lookupOf_splitOn hsegs.tail
    have hno := lookup_join_eq_none dateCompareOp_splitOn hsegs.tail.tail
    simp only [Suffix.ofSegments, takenAsSuffix, hnone]
    cases dateTransformFn token with
    | none => rfl
    | some transform => simp only [hno, Option.isSome_some, Bool.true_or, if_true]

end Grammar

section Walks
variable {core : Core L} {model : ModelSchema L}

theorem hop_eq_some {h h' : Hops L} {seg : String} :
    h.hop core model seg = some h' ↔ ∃ f relation target,
      h.current.field seg = some f ∧ f.relation = some relation ∧
      core.forTable relation.target.1 = some target ∧
      h' = ⟨h.joins ++ [relationJoin target (h.prevAlias model) f.column
        ("__".intercalate (h.path.toList ++ [seg])) relation.target.2 []], target,
        some ("__".intercalate (h.path.toList ++ [seg]))⟩ := by
  simp only [Hops.hop, Option.bind_eq_bind, Option.bind_eq_some_iff, Option.some.injEq]
  constructor
  · rintro ⟨f, hf, relation, hr, target, ht, rfl⟩
    exact ⟨f, relation, target, hf, hr, ht, rfl⟩
  · rintro ⟨f, relation, target, hf, hr, ht, rfl⟩
    exact ⟨f, hf, relation, hr, target, ht, rfl⟩

theorem walk_snoc {fks : List String} {seg : String} {h : Hops L} :
    walk core model (fks ++ [seg]) = some h ↔
      ∃ h', walk core model fks = some h' ∧ h'.hop core model seg = some h := by
  rw [walk, List.foldlM_append, Option.bind_eq_bind, Option.bind_eq_some_iff]
  simp [walk]

private theorem intercalate_snoc {fks : List String} (hne : fks ≠ []) (seg : String) :
    "__".intercalate ["__".intercalate fks, seg] = "__".intercalate (fks ++ [seg]) := by
  rw [String.intercalate_append_of_ne_nil hne (List.cons_ne_nil seg []), String.intercalate_cons_cons,
    String.intercalate_singleton]

private theorem length_snoc {fks : List String} (hne : fks ≠ []) (seg : String) :
    ("__".intercalate (fks ++ [seg])).length = ("__".intercalate fks).length + 2 + seg.length := by
  have h2 : "__".length = 2 := by decide
  rw [String.intercalate_append_of_ne_nil hne (List.cons_ne_nil seg []), String.length_append,
    String.length_append, String.intercalate_singleton, h2]

/-- The alias of a walk is its path. -/
theorem walk_path {fks : List String} {h : Hops L} (hw : walk core model fks = some h) :
    h.path = if fks = [] then none else some ("__".intercalate fks) := by
  induction fks using List.reverseRecOn generalizing h with
  | nil =>
    obtain rfl := Option.some.inj hw
    rfl
  | append_singleton fks seg ih =>
    obtain ⟨h', hw', hstep⟩ := walk_snoc.mp hw
    obtain ⟨f, relation, target, -, -, -, rfl⟩ := hop_eq_some.mp hstep
    have hpath := ih hw'
    have hne : fks ++ [seg] ≠ [] := by simp
    rw [if_neg hne, Option.some.injEq]
    by_cases hfks : fks = []
    · rw [hpath, if_pos hfks, hfks]
      rfl
    · rw [hpath, if_neg hfks]
      exact intercalate_snoc hfks seg

private theorem walk_joins {fks : List String} {h : Hops L} (hw : walk core model fks = some h) :
    h.joins.length = fks.length ∧ (∀ j ∈ h.joins, j.alias_.length ≤ ("__".intercalate fks).length) ∧
      h.joins.Pairwise fun i j => i.alias_ ≠ j.alias_ := by
  induction fks using List.reverseRecOn generalizing h with
  | nil =>
    obtain rfl := Option.some.inj hw
    exact ⟨rfl, by simp, List.Pairwise.nil⟩
  | append_singleton fks seg ih =>
    obtain ⟨h', hw', hstep⟩ := walk_snoc.mp hw
    have hpath := walk_path hw
    obtain ⟨f, relation, target, -, -, -, rfl⟩ := hop_eq_some.mp hstep
    obtain ⟨hlen, hle, hpair⟩ := ih hw'
    have hne : fks ++ [seg] ≠ [] := by simp
    rw [if_neg hne, Option.some.injEq] at hpath
    dsimp only
    rw [hpath]
    -- The aliases so far are shorter than the new one.
    have hlt : ∀ j ∈ h'.joins, j.alias_.length < ("__".intercalate (fks ++ [seg])).length := by
      intro j hj
      by_cases hfks : fks = []
      · rw [hfks] at hlen
        rw [List.eq_nil_of_length_eq_zero hlen] at hj
        cases hj
      · have hgrow := length_snoc hfks seg
        have hj := hle j hj
        omega
    refine ⟨by simp [hlen], ?_, ?_⟩
    · intro j hj
      rcases List.mem_append.mp hj with hj | hj
      · exact (hlt j hj).le
      · obtain rfl := List.mem_singleton.mp hj
        exact le_rfl
    · refine List.pairwise_append.mpr ⟨hpair, List.pairwise_singleton _ _, ?_⟩
      intro i hi j hj
      obtain rfl := List.mem_singleton.mp hj
      intro heq
      have hi := hlt i hi
      rw [heq] at hi
      exact lt_irrefl _ hi

private theorem foldl_pushJoin_distinct {js acc : List (Join L)}
    (h : (acc ++ js).Pairwise fun i j => i.alias_ ≠ j.alias_) : js.foldl pushJoin acc = acc ++ js := by
  induction js generalizing acc with
  | nil => exact (List.append_nil acc).symm
  | cons j js ih =>
    have hnew : ¬ (acc.any fun e => e.alias_ = j.alias_) = true := by
      intro hany
      obtain ⟨e, he, heq⟩ := List.any_eq_true.mp hany
      exact (List.pairwise_append.mp h).2.2 e he j List.mem_cons_self (of_decide_eq_true heq)
    rw [List.append_cons] at h
    rw [List.foldl_cons, pushJoin, if_neg hnew, ih h, List.append_assoc, List.singleton_append]

/-- The alias of the next foreign key, which is refused past the deepest path. -/
theorem nextAlias_eq {fks : List String} {h : Hops L} {seg : String}
    (hw : walk core model fks = some h) (hs : Segments '_' (fks ++ [seg])) :
    h.nextAlias seg =
      if maxRelationHops < (fks ++ [seg]).length then
        .error (.relationPathTooDeep ("__".intercalate (fks ++ [seg])) maxRelationHops)
      else .ok ("__".intercalate (h.path.toList ++ [seg])) := by
  have hpath := walk_path hw
  by_cases hfks : fks = []
  · rw [if_pos hfks] at hpath
    have hshallow : ¬ maxRelationHops < (fks ++ [seg]).length := by
      simp [hfks, maxRelationHops]
    rw [Hops.nextAlias, hpath, if_neg hshallow]
    rfl
  · rw [if_neg hfks] at hpath
    have htext : "__".intercalate fks ++ "__" ++ seg = "__".intercalate (fks ++ [seg]) := by
      rw [String.intercalate_append_of_ne_nil hfks (List.cons_ne_nil seg []),
        String.intercalate_singleton]
    have hchain : "__".intercalate (h.path.toList ++ [seg]) = "__".intercalate (fks ++ [seg]) := by
      rw [hpath]
      exact intercalate_snoc hfks seg
    rw [hchain, Hops.nextAlias, hpath]
    dsimp only
    rw [htext, internJoinAlias, splitOn_join hs]

/-- A walk goes no further than `name`. -/
def Stops (h : Hops L) (name : String) (rest : List String) : Prop :=
  rest = [] ∨ ∀ f, h.current.field name = some f → f.relation = none

private theorem spanHops_stop {h : Hops L} {name : String} {rest : List String} (hstop : Stops h name rest) :
    spanHops core model h (name :: rest) = .ok (h, name :: rest) := by
  cases rest with
  | nil => rw [spanHops]
  | cons t rest =>
    have hfield := hstop.resolve_left (List.cons_ne_nil t rest)
    have hnone : ((h.current.field name).bind fun f => f.relation.map fun r => (f, r.target)) = none := by
      cases hf : h.current.field name with
      | none => rfl
      | some f => simp [hfield f hf]
    rw [spanHops, hnone]
    simp

private theorem spanHops_hop {done : List String} {h : Hops L} {seg t : String} {rest : List String}
    {f : FieldSchema} {relation : Relation} (hw : walk core model done = some h)
    (hs : Segments '_' (done ++ [seg])) (hf : h.current.field seg = some f)
    (hr : f.relation = some relation) {x : Hops L × List String} :
    spanHops core model h (seg :: t :: rest) = .ok x ↔ ∃ h', h.hop core model seg = some h' ∧
      (done ++ [seg]).length ≤ maxRelationHops ∧ spanHops core model h' (t :: rest) = .ok x := by
  have hfield : ((h.current.field seg).bind fun f => f.relation.map fun r => (f, r.target)) =
      some (f, relation.target) := by
    rw [hf, Option.bind_some, hr, Option.map_some]
  rw [spanHops, hfield]
  · dsimp only
    simp only [bind_eq_ok, okOr_eq_ok, nextAlias_eq hw hs]
    constructor
    · rintro ⟨target, ht, alias_, ha, hx⟩
      split at ha
      · cases ha
      · rename_i hdepth
        obtain rfl := Except.ok.inj ha
        exact ⟨_, hop_eq_some.mpr ⟨f, relation, target, hf, hr, ht, rfl⟩, Nat.le_of_not_lt hdepth, hx⟩
    · rintro ⟨h', hh, hdepth, hx⟩
      obtain ⟨f', relation', target, hf', hr', ht, rfl⟩ := hop_eq_some.mp hh
      obtain rfl := Option.some.inj (hf.symm.trans hf')
      obtain rfl := Option.some.inj (hr.symm.trans hr')
      exact ⟨target, ht, _, if_neg (Nat.not_lt.mpr hdepth), hx⟩
  · simp

private theorem spanHops_of_walk {done fks : List String} {h h' : Hops L} {name : String} {rest : List String}
    (hw : walk core model done = some h) (hs : Segments '_' (done ++ (fks ++ name :: rest)))
    (hwalk : fks.foldlM (Hops.hop core model) h = some h') (hdepth : (done ++ fks).length ≤ maxRelationHops)
    (hstop : Stops h' name rest) :
    spanHops core model h (fks ++ name :: rest) = .ok (h', name :: rest) := by
  induction fks generalizing done h with
  | nil =>
    obtain rfl := Option.some.inj hwalk
    exact spanHops_stop hstop
  | cons seg fks ih =>
    obtain ⟨h1, hh, hwalk⟩ := Option.bind_eq_some_iff.mp hwalk
    obtain ⟨t, ts, hts⟩ := List.exists_cons_of_ne_nil (List.append_ne_nil_of_right_ne_nil fks
      (List.cons_ne_nil name rest))
    obtain ⟨f, relation, target, hf, hr, -, -⟩ := hop_eq_some.mp hh
    have hs' : Segments '_' (done ++ [seg] ++ (fks ++ name :: rest)) := by simpa using hs
    have hdepth' : (done ++ [seg] ++ fks).length ≤ maxRelationHops := by simpa using hdepth
    have hshallow : (done ++ [seg]).length ≤ maxRelationHops := by
      rw [List.length_append] at hdepth'
      omega
    have hrest := ih (walk_snoc.mpr ⟨h, hw, hh⟩) hs' hwalk hdepth'
    rw [hts] at hrest
    rw [List.cons_append, hts]
    exact (spanHops_hop hw (hs'.left (by simp)) hf hr).mpr ⟨h1, hh, hshallow, hrest⟩

private theorem walk_of_spanHops {done segs : List String} {h h' : Hops L} {terminal : List String}
    (hne : segs ≠ []) (hw : walk core model done = some h) (hs : Segments '_' (done ++ segs))
    (hspan : spanHops core model h segs = .ok (h', terminal)) :
    ∃ fks name rest, segs = fks ++ name :: rest ∧ fks.foldlM (Hops.hop core model) h = some h' ∧
      terminal = name :: rest ∧ (fks = [] ∨ (done ++ fks).length ≤ maxRelationHops) ∧
      Stops h' name rest := by
  induction segs generalizing done h with
  | nil => exact absurd rfl hne
  | cons seg segs ih =>
    have hhere : Stops h seg segs → ∃ fks name rest, seg :: segs = fks ++ name :: rest ∧
        fks.foldlM (Hops.hop core model) h = some h' ∧ terminal = name :: rest ∧
        (fks = [] ∨ (done ++ fks).length ≤ maxRelationHops) ∧ Stops h' name rest := by
      intro hstop
      rw [spanHops_stop hstop] at hspan
      obtain ⟨rfl, rfl⟩ := Prod.mk.inj (Except.ok.inj hspan)
      exact ⟨[], seg, segs, rfl, rfl, rfl, Or.inl rfl, hstop⟩
    cases segs with
    | nil => exact hhere (Or.inl rfl)
    | cons t ts =>
      by_cases hfk : ∃ f relation, h.current.field seg = some f ∧ f.relation = some relation
      · obtain ⟨f, relation, hf, hr⟩ := hfk
        have hs' : Segments '_' (done ++ [seg] ++ (t :: ts)) := by simpa using hs
        obtain ⟨h1, hh, hshallow, hrest⟩ := (spanHops_hop hw (hs'.left (by simp)) hf hr).mp hspan
        obtain ⟨fks, name, rest, hsplit, hwalk, hterm, hdepth, hstop⟩ :=
          ih (List.cons_ne_nil t ts) (walk_snoc.mpr ⟨h, hw, hh⟩) hs' hrest
        have hfull : (done ++ seg :: fks).length ≤ maxRelationHops := by
          rcases hdepth with rfl | hdepth
          · exact hshallow
          · simpa using hdepth
        exact ⟨seg :: fks, name, rest, congrArg (seg :: ·) hsplit,
          Option.bind_eq_some_iff.mpr ⟨h1, hh, hwalk⟩, hterm, Or.inr hfull, hstop⟩
      · refine hhere (Or.inr fun f hf => ?_)
        cases hr : f.relation with
        | none => rfl
        | some relation => exact absurd ⟨f, relation, hf, hr⟩ hfk

end Walks

section Chain
variable {core : Core L} {model : ModelSchema L} {key : String}

/-- The resolvers walk to the deepest path of the key, when it is one they may walk. -/
theorem resolveSpanChain_eq_ok {h : Hops L} {terminal : List String} :
    resolveSpanChain core model key = .ok (h, terminal) ↔
      ∃ p : Path core model (key.splitOn "__"), p.hops = h ∧ terminal = p.name :: p.rest ∧
        p.fks ≠ [] ∧ p.fks.length ≤ maxRelationHops ∧ Stops p.hops p.name p.rest := by
  have hne := (segments_key key).ne_nil
  have hstart : walk core model [] = some ⟨[], model, none⟩ := rfl
  rw [resolveSpanChain, bind_eq_ok]
  constructor
  · rintro ⟨⟨h', terminal'⟩, hspan, hx⟩
    obtain ⟨fks, name, rest, hsplit, hwalk, rfl, hdepth, hstop⟩ :=
      walk_of_spanHops hne hstart (segments_key key) hspan
    dsimp only at hx
    split at hx
    · cases hx
    · rename_i hjoins
      obtain ⟨rfl, rfl⟩ := Prod.mk.inj (Except.ok.inj hx)
      have hlen := (walk_joins hwalk).1
      have hfks : fks ≠ [] := by
        rintro rfl
        exact hjoins (List.isEmpty_iff.mpr (List.eq_nil_of_length_eq_zero hlen))
      exact ⟨⟨fks, name, rest, hsplit, h', hwalk⟩, rfl, rfl, hfks, hdepth.resolve_left hfks, hstop⟩
  · rintro ⟨p, rfl, rfl, hfks, hdepth, hstop⟩
    have hsegs := segments_key key
    have hspan := spanHops_of_walk hstart (p.split ▸ hsegs) p.walked hdepth hstop
    rw [← p.split] at hspan
    refine ⟨_, hspan, ?_⟩
    have hlen := (walk_joins p.walked).1
    have hjoins : ¬ p.hops.joins.isEmpty = true := by
      intro hempty
      rw [List.isEmpty_iff.mp hempty] at hlen
      exact hfks (List.eq_nil_of_length_eq_zero hlen.symm)
    dsimp only
    rw [if_neg hjoins]

/-- No path of the key goes further than one that stops. -/
theorem Path.longest {segs : List String} (p q : Path core model segs)
    (hstop : Stops p.hops p.name p.rest) : q.fks.length ≤ p.fks.length := by
  have hsplit := p.split.symm.trans q.split
  rcases List.append_eq_append_iff.mp hsplit with ⟨mid, hq, hmid⟩ | ⟨mid, hp, -⟩
  · cases mid with
    | nil => rw [hq, List.append_nil]
    | cons seg mid =>
      -- `q` takes the name `p` stops at for a foreign key.
      obtain ⟨rfl, hrest⟩ := List.cons.inj hmid
      have hwalk := q.walked
      rw [hq, walk, List.foldlM_append, Option.bind_eq_bind] at hwalk
      obtain ⟨h, hw, hwalk⟩ := Option.bind_eq_some_iff.mp hwalk
      obtain rfl := Option.some.inj (p.walked.symm.trans hw)
      obtain ⟨h', hh, -⟩ := Option.bind_eq_some_iff.mp hwalk
      obtain ⟨f, relation, target, hf, hr, -, -⟩ := hop_eq_some.mp hh
      have hfield := hstop.resolve_left (hrest ▸ by simp) f hf
      rw [hfield] at hr
      cases hr
  · rw [hp, List.length_append]
    omega

end Chain

section Filter
variable {core : Core L} {model : ModelSchema L} {key : String} {g : Grammar L}
  (hg : core.parseLookup = g.parseLookup)

theorem Path.prevAlias {segs : List String} (p : Path core model segs) (hfks : p.fks ≠ []) :
    p.hops.path = some (p.hops.prevAlias model) := by
  have hpath := walk_path p.walked
  rw [if_neg hfks] at hpath
  rw [Hops.prevAlias, hpath, Option.getD_some]

theorem Path.segments_right (p : Path core model (key.splitOn "__")) :
    Segments '_' (p.name :: p.rest) := by
  have hsegs := segments_key key
  rw [p.split] at hsegs
  exact hsegs.right (List.cons_ne_nil p.name p.rest)

private theorem field_name {m : ModelSchema L} {name : String} {f : FieldSchema} (h : m.field name = some f) :
    f.name = name := by
  have hfound := List.find?_some h
  exact of_decide_eq_true hfound

private theorem splitOn_rest {name t : String} {ts : List String} (hs : Segments '_' (name :: t :: ts)) :
    (name ++ "__" ++ "__".intercalate (t :: ts)).splitOn "__" = name :: t :: ts := by
  rw [← String.intercalate_cons_cons, splitOn_join hs]

include hg in
private theorem resolveSpan_eq (r : Reading core model (key.splitOn "__")) (hfks : r.fks ≠ [])
    (hdepth : r.fks.length ≤ maxRelationHops) (hstop : Stops r.hops r.name r.rest) (value : L.Value) :
    resolveSpan core model key value =
      (r.suffix.comparison g r.name ("__".intercalate r.rest) value).map fun c =>
        (r.hops.joins, r.predicate g c) := by
  have hchain := resolveSpanChain_eq_ok.mpr ⟨r.toPath, rfl, rfl, hfks, hdepth, hstop⟩
  have hpath := r.prevAlias hfks
  have hname := field_name r.found
  have hfield (e : QueryError) : okOr (r.hops.current.field r.name) e = .ok r.field :=
    okOr_eq_ok.mpr r.found
  have hsplit := r.segments_right
  have hspelled := r.spelled
  simp only [resolveSpan, hchain, ok_bind, List.headD_cons, List.tail_cons, hfield, hname]
  unfold Reading.predicate
  simp only [hpath]
  cases hrest : r.rest with
  | nil =>
    rw [hrest, Suffix.ofSegments, Option.some.injEq] at hspelled
    rw [← hspelled]
    rfl
  | cons t ts =>
    rw [hrest] at hspelled hsplit
    dsimp only
    rw [hg, parseLookup_eq g value (splitOn_rest hsplit), hspelled]
    dsimp only
    cases r.suffix.comparison g r.name ("__".intercalate (t :: ts)) value with
    | error e => rfl
    | ok c =>
      obtain ⟨transform, op, v⟩ := c
      cases transform <;> rfl

include hg in
private theorem reading_of_resolveSpan {value : L.Value} {x : List (Join L) × WhereExpr L Empty}
    (hx : resolveSpan core model key value = .ok x) :
    ∃ r : Reading core model (key.splitOn "__"), r.fks ≠ [] ∧ r.fks.length ≤ maxRelationHops ∧
      Stops r.hops r.name r.rest := by
  obtain ⟨⟨h, terminal⟩, hchain, hx⟩ := bind_eq_ok.mp hx
  obtain ⟨p, rfl, rfl, hfks, hdepth, hstop⟩ := resolveSpanChain_eq_ok.mp hchain
  dsimp only at hx
  obtain ⟨field, hfield, hx⟩ := bind_eq_ok.mp hx
  have hfound : p.hops.current.field p.name = some field := okOr_eq_ok.mp hfield
  have hname := field_name hfound
  have hsplit := p.segments_right
  have hspelled : ∃ s, Suffix.ofSegments p.rest = some s := by
    cases hrest : p.rest with
    | nil => exact ⟨.exact, rfl⟩
    | cons t ts =>
      rw [hrest] at hsplit
      cases hs : Suffix.ofSegments (t :: ts) with
      | some s => exact ⟨s, rfl⟩
      | none =>
        have hparse := parseLookup_eq g value (splitOn_rest hsplit)
        simp only [List.tail_cons, hrest, hname, hg, hparse, hs] at hx
        split at hx <;> cases hx
  obtain ⟨s, hs⟩ := hspelled
  exact ⟨⟨p, field, hfound, s, hs⟩, hfks, hdepth, hstop⟩

private theorem takenAsSuffix_of_ofSegments {rest : List String} {s : Suffix} (hne : rest ≠ [])
    (h : Suffix.ofSegments rest = some s) : takenAsSuffix rest = true := by
  match rest with
  | [token] =>
    rw [Suffix.ofSegments] at h
    rw [takenAsSuffix, String.intercalate_singleton]
    cases ht : dateTransformFn token with
    | some transform => rfl
    | none =>
      rw [ht] at h
      obtain ⟨l, hl, -⟩ := Option.map_eq_some_iff.mp h
      rw [hl]
      rfl
  | [token, trailing] =>
    obtain ⟨transform, ht, -⟩ := Option.bind_eq_some_iff.mp h
    rw [takenAsSuffix, ht]
    rfl

include hg in
private theorem resolveFilter_own (r : Reading core model (key.splitOn "__")) (hfks : r.fks = [])
    (value : L.Value) : resolveFilter core model key value = r.answer g value := by
  have hkey : key.splitOn "__" = r.name :: r.rest := r.split.trans (by rw [hfks, List.nil_append])
  have hwalk := r.walked
  rw [hfks] at hwalk
  have hhops : r.hops = ⟨[], model, none⟩ := (Option.some.inj hwalk).symm
  have hfound := r.found
  rw [hhops] at hfound
  have hfield (e : QueryError) : okOr (model.field r.name) e = .ok r.field := okOr_eq_ok.mpr hfound
  simp only [resolveFilter, parseToPending, hg, parseLookup_eq g value hkey, r.spelled,
    Reading.answer]
  cases r.suffix.comparison g r.name ("__".intercalate r.rest) value with
  | error e => rfl
  | ok c =>
    obtain ⟨transform, op, v⟩ := c
    cases transform with
    | none =>
      simp only [Except.map, parsed, convertRelationSpan, ok_bind, resolveOnePending, hfield,
        Reading.check, Reading.predicate, hhops]
      cases core.checkValueType model r.field op v <;> rfl
    | some transform =>
      simp only [Except.map, parsed, convertRelationSpan, ok_bind, resolveOnePending, hfield,
        Reading.check, Reading.predicate, hhops]

private theorem resolveFilter_span {value : L.Value}
    (hspan : core.parseLookup key value = .ok (.relationSpan key value)) :
    resolveFilter core model key value = (do
      let (js, w) ← resolveSpan core model key value
      core.validate model w
      .ok (w, js.foldl pushJoin [])) := by
  simp only [resolveFilter, parseToPending, hspan, convertRelationSpan]
  cases resolveSpan core model key value with
  | error e => rfl
  | ok x =>
    simp only [ok_bind, resolveOnePending]
    cases core.validate model x.2 <;> rfl

include hg in
private theorem resolveFilter_related (r : Reading core model (key.splitOn "__")) (hfks : r.fks ≠ [])
    (hdepth : r.fks.length ≤ maxRelationHops) (hstop : Stops r.hops r.name r.rest) {value : L.Value}
    (hspan : core.parseLookup key value = .ok (.relationSpan key value)) :
    resolveFilter core model key value = r.answer g value := by
  have hpath := r.prevAlias hfks
  have hjoins : r.hops.joins.foldl pushJoin [] = r.hops.joins :=
    foldl_pushJoin_distinct (walk_joins r.walked).2.2
  rw [resolveFilter_span hspan, resolveSpan_eq hg r hfks hdepth hstop, Reading.answer]
  cases r.suffix.comparison g r.name ("__".intercalate r.rest) value with
  | error e => rfl
  | ok c =>
    obtain ⟨transform, op, v⟩ := c
    simp only [Except.map, ok_bind, hjoins, Reading.check, hpath]

include hg in
private theorem reading_of_resolveFilter {value : L.Value} {x : WhereExpr L Empty × List (Join L)}
    (hx : resolveFilter core model key value = .ok x) :
    ∃ r : Reading core model (key.splitOn "__"), r.answer g value = .ok x ∧
      (r.fks = [] ∨ r.fks.length ≤ maxRelationHops ∧ Stops r.hops r.name r.rest) := by
  obtain ⟨name, rest, hkey⟩ := List.exists_cons_of_ne_nil (segments_key key).ne_nil
  have hparse := parseLookup_eq g value hkey
  rw [← hg] at hparse
  cases hs : Suffix.ofSegments rest with
  | some s =>
    have hfield : ∃ f, model.field name = some f := by
      cases hf : model.field name with
      | some f => exact ⟨f, rfl⟩
      | none =>
        have hno (e : QueryError) : okOr (model.field name) e = .error e := by rw [hf, okOr]
        rw [hs] at hparse
        simp only [resolveFilter, parseToPending, hparse] at hx
        cases hc : s.comparison g name ("__".intercalate rest) value with
        | error e => simp [hc, Except.map, convertRelationSpan, resolveOnePending] at hx
        | ok c =>
          obtain ⟨transform, op, v⟩ := c
          cases transform <;>
            simp [hc, Except.map, parsed, convertRelationSpan, resolveOnePending, hno] at hx
    obtain ⟨f, hf⟩ := hfield
    let r : Reading core model (key.splitOn "__") :=
      { fks := [], name := name, rest := rest, split := hkey, hops := ⟨[], model, none⟩, walked := rfl
        field := f, found := hf, suffix := s, spelled := hs }
    exact ⟨r, (resolveFilter_own hg r rfl value).symm.trans hx, Or.inl rfl⟩
  | none =>
    rw [hs] at hparse
    dsimp only at hparse
    split at hparse
    · simp [resolveFilter, parseToPending, hparse, convertRelationSpan, resolveOnePending] at hx
    · have hspan := hx
      rw [resolveFilter_span hparse] at hspan
      obtain ⟨y, hy, -⟩ := bind_eq_ok.mp hspan
      obtain ⟨r, hfks, hdepth, hstop⟩ := reading_of_resolveSpan hg hy
      exact ⟨r, (resolveFilter_related hg r hfks hdepth hstop hparse).symm.trans hx,
        Or.inr ⟨hdepth, hstop⟩⟩

end Filter

section Order
variable {core : Core L} {model : ModelSchema L} {key : String}

private theorem field_column {m : ModelSchema L} {column : String} {f : FieldSchema}
    (h : m.fieldByColumn column = some f) : f.column = column := by
  have hfound := List.find?_some h
  exact of_decide_eq_true hfound

theorem Path.several {segs : List String} (p : Path core model segs) (hfks : p.fks ≠ []) :
    1 < segs.length := by
  have hpos := List.length_pos_iff.mpr hfks
  rw [p.split, List.length_append, List.length_cons]
  omega

private theorem lowerOrderItem_eq_ok {desc : Bool} {nulls : NullsOrder} {x : OrderItem L × List (Join L)} :
    lowerOrderItem core model (.field key desc nulls) = .ok x ↔
      (∃ f, model.field key = some f ∧ x = (.column f.column desc nulls, [])) ∨
      (model.field key = none ∧ ∃ r : Reading core model (key.splitOn "__"),
        r.fks ≠ [] ∧ r.fks.length ≤ maxRelationHops ∧ r.rest = [] ∧
        x = (.expr (.aliasedColumn (r.hops.prevAlias model) r.field.column) desc nulls,
          r.hops.joins)) := by
  rw [lowerOrderItem]
  cases hown : model.field key with
  | some f => simp [eq_comm]
  | none =>
    simp only [reduceCtorEq, false_and, exists_false, true_and, false_or]
    constructor
    · intro hx
      split at hx
      · obtain ⟨⟨h, terminal⟩, hchain, hx⟩ := bind_eq_ok.mp hx
        obtain ⟨p, rfl, rfl, hfks, hdepth, -⟩ := resolveSpanChain_eq_ok.mp hchain
        dsimp only at hx
        split at hx
        · rename_i seg hterm
          obtain ⟨rfl, hrest⟩ := List.cons.inj hterm
          obtain ⟨field, hfield, hx⟩ := bind_eq_ok.mp hx
          obtain rfl := Except.ok.inj hx
          have hfound : p.hops.current.field p.name = some field := okOr_eq_ok.mp hfield
          exact ⟨⟨p, field, hfound, .exact, by rw [hrest]; rfl⟩, hfks, hdepth, hrest, rfl⟩
        · cases hx
      · cases hx
    · rintro ⟨r, hfks, hdepth, hrest, rfl⟩
      have hchain := resolveSpanChain_eq_ok.mpr ⟨r.toPath, rfl, rfl, hfks, hdepth, Or.inl hrest⟩
      have hfield (e : QueryError) : okOr (r.hops.current.field r.name) e = .ok r.field :=
        okOr_eq_ok.mpr r.found
      rw [if_pos (r.several hfks), hchain, hrest]
      simp [hfield]

private theorem intercalate_last (init : List String) (last t : String) :
    "__".intercalate (init ++ [last]) ++ t = "__".intercalate (init ++ [last ++ t]) := by
  by_cases hinit : init = []
  · rw [hinit, List.nil_append, List.nil_append, String.intercalate_singleton,
      String.intercalate_singleton]
  · rw [String.intercalate_append_of_ne_nil hinit (List.cons_ne_nil _ _),
      String.intercalate_append_of_ne_nil hinit (List.cons_ne_nil _ _),
      String.intercalate_singleton, String.intercalate_singleton, String.append_assoc]

private theorem internJoinAlias_column (p : Path core model (key.splitOn "__")) (hfks : p.fks ≠ [])
    (hrest : p.rest = []) : internJoinAlias (p.hops.prevAlias model ++ "." ++ p.name) =
      if maxRelationHops < p.fks.length then
        .error (.relationPathTooDeep (p.hops.prevAlias model ++ "." ++ p.name) maxRelationHops)
      else .ok (p.hops.prevAlias model ++ "." ++ p.name) := by
  have hsegs := segments_key key
  rw [p.split, hrest] at hsegs
  have hpath := walk_path p.walked
  rw [if_neg hfks] at hpath
  have halias : p.hops.prevAlias model = "__".intercalate p.fks := by
    rw [Hops.prevAlias, hpath, Option.getD_some]
  obtain ⟨init, last, hlast⟩ := (List.eq_nil_or_concat' p.fks).resolve_left hfks
  have hglue : Segments '_' (init ++ [last ++ "." ++ p.name]) := by
    rw [hlast, List.append_assoc] at hsegs
    exact hsegs.glue rfl (by decide)
  have htext : p.hops.prevAlias model ++ "." ++ p.name =
      "__".intercalate (init ++ [last ++ "." ++ p.name]) := by
    rw [halias, hlast, String.append_assoc, intercalate_last, String.append_assoc]
  have hlen : (init ++ [last ++ "." ++ p.name]).length = p.fks.length := by
    rw [hlast, List.length_append, List.length_append]
    rfl
  rw [internJoinAlias, htext, splitOn_join hglue, hlen]

private theorem projectColumn_eq_ok {x : String × List (Join L)} :
    projectColumn core model key = .ok x ↔
      ((model.fieldByColumn key).isSome ∧ x = (key, [])) ∨
      (model.fieldByColumn key = none ∧ ∃ p : Path core model (key.splitOn "__"),
        p.fks ≠ [] ∧ p.fks.length ≤ maxRelationHops ∧ p.rest = [] ∧
        (p.hops.current.fieldByColumn p.name).isSome ∧
        x = (p.hops.prevAlias model ++ "." ++ p.name, p.hops.joins)) := by
  rw [projectColumn]
  cases hown : model.fieldByColumn key with
  | some f =>
    simp only [Option.isSome_some, if_true, true_and, reduceCtorEq, false_and, or_false,
      Except.ok.injEq]
    exact eq_comm
  | none =>
    simp only [Option.isSome_none, Bool.false_eq_true, false_and, true_and, false_or, if_false]
    constructor
    · intro hx
      obtain ⟨⟨joins, alias_, column⟩, hspan, hx⟩ := bind_eq_ok.mp hx
      dsimp only at hx
      obtain ⟨name, hname, hx⟩ := bind_eq_ok.mp hx
      obtain rfl := Except.ok.inj hx
      rw [resolveProjectedSpan] at hspan
      split at hspan
      · split at hspan
        · cases hspan
        · rename_i h terminal hchain
          obtain ⟨p, rfl, rfl, hfks, hdepth, -⟩ := resolveSpanChain_eq_ok.mp hchain
          split at hspan
          · rename_i seg hterm
            obtain ⟨rfl, hrest⟩ := List.cons.inj hterm
            obtain ⟨field, hfield, hspan⟩ := bind_eq_ok.mp hspan
            have hfound : p.hops.current.fieldByColumn p.name = some field := okOr_eq_ok.mp hfield
            have hcolumn := field_column hfound
            obtain ⟨rfl, hpair⟩ := Prod.mk.inj (Except.ok.inj hspan)
            obtain ⟨rfl, rfl⟩ := Prod.mk.inj hpair
            rw [hcolumn, internJoinAlias_column p hfks hrest, if_neg (Nat.not_lt.mpr hdepth)] at hname
            obtain rfl := Except.ok.inj hname
            exact ⟨p, hfks, hdepth, hrest, by rw [hfound]; rfl, rfl⟩
          · cases hspan
      · cases hspan
    · rintro ⟨p, hfks, hdepth, hrest, hsome, rfl⟩
      obtain ⟨field, hfound⟩ := Option.isSome_iff_exists.mp hsome
      have hchain := resolveSpanChain_eq_ok.mpr ⟨p, rfl, rfl, hfks, hdepth, Or.inl hrest⟩
      have hfield (e : QueryError) : okOr (p.hops.current.fieldByColumn p.name) e = .ok field :=
        okOr_eq_ok.mpr hfound
      have hname := internJoinAlias_column p hfks hrest
      rw [if_neg (Nat.not_lt.mpr hdepth)] at hname
      have hcolumn := field_column hfound
      rw [resolveProjectedSpan, if_pos (p.several hfks), hchain, hrest]
      simp [hfield, hcolumn, hname]

end Order

theorem Path.own_of_single {core : Core L} {model : ModelSchema L} {segs : List String} {name : String}
    (hsegs : segs = [name]) (p : Path core model segs) : p.fks = [] := by
  by_contra hfks
  have hlen := p.several hfks
  rw [hsegs] at hlen
  exact absurd hlen (by simp)

/-- The predicate and joins of a filter are those of a reading of its key, of a longest one unless the
grammar takes a path for a suffix. Such a reading is resolved unless it is too deep or its foreign key
is followed by a lookup. `order_by` resolves a path to the same column of the same joins, and so does
`values`, which names the last segment by its column. -/
theorem lookup_keys (core : Core L) (g : Grammar L) (model : ModelSchema L) (key : String) :
    (∀ value x, resolveFilter (core.withGrammar g) model key value = .ok x →
      ∃ r : Reading (core.withGrammar g) model (key.splitOn "__"), r.answer g value = .ok x ∧
        (Unambiguous (core.withGrammar g) model (key.splitOn "__") →
          ∀ q : Reading (core.withGrammar g) model (key.splitOn "__"),
            q.fks.length ≤ r.fks.length)) ∧
    (Unambiguous (core.withGrammar g) model (key.splitOn "__") →
      ∀ r : Reading (core.withGrammar g) model (key.splitOn "__"), r.fks.length ≤ maxRelationHops →
        r.fks = [] ∨ r.rest = [] ∨ r.field.relation = none →
        ∀ value, resolveFilter (core.withGrammar g) model key value = r.answer g value) ∧
    (∀ desc nulls x, lowerOrderItem (core.withGrammar g) model (.field key desc nulls) = .ok x ↔
      (∃ f, model.field key = some f ∧ x = (.column f.column desc nulls, [])) ∨
      (model.field key = none ∧ ∃ r : Reading (core.withGrammar g) model (key.splitOn "__"),
        r.fks ≠ [] ∧ r.fks.length ≤ maxRelationHops ∧ r.rest = [] ∧
        x = (.expr (.aliasedColumn (r.hops.prevAlias model) r.field.column) desc nulls,
          r.hops.joins))) ∧
    ∀ x, projectColumn (core.withGrammar g) model key = .ok x ↔
      ((model.fieldByColumn key).isSome ∧ x = (key, [])) ∨
      (model.fieldByColumn key = none ∧ ∃ p : Path (core.withGrammar g) model (key.splitOn "__"),
        p.fks ≠ [] ∧ p.fks.length ≤ maxRelationHops ∧ p.rest = [] ∧
        (p.hops.current.fieldByColumn p.name).isSome ∧
        x = (p.hops.prevAlias model ++ "." ++ p.name, p.hops.joins)) := by
  have hg : (core.withGrammar g).parseLookup = g.parseLookup := rfl
  refine ⟨?_, ?_, fun desc nulls x => lowerOrderItem_eq_ok, fun x => projectColumn_eq_ok⟩
  · intro value x hx
    obtain ⟨r, hanswer, hwhere⟩ := reading_of_resolveFilter hg hx
    refine ⟨r, hanswer, fun hclear q => ?_⟩
    rcases hwhere with hfks | ⟨-, hstop⟩
    · have hkey : key.splitOn "__" = r.name :: r.rest := r.split.trans (by rw [hfks, List.nil_append])
      have hq : q.fks = [] := by
        by_cases hrest : r.rest = []
        · exact q.own_of_single (hkey.trans (by rw [hrest]))
        · refine hclear ?_ q
          have htaken := takenAsSuffix_of_ofSegments hrest r.spelled
          rw [hkey]
          exact htaken
      rw [hq]
      exact Nat.zero_le _
    · exact Path.longest r.toPath q.toPath hstop
  · intro hclear r hdepth hstop value
    by_cases hfks : r.fks = []
    · exact resolveFilter_own hg r hfks value
    · have hstop : Stops r.hops r.name r.rest := by
        refine (hstop.resolve_left hfks).imp_right fun hrel f hf => ?_
        obtain rfl := Option.some.inj (r.found.symm.trans hf)
        exact hrel
      obtain ⟨name, rest, hkey⟩ := List.exists_cons_of_ne_nil (segments_key key).ne_nil
      have hfree : ¬ takenAsSuffix rest = true := by
        intro htaken
        refine hfks (hclear ?_ r)
        rw [hkey]
        exact htaken
      have hspan := parseLookup_eq g value hkey
      rw [← hg] at hspan
      cases hs : Suffix.ofSegments rest with
      | some s =>
        by_cases hrest : rest = []
        · exact absurd (r.own_of_single (hkey.trans (by rw [hrest]))) hfks
        · exact absurd (takenAsSuffix_of_ofSegments hrest hs) hfree
      | none =>
        rw [hs] at hspan
        dsimp only at hspan
        rw [if_neg hfree] at hspan
        exact resolveFilter_related hg r hfks hdepth hstop hspan

-- A person has a parent, and their name is in the column `full_name`; an article has an author.

private def pressLang : Lang := ⟨Bool, Empty, Empty, Empty⟩

private def person : ModelSchema pressLang where
  name := "Person"
  table := "people"
  fields := [⟨"id", "id", true, none⟩, ⟨"name", "full_name", false, none⟩,
    ⟨"parent", "parent_id", false, some (.fk "people" "id")⟩]
  globalScopes := []

private def article : ModelSchema pressLang where
  name := "Article"
  table := "articles"
  fields := [⟨"id", "id", true, none⟩, ⟨"author", "author_id", false, some (.fk "people" "id")⟩]
  globalScopes := []

private def pressGrammar : Grammar pressLang where
  shapeName _ := "SqlValue::Bool"
  asString _ := none
  asList _ := none
  asRangeLiteral _ := none
  isJson _ := false
  isBool _ := true
  string _ := false
  array _ := false
  rangeLiteral _ := false
  call _ x := x

private def pressTable (t : String) : Option (ModelSchema pressLang) :=
  if t = "people" then some person else if t = "articles" then some article else none

private theorem pressTable_table (t : String) (s : ModelSchema pressLang) (h : pressTable t = some s) :
    s.table = t := by
  unfold pressTable at h
  split_ifs at h with hp ha
  · exact Option.some.inj h ▸ hp.symm
  · exact Option.some.inj h ▸ ha.symm

private def press : Core pressLang :=
  Core.withGrammar ⟨pressTable, pressTable_table, fun _ _ => .error .distinctOnEmpty, fun _ _ _ _ => .ok (),
    fun _ _ => .ok (), fun _ _ => .ok (), fun _ _ => false⟩ pressGrammar

/-- A path that is there and still refused: `values` takes no field name for the column, `filter` no
lookup on a foreign key behind another, and no walk is longer than six. -/
theorem lookup_keys_refused :
    (∃ x, lowerOrderItem press article (.field "author__name" false .default) = .ok x) ∧
    (∀ x, projectColumn press article "author__name" ≠ .ok x) ∧
    (∃ r : Reading press article ("author__parent__isnull".splitOn "__"),
      r.fks = ["author"] ∧ r.field.name = "parent" ∧ ∃ x, r.answer pressGrammar true = .ok x) ∧
    (∀ x, resolveFilter press article "author__parent__isnull" true ≠ .ok x) ∧
    (∃ r : Reading press article
        ("author__parent__parent__parent__parent__parent__parent__id".splitOn "__"),
      r.rest = [] ∧ ∃ x, r.answer pressGrammar true = .ok x) ∧
    (∀ x, resolveFilter press article
      "author__parent__parent__parent__parent__parent__parent__id" true ≠ .ok x) := by
  have hname : "author__name".splitOn "__" = ["author", "name"] := splitOn_doubled '_' _
  have hnull : "author__parent__isnull".splitOn "__" = ["author", "parent", "isnull"] :=
    splitOn_doubled '_' _
  have hdeep : "author__parent__parent__parent__parent__parent__parent__id".splitOn "__" =
      ["author", "parent", "parent", "parent", "parent", "parent", "parent", "id"] :=
    splitOn_doubled '_' _
  refine ⟨?_, ?_, ?_, ?_, ?_, ?_⟩
  · exact ⟨_, lowerOrderItem_eq_ok.mpr (Or.inr ⟨rfl,
      ⟨⟨["author"], "name", [], hname, _, rfl⟩, _, rfl, .exact, rfl⟩, by simp,
        Nat.le_of_ble_eq_true rfl, rfl, rfl⟩)⟩
  · intro x hx
    rcases projectColumn_eq_ok.mp hx with ⟨hown, -⟩ | ⟨-, p, -, -, hrest, hfound, -⟩
    · cases hown
    · have hsplit := hname.symm.trans p.split
      rw [hrest] at hsplit
      have hsplit : ["author"] ++ ["name"] = p.fks ++ [p.name] := hsplit
      obtain ⟨hfks, hlast⟩ := List.append_inj' hsplit rfl
      have hwalk := p.walked
      rw [← hfks] at hwalk
      rw [← Option.some.inj hwalk, ← (List.cons.inj hlast).1] at hfound
      cases hfound
  · exact ⟨⟨⟨["author"], "parent", ["isnull"], hnull, _, rfl⟩, _, rfl, .lookup .isNull, rfl⟩, rfl, rfl,
      _, rfl⟩
  · intro x hx
    obtain ⟨r, -, hwhere⟩ := reading_of_resolveFilter rfl hx
    have hsplit := hnull.symm.trans r.split
    rcases hwhere with hfks | ⟨-, hstop⟩
    · have hspelled := r.spelled
      rw [hfks] at hsplit
      rw [← (List.cons.inj hsplit).2] at hspelled
      cases hspelled
    · have hlong : 2 ≤ r.fks.length :=
        Path.longest r.toPath ⟨["author", "parent"], "isnull", [], hnull, _, rfl⟩ hstop
      have hlen : 3 = r.fks.length + (r.rest.length + 1) := by
        simpa using congrArg List.length hsplit
      have hrest : r.rest = [] := by
        apply List.eq_nil_of_length_eq_zero
        omega
      rw [hrest] at hsplit
      have hsplit : ["author", "parent"] ++ ["isnull"] = r.fks ++ [r.name] := hsplit
      obtain ⟨hfks, hlast⟩ := List.append_inj' hsplit rfl
      have hwalk := r.walked
      have hfound := r.found
      rw [← hfks] at hwalk
      rw [← Option.some.inj hwalk, ← (List.cons.inj hlast).1] at hfound
      cases hfound
  · exact ⟨⟨⟨["author", "parent", "parent", "parent", "parent", "parent", "parent"], "id", [], hdeep,
      _, rfl⟩, _, rfl, .exact, rfl⟩, rfl, _, rfl⟩
  · intro x hx
    obtain ⟨r, -, hwhere⟩ := reading_of_resolveFilter rfl hx
    have hsplit := hdeep.symm.trans r.split
    rcases hwhere with hfks | ⟨hdepth, hstop⟩
    · have hspelled := r.spelled
      rw [hfks] at hsplit
      rw [← (List.cons.inj hsplit).2] at hspelled
      cases hspelled
    · have hlong := Path.longest r.toPath
        ⟨["author", "parent", "parent", "parent", "parent", "parent", "parent"], "id", [], hdeep, _, rfl⟩
        hstop
      exact absurd (hlong.trans hdepth) (Nat.not_le.mpr (Nat.le_of_ble_eq_true rfl))

end Rustango.Query
