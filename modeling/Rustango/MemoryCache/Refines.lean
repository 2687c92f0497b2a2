import Rustango.MemoryCache.Pins

/-!
# The map that the in-memory cache stands for

Every call answers as it would on one map of values with expiries. What the map then loses is what an eviction may
take: an expired entry, or, where a budget is set, one that the call did not write.
-/

namespace Rustango.MemoryCache

open Function (update update_of_ne)
open Rustango.Cache (Entry KeyOp Reply counterValue)
open Rustango.Tally

/-- What an entry says of its key. -/
def CacheEntry.told (e : CacheEntry) : Entry := ⟨e.value, e.expiresAt⟩

/-- The map of the entries. -/
def contents (s : State) : Cache.Store := fun key => (find key s.store.map).map CacheEntry.told

/-- What an operation answers on a slot, and what it leaves there, at the readings of its call. -/
def KeyOp.answer (c : Config) (clock : Clock) (op : KeyOp) (slot : Option Entry) : Reply × Option Entry :=
  match op with
  | .get => (.value ((Cache.live clock.now slot).map (·.value)), slot)
  | .exists_ => (.flag (Cache.live clock.now slot).isSome, slot)
  | .set value ttl => Cache.checkText value slot (.done, some ⟨value, resolveTtl c clock ttl⟩)
  | .setForever value => Cache.checkText value slot (.done, some ⟨value, none⟩)
  | .add value ttl =>
    Cache.checkText value slot
      (if (Cache.live clock.now slot).isSome then (.flag false, slot)
      else (.flag true, some ⟨value, resolveTtl c clock ttl⟩))
  | .incr by_ ttl =>
    let new := ((Cache.live clock.now slot).bind fun e => counterValue e.value).getD 0 + by_
    if -2 ^ 63 ≤ new ∧ new < 2 ^ 63 then
      let expiresAt := match Cache.live clock.again slot, ttl with
        | some e, none => e.expiresAt
        | _, _ => resolveTtl c clock ttl
      (.count new, some ⟨toString new, expiresAt⟩)
    else (.error (.connection "incr: integer out of range (i64 overflow)"), slot)
  | .touch ttl =>
    match Cache.live clock.now slot with
    | none => (.flag false, slot)
    | some e => (.flag true, some { e with expiresAt := resolveTtl c clock ttl })
  | .delete => (.done, none)

/-- A call on the map itself. -/
def Call.tell (c : Config) (clock : Clock) (call : Call) (m : Cache.Store) : Reply × Cache.Store :=
  match call with
  | .one op key =>
    let told := KeyOp.answer c clock op (m key)
    (told.1, update m key told.2)
  | .deletePrefix p => (.done, Cache.deletePrefix p m)
  | .clear => (.done, fun _ => none)

/-- What the eviction of a call may take. -/
def Evictable (c : Config) (act : Call × Clock) (key : String) (e : Entry) : Prop :=
  (0 < c.maxBytes ∨ 0 < c.maxEntries) ∧
    (e.expiresAt.any (· < act.2.sweep key) = true ∨ ∀ op newest, act.1 = .one op newest → key ≠ newest)

/-- `m'` is `m` less what may be evicted. -/
def Forgets (c : Config) (act : Call × Clock) (m m' : Cache.Store) : Prop :=
  ∀ key, m' key = m key ∨ m' key = none ∧ ∀ e ∈ m key, Evictable c act key e

/-- The answers of a run are those of one map that forgets. -/
def OfMap (c : Config) : Cache.Store → List (Call × Clock) → List Reply → Prop
  | _, [], replies => replies = []
  | m, act :: acts, replies => ∃ rest m', replies = (act.1.tell c act.2 m).1 :: rest ∧
      Forgets c act (act.1.tell c act.2 m).2 m' ∧ OfMap c m' acts rest

/-- What the cache answers to one call after another. -/
def replies (c : Config) : List (Call × Clock) → State → List Reply
  | [], _ => []
  | act :: acts, s => (act.1.run c act.2 s).1 :: replies c acts (act.1.run c act.2 s).2

section Equations
-- Their equations are derived here, once for all the proofs that unfold them.
attribute [local simp] KeyOp.answer KeyOp.run Call.tell Call.run
end Equations

section Contents
variable {c : Config} {clock : Clock} {s : State} {key : String} {e : CacheEntry}
  {map before after : List (String × CacheEntry)} {act : Call × Clock}

private theorem live_told (now : Nat) (slot : Option CacheEntry) :
    Cache.live now (slot.map CacheEntry.told) = (slot.filter fun e => !e.isExpired now).map CacheEntry.told := by
  cases slot with
  | none => rfl
  | some e =>
    have hsame : e.expiresAt.all (decide <| now ≤ ·) = !e.isExpired now := by
      unfold CacheEntry.isExpired
      cases e.expiresAt with
      | none => rfl
      | some t =>
        show decide (now ≤ t) = !decide (t < now)
        rw [← decide_not]
        exact decide_eq_decide.mpr not_lt.symm
    simp only [Cache.live, Option.map_some, Option.filter_some, CacheEntry.told, hsame]
    split <;> rfl

private theorem live_contents (now : Nat) (s : State) (key : String) :
    Cache.live now (contents s key) = (live now s key).map CacheEntry.told := live_told now _

private theorem contents_cons (key : String) (e : CacheEntry) (s : State) (tick : Nat) :
    contents ⟨tally ((key, e) :: without key s.store.map), tick⟩ = update (contents s) key (some e.told) := by
  funext k
  by_cases hk : k = key
  · subst hk
    simp [contents, tally]
  · have hne : ¬ key = k := fun h => hk h.symm
    simp [contents, tally, find_cons, hne, update_of_ne hk, find_without_of_ne hk]

private theorem contents_bump (key : String) (s : State) (tick : Nat) :
    contents ⟨tally (Tally.modify key (CacheEntry.bump s.tick) s.store.map), tick⟩ = contents s := by
  funext k
  simp only [contents, tally, find_modify]
  cases find k s.store.map with
  | none => rfl
  | some e =>
    by_cases hk : k = key <;> simp [hk, CacheEntry.bump, CacheEntry.told]

private theorem find_filter_key (keep : String → Bool) (key : String) (map : List (String × CacheEntry)) :
    find key (map.filter fun p => keep p.1) = if keep key then find key map else none := by
  induction map with
  | nil => simp
  | cons p map ih =>
    by_cases hp : p.1 = key
    · subst hp
      by_cases hkeep : keep p.1 = true
      · simp [hkeep, find_cons]
      · simp [hkeep, ih]
    · by_cases hkeep : keep p.1 = true
      · simp [hkeep, find_cons, hp, ih]
      · simp [hkeep, find_cons, hp, ih]

private theorem find_sublist (hkeyed : Keyed before) (hsub : after.Sublist before) (key : String) :
    find key after = find key before ∨ find key after = none ∧ ∀ e ∈ find key before, (key, e) ∉ after := by
  cases hafter : find key after with
  | some e =>
    left
    exact (find_of_mem hkeyed (hsub.subset (mem_of_find hafter))).symm
  | none =>
    right
    refine ⟨rfl, fun e _ hmem => ?_⟩
    exact find_eq_none.mp hafter _ hmem rfl

private theorem forgets_evicted (hkeyed : Keyed before) (h : Evicted c clock key before after) {op : KeyOp}
    (tick tick' : Nat) :
    Forgets c (.one op key, clock) (contents ⟨tally before, tick⟩) (contents ⟨tally after, tick'⟩) := by
  intro k
  rcases find_sublist hkeyed h.kept k with hsame | hgone
  · left
    simp only [contents, tally, hsame]
  · right
    refine ⟨by simp only [contents, tally, hgone.1, Option.map_none], fun told htold => ?_⟩
    obtain ⟨e, he, heq⟩ := Option.map_eq_some_iff.mp htold
    subst heq
    have hmem := mem_of_find he
    have hout := hgone.2 e he
    have hover : (tally before).isOver c.maxBytes c.maxEntries = true := by
      by_contra hfits
      rw [h.idle (by simpa using hfits)] at hout
      exact hout hmem
    constructor
    · simp only [Store.isOver, Bool.or_eq_true, Bool.and_eq_true, decide_eq_true_eq] at hover
      exact hover.imp And.left And.left
    · by_cases hlive : e.isExpired (clock.sweep k) = true
      · exact .inl hlive
      · right
        intro op' newest heq
        cases heq
        exact (h.spared (k, e) hmem hout (by simpa using hlive)).2

private theorem forgets_written (h : Sound c s) {op : KeyOp}
    (hw : written c (.one op key, clock) s = some (key, e)) :
    Forgets c (.one op key, clock) (update (contents s) key (some e.told))
      (contents ((Call.one op key).run c clock s).2) := by
  have hkeyed : Keyed ((key, e) :: without key s.store.map) := keyed_cons_without h.tallied.keyed
  obtain ⟨after, hafter, hevicted⟩ := evicted_evictLocked c clock key hkeyed
  have hrun := run_of_written h hw
  rw [show ((Call.one op key).run c clock s).2 = _ from hrun, hafter, ← contents_cons key e s 0]
  exact forgets_evicted hkeyed hevicted 0 _

theorem Forgets.refl {m : Cache.Store} : Forgets c act m m := fun _ => .inl rfl

/-- The call answers as on the map, and leaves the map that it tells, less what is evicted. -/
def Tells (c : Config) (s : State) (act : Call × Clock) : Prop :=
  (act.1.run c act.2 s).1 = (act.1.tell c act.2 (contents s)).1 ∧
    Forgets c act (act.1.tell c act.2 (contents s)).2 (contents (act.1.run c act.2 s).2)

private theorem tells_idle {op : KeyOp} {reply : Reply} {s' : State}
    (hanswer : KeyOp.answer c clock op (contents s key) = (reply, contents s key))
    (hrun : (Call.one op key).run c clock s = (reply, s')) (hsame : contents s' = contents s) :
    Tells c s (.one op key, clock) := by
  have hself : update (contents s) key (contents s key) = contents s := Function.update_eq_self key _
  constructor
  · simp only [Call.tell, hanswer, hrun]
  · simp only [Call.tell, hanswer, hrun, hself, hsame]
    exact .refl

private theorem tells_written (h : Sound c s) {op : KeyOp} {reply : Reply}
    (hw : written c (.one op key, clock) s = some (key, e))
    (hanswer : KeyOp.answer c clock op (contents s key) = (reply, some e.told))
    (hreply : ((Call.one op key).run c clock s).1 = reply) : Tells c s (.one op key, clock) := by
  constructor
  · simp only [Call.tell, hanswer, hreply]
  · simp only [Call.tell, hanswer]
    exact forgets_written h hw

private theorem tells_get (h : Sound c s) (key : String) : Tells c s (.one .get key, clock) := by
  cases hlive : live clock.now s key with
  | none =>
    have hanswer : KeyOp.answer c clock .get (contents s key) = (.value none, contents s key) := by
      simp [KeyOp.answer, live_contents, hlive]
    exact tells_idle hanswer (by simp [Call.run, KeyOp.run, get, hlive]) rfl
  | some e =>
    have hanswer : KeyOp.answer c clock .get (contents s key) = (.value (some e.value), contents s key) := by
      simp [KeyOp.answer, live_contents, hlive, CacheEntry.told]
    have hmap := h.tallied.modify key (f := CacheEntry.bump s.tick) (fun _ => rfl) (fun _ => rfl)
    exact tells_idle hanswer (by simp [Call.run, KeyOp.run, get, hlive, hmap]; rfl) (contents_bump key s _)

private theorem tells_delete (h : Sound c s) (key : String) : Tells c s (.one .delete key, clock) := by
  have hcontents : contents ⟨(s.store.take key).2, s.tick⟩ = update (contents s) key none := by
    funext k
    rw [h.tallied.take]
    by_cases hk : k = key
    · subst hk
      simp [contents, tally]
    · simp [contents, tally, update_of_ne hk, find_without_of_ne hk]
  refine ⟨rfl, ?_⟩
  simp only [Call.tell, KeyOp.answer, Call.run, KeyOp.run, hcontents]
  exact .refl

private theorem tells_refused {op : KeyOp} {value : String} {r : Reply × Option Entry} {w : Reply × State}
    (hanswer : KeyOp.answer c clock op (contents s key) = Cache.checkText value (contents s key) r)
    (hrun : (Call.one op key).run c clock s = checkText value s w) (hnul : '\x00' ∈ value.toList) :
    Tells c s (.one op key, clock) := by
  simp only [Cache.checkText, checkText, hnul, if_true] at hanswer hrun
  exact tells_idle hanswer hrun rfl

private theorem tells_set (h : Sound c s) (key value : String) (ttl : Option Nat) :
    Tells c s (.one (.set value ttl) key, clock) := by
  by_cases hnul : '\x00' ∈ value.toList
  · exact tells_refused rfl rfl hnul
  · have hanswer : KeyOp.answer c clock (.set value ttl) (contents s key) =
        (.done, some ⟨value, resolveTtl c clock ttl⟩) := if_neg hnul
    exact tells_written h (if_neg hnul) hanswer (by simp [Call.run, KeyOp.run, checkText, hnul])

private theorem tells_setForever (h : Sound c s) (key value : String) :
    Tells c s (.one (.setForever value) key, clock) := by
  by_cases hnul : '\x00' ∈ value.toList
  · exact tells_refused rfl rfl hnul
  · have hanswer : KeyOp.answer c clock (.setForever value) (contents s key) = (.done, some ⟨value, none⟩) :=
      if_neg hnul
    exact tells_written h (if_neg hnul) hanswer (by simp [Call.run, KeyOp.run, checkText, hnul])

private theorem tells_add (h : Sound c s) (key value : String) (ttl : Option Nat) :
    Tells c s (.one (.add value ttl) key, clock) := by
  by_cases hnul : '\x00' ∈ value.toList
  · exact tells_refused rfl rfl hnul
  · by_cases hlive : (live clock.now s key).isSome = true
    · have hanswer : KeyOp.answer c clock (.add value ttl) (contents s key) = (.flag false, contents s key) := by
        simp [KeyOp.answer, Cache.checkText, hnul, live_contents, hlive]
      exact tells_idle hanswer (by simp [Call.run, KeyOp.run, checkText, hnul, add, hlive]) rfl
    · have hanswer : KeyOp.answer c clock (.add value ttl) (contents s key) =
          (.flag true, some ⟨value, resolveTtl c clock ttl⟩) := by
        simp [KeyOp.answer, Cache.checkText, hnul, live_contents, hlive]
      have hw : written c (.one (.add value ttl) key, clock) s = some (key, _) := if_neg (by simp [hnul, hlive])
      exact tells_written h hw hanswer (by simp [Call.run, KeyOp.run, checkText, hnul, add, hlive])

private theorem tells_incr (h : Sound c s) (key : String) (by_ : Int) (ttl : Option Nat) :
    Tells c s (.one (.incr by_ ttl) key, clock) := by
  have hcounted : ((Cache.live clock.now (contents s key)).bind fun e => counterValue e.value).getD 0 + by_ =
      counted clock s key by_ := by
    rw [live_contents, counted, Option.bind_map]
    rfl
  by_cases hrange : -2 ^ 63 ≤ counted clock s key by_ ∧ counted clock s key by_ < 2 ^ 63
  · have hw : written c (.one (.incr by_ ttl) key, clock) s = some (key, _) := if_pos hrange
    refine tells_written h hw ?_ (congrArg Prod.fst (if_pos hrange))
    have hagain : Cache.live clock.again (contents s key) = (live clock.again s key).map CacheEntry.told :=
      live_contents ..
    simp only [KeyOp.answer, hcounted, hagain]
    rw [if_pos hrange]
    -- The two sides name the expiry that is kept by different entries.
    cases live clock.again s key with
    | none => rfl
    | some e => cases ttl <;> rfl
  · have hanswer : KeyOp.answer c clock (.incr by_ ttl) (contents s key) =
        (.error (.connection "incr: integer out of range (i64 overflow)"), contents s key) := by
      simp only [KeyOp.answer, hcounted]
      exact if_neg hrange
    exact tells_idle hanswer (if_neg hrange) rfl

private theorem tells_touch (h : Sound c s) (key : String) (ttl : Option Nat) :
    Tells c s (.one (.touch ttl) key, clock) := by
  cases hlive : live clock.now s key with
  | none =>
    have hanswer : KeyOp.answer c clock (.touch ttl) (contents s key) = (.flag false, contents s key) := by
      simp [KeyOp.answer, live_contents, hlive]
    exact tells_idle hanswer (by simp [Call.run, KeyOp.run, touch, hlive]) rfl
  | some e =>
    have hanswer : KeyOp.answer c clock (.touch ttl) (contents s key) =
        (.flag true, some { e.told with expiresAt := resolveTtl c clock ttl }) := by
      simp [KeyOp.answer, live_contents, hlive]
    have htake : s.store.take key = (some e, tally (without key s.store.map)) := by
      rw [h.tallied.take, find_of_live hlive]
    have hw := congrArg (Option.map fun e => (key, ({ e with
      expiresAt := resolveTtl c clock ttl, lastUsed := s.tick,
      pinned := e.pinned && (resolveTtl c clock ttl).isNone } : CacheEntry))) hlive
    exact tells_written h hw hanswer (by simp [Call.run, KeyOp.run, touch, hlive, htake])

private theorem contents_deletePrefix (h : Sound c s) (p : String) :
    contents ((Call.deletePrefix p).run c clock s).2 = Cache.deletePrefix p (contents s) := by
  have hrun : ((Call.deletePrefix p).run c clock s).2 =
      ⟨tally (s.store.map.filter fun e => !p.toList.isPrefixOf e.1.toList), s.tick⟩ := by
    simp [Call.run, h.tallied.retain]
  rw [hrun]
  funext k
  have hfind := find_filter_key (fun k => !p.toList.isPrefixOf k.toList) k s.store.map
  simp only [contents, tally, hfind, Cache.deletePrefix]
  by_cases hp : p.toList <+: k.toList
  · simp [hp]
  · have hkept : p.toList.isPrefixOf k.toList = false := by
      rw [← Bool.not_eq_true, List.isPrefixOf_iff_prefix]
      exact hp
    simp [hp, hkept]

private theorem tells (h : Sound c s) (act : Call × Clock) : Tells c s act := by
  obtain ⟨call, clock⟩ := act
  cases call with
  | one op key =>
    cases op with
    | get => exact tells_get h key
    | exists_ => exact tells_idle (by simp [KeyOp.answer, live_contents]) rfl rfl
    | set value ttl => exact tells_set h key value ttl
    | setForever value => exact tells_setForever h key value
    | add value ttl => exact tells_add h key value ttl
    | incr by_ ttl => exact tells_incr h key by_ ttl
    | touch ttl => exact tells_touch h key ttl
    | delete => exact tells_delete h key
  | deletePrefix p =>
    refine ⟨rfl, ?_⟩
    simp only [contents_deletePrefix h]
    exact .refl
  | clear => exact ⟨rfl, .refl⟩

private theorem ofMap_of_sound (h : Sound c s) (acts : List (Call × Clock)) :
    OfMap c (contents s) acts (replies c acts s) := by
  induction acts generalizing s with
  | nil => rfl
  | cons act acts ih =>
    obtain ⟨hreply, hforgets⟩ := tells h act
    exact ⟨_, _, by rw [replies, hreply], hforgets, ih (h.run act)⟩

end Contents

/-- Whatever the budgets, every run of the cache answers as one map with expiries that forgets only expired entries
and, past a budget, entries other than the one just written. -/
theorem memory_cache_of_map (c : Config) (acts : List (Call × Clock)) :
    OfMap c (fun _ => none) acts (replies c acts .initial) := ofMap_of_sound sound_initial acts

/-- The call on the flat cache. -/
def Call.flat : Call → Cache.CacheOp
  | .one op key => .one op key
  | .deletePrefix p => .deletePrefix p
  | .clear => .clear

def ttlOf : KeyOp → Option Nat
  | .set _ ttl | .add _ ttl | .incr _ ttl | .touch ttl => ttl
  | _ => none

/-- The call reads one instant, and its TTL neither passes a century nor the last instant there is. -/
structure Plain (c : Config) (act : Call × Clock) : Prop where
  again : act.2.again = act.2.now
  resolve : act.2.resolve = act.2.now
  ttl : ∀ op key, act.1 = .one op key → ∀ ttl ∈ ttlOf op, ttl ≤ farFuture ∧ act.2.now + ttl ≤ c.lastInstant

/-- What the flat cache answers to the same calls. -/
def flatReplies : List (Call × Clock) → Cache.Store → List Reply
  | [], _ => []
  | act :: acts, m => (act.1.flat.run act.2.now m).1 :: flatReplies acts (act.1.flat.run act.2.now m).2

section Unbounded
variable {c : Config} {act : Call × Clock} {m m' : Cache.Store}

private theorem resolveTtl_plain (hdefault : c.defaultTtl = none) {clock : Clock} {ttl : Option Nat}
    (hresolve : clock.resolve = clock.now)
    (hplain : ∀ t ∈ ttl, t ≤ farFuture ∧ clock.now + t ≤ c.lastInstant) :
    resolveTtl c clock ttl = ttl.map (clock.now + ·) := by
  cases ttl with
  | none => simp [resolveTtl, hdefault]
  | some t =>
    obtain ⟨hfar, hlast⟩ := hplain t rfl
    simp [resolveTtl, hresolve, Nat.min_eq_left hfar, hlast]

private theorem answer_plain (hdefault : c.defaultTtl = none) {op : KeyOp} {key : String} {clock : Clock}
    (h : Plain c (.one op key, clock)) (slot : Option Entry) :
    KeyOp.answer c clock op slot = op.run clock.now slot := by
  have hagain : clock.again = clock.now := h.again
  have hresolve : ∀ ttl, ttlOf op = ttl → resolveTtl c clock ttl = ttl.map (clock.now + ·) := by
    intro ttl httl
    exact resolveTtl_plain hdefault h.resolve fun t ht => h.ttl op key rfl t (httl ▸ ht)
  cases op with
  | get => rfl
  | exists_ => rfl
  | setForever value => rfl
  | delete => rfl
  | set value ttl => simp only [KeyOp.answer, Cache.KeyOp.run, hresolve ttl rfl]
  | add value ttl => simp only [KeyOp.answer, Cache.KeyOp.run, hresolve ttl rfl]
  | touch ttl =>
    simp only [KeyOp.answer, hresolve ttl rfl]
    rfl
  | incr by_ ttl =>
    simp only [KeyOp.answer, hresolve ttl rfl, hagain]
    rfl

private theorem tell_plain (hdefault : c.defaultTtl = none) (h : Plain c act) (m : Cache.Store) :
    act.1.tell c act.2 m = act.1.flat.run act.2.now m := by
  obtain ⟨call, clock⟩ := act
  cases call with
  | one op key =>
    simp only [Call.tell, Call.flat, Cache.CacheOp.run, Cache.runOne]
    rw [answer_plain hdefault h]
  | deletePrefix p => rfl
  | clear => rfl

private theorem eq_of_forgets (hbytes : c.maxBytes = 0) (hentries : c.maxEntries = 0) (h : Forgets c act m m') :
    m' = m := by
  funext key
  rcases h key with hsame | hgone
  · exact hsame
  · rw [hgone.1]
    cases hslot : m key with
    | none => rfl
    | some e =>
      have hbudget := (hgone.2 e hslot).1
      omega

private theorem eq_flatReplies (hbytes : c.maxBytes = 0) (hentries : c.maxEntries = 0)
    (hdefault : c.defaultTtl = none)
    {acts : List (Call × Clock)} (hplain : ∀ act ∈ acts, Plain c act) {rs : List Reply} (h : OfMap c m acts rs) :
    rs = flatReplies acts m := by
  induction acts generalizing m rs with
  | nil => exact h
  | cons act acts ih =>
    obtain ⟨rest, m', hrs, hforgets, hrest⟩ := h
    rw [eq_of_forgets hbytes hentries hforgets] at hrest
    rw [tell_plain hdefault (hplain act List.mem_cons_self)] at hrs hrest
    rw [hrs, ih (fun a ha => hplain a (List.mem_cons_of_mem act ha)) hrest, flatReplies]

end Unbounded

/-- With no budget and no default TTL the cache is the flat cache. -/
theorem unbounded_memory_cache (c : Config) (hbytes : c.maxBytes = 0) (hentries : c.maxEntries = 0)
    (hdefault : c.defaultTtl = none) (acts : List (Call × Clock)) (hplain : ∀ act ∈ acts, Plain c act) :
    replies c acts .initial = flatReplies acts fun _ => none :=
  eq_flatReplies hbytes hentries hdefault hplain (ofMap_of_sound sound_initial acts)

/-- No budget, no caps, no default TTL. -/
private def openConfig : Config := ⟨0, 0, 0, 0, none, 10 ^ 20⟩

def instant (t : Nat) : Clock := ⟨t, t, t, fun _ => t⟩

theorem unbounded_memory_cache_counter :
    replies openConfig [(.one (.incr 1 (some 5)) "a", instant 0), (.one (.incr 1 none) "a", instant 5),
      (.one .get "a", instant 6)] .initial =
      flatReplies [(.one (.incr 1 (some 5)) "a", instant 0), (.one (.incr 1 none) "a", instant 5),
        (.one .get "a", instant 6)] fun _ => none := by
  apply unbounded_memory_cache openConfig rfl rfl rfl
  have hplain : ∀ (op : KeyOp) (t : Nat), (∀ ttl ∈ ttlOf op, ttl ≤ farFuture ∧ t + ttl ≤ openConfig.lastInstant) →
      Plain openConfig (.one op "a", instant t) := by
    intro op t httl
    exact ⟨rfl, rfl, fun op' key heq => by cases heq; exact httl⟩
  simp only [List.forall_mem_cons, List.not_mem_nil, false_implies, implies_true, and_true]
  exact ⟨hplain _ 0 (by decide), hplain _ 5 (by decide), hplain _ 6 (by decide)⟩

end Rustango.MemoryCache
