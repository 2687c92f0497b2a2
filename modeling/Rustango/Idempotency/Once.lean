import Rustango.Idempotency.Markers

/-!
# A key runs its handler once

What the two entries of a digest may contain, and what follows for every run of the requests: one
handler at a time, none after an answer is stored.
-/

namespace Rustango.Idempotency

open Function Rustango.Runs

variable {R A : Type}

theorem Request.entries_nodup (q : Request) : q.entries.Nodup := by
  cases h : q.legacyOnly <;> simp [Request.entries, Request.keys, h]
/-- A replayed answer is a stored one, and stored for this body. -/
def Answer.Agrees (stored : Key → Option (StoredResponse A)) (q : Request) : Answer A → Prop
  | .replayed st => st.requestSha256 = q.requestSha256 ∧ ∃ k, stored k = some st
  | _ => True

def After.Agrees (stored : Key → Option (StoredResponse A)) (q : Request) : After A → Prop
  | .answer a => a.Agrees stored q
  | .lost _ => True

/-- What the entries of the digest contain where `handle` relies on it. -/
def Progress.Agrees (stored : Key → Option (StoredResponse A)) (q : Request) : Progress A → Prop
  | .reading .owning left _ => left <:+ q.entries ∧ ∀ k ∈ q.entries, k ∉ left → stored k = none
  | .running _ => ∀ k, stored k = none
  | .storing a left _ => left <:+ q.entries ∧
      ∀ k, stored k = if k ∈ q.entries ∧ k ∉ left then some ⟨q.requestSha256, a⟩ else none
  | .releasing _ _ after => after.Agrees stored q
  | .ended ans => ans.Agrees stored q
  | _ => True

theorem Request.entries_eq (q : Request) :
    q.entries = if q.legacyOnly then [.legacy] else [.current, .legacy] := by
  cases h : q.legacyOnly <;> simp [Request.entries, Request.keys, h]

private theorem replay_agrees {stored : Key → Option (StoredResponse A)} {q : Request} {k : Key}
    {st : StoredResponse A} (h : stored k = some st) :
    (replay st q.requestSha256).Agrees stored q := by
  unfold replay
  split
  · trivial
  · rename_i he
    exact ⟨not_not.mp he, k, h⟩

private theorem busy_agrees (stored : Key → Option (StoredResponse A)) (q : Request)
    (holder : Option (Token R)) : (busy holder q.requestSha256 : Answer A).Agrees stored q := by
  unfold busy
  split
  · trivial
  · split <;> trivial

section Kept
variable (req : R → Request)

/-- No 0.63 process has sent a request. -/
def NoOld (w : World R A) : Prop := ∀ r, (req r).legacyOnly = true → w.progress r = .absent

/-- The two entries agree; `alone` when the 0.63 one may be missing for good. -/
structure Kept (alone : Prop) (w : World R A) : Prop where
  agrees : ∀ r, (w.progress r).Agrees w.cache.stored (req r)
  paired : ∀ st, w.cache.stored .current = some st → w.cache.stored .legacy = some st ∨
    w.cache.stored .legacy = none ∧
      (alone ∨ ∃ r a held, w.progress r = .storing a [.legacy] held)

variable {req} {alone : Prop} {w w' : World R A}

theorem Kept.initial : Kept req alone (World.initial : World R A) where
  agrees _ := trivial
  paired := nofun

variable [DecidableEq R]

/-- A step that writes no entry. -/
theorem Kept.quiet (h : Kept req alone w) {r : R} {c : Cache R A} {p : Progress A}
    (same : c.stored = w.cache.stored) (agrees : p.Agrees w.cache.stored (req r))
    (stays : ∀ a held, w.progress r = .storing a [.legacy] held →
      alone ∨ w.cache.stored .current = none) :
    Kept req alone (w.set r (c, p)) := by
  have hset := fun r' => w.set_progress r r' c p
  have hstored : (w.set r (c, p)).cache.stored = w.cache.stored := same
  refine ⟨fun r' => ?_, fun st hst => ?_⟩
  · rw [hset, hstored]
    split
    · subst r'; exact agrees
    · exact h.agrees r'
  · rw [hstored] at hst ⊢
    obtain hl | ⟨hl, ha | ⟨r', a, held, hr'⟩⟩ := h.paired st hst
    · exact .inl hl
    · exact .inr ⟨hl, .inl ha⟩
    · refine .inr ⟨hl, ?_⟩
      by_cases he : r' = r
      · subst he
        obtain ha | hnone := stays a held hr'
        · exact .inl ha
        · rw [hnone] at hst; cases hst
      · exact .inr ⟨r', a, held, by rw [hset, if_neg he, hr']⟩

omit [DecidableEq R] in
/-- Nothing is stored when the request that holds every marker has found no entry of its own. -/
theorem Kept.none_stored (h : Kept req alone w) (owned : Owned req w) (new : alone → NoOld req w)
    {r : R} {held : List Key} (hr : w.progress r = .reading .owning [] held) (k : Key) :
    w.cache.stored k = none := by
  have ha := h.agrees r
  rw [hr] at ha
  obtain ⟨-, hnone⟩ := ha
  by_cases hk : k ∈ (req r).entries
  · exact hnone k hk (List.not_mem_nil)
  -- only a 0.63 request has a key it does not read: this release's
  cases hold : (req r).legacyOnly with
  | false => cases k <;> simp [Request.entries_eq, hold] at hk
  | true =>
    have hkey : k = .current := by cases k <;> simp_all [Request.entries_eq]
    have hlegacy : w.cache.stored .legacy = none :=
      hnone .legacy (by simp [Request.entries_eq, hold]) List.not_mem_nil
    subst hkey
    by_contra hst
    obtain ⟨st, hst⟩ := Option.ne_none_iff_exists'.mp hst
    obtain hl | ⟨-, ha | ⟨r', a, held', hr'⟩⟩ := h.paired st hst
    · rw [hlegacy] at hl; cases hl
    · rw [new ha r hold] at hr; cases hr
    · have hfull := owned.holds r
      have hfull' := owned.holds r'
      rw [hr] at hfull
      rw [hr'] at hfull'
      have he : r = r' := owned.exclusive (by rw [hr]; exact hfull) (by rw [hr']; exact hfull')
      subst he
      rw [hr] at hr'; cases hr'

/-- A write of an entry, made by the request that holds every marker. -/
theorem Kept.store (h : Kept req alone w) (owned : Owned req w) {r : R} {a : A} {k : Key}
    {left held : List Key} (hr : w.progress r = .storing a (k :: left) held) :
    Kept req alone (w.set r ({ w.cache with
      stored := update w.cache.stored k (some ⟨(req r).requestSha256, a⟩) },
      .storing a left held)) := by
  have ha := h.agrees r
  have hh := owned.holds r
  rw [hr] at ha hh
  obtain ⟨hsuf, hstored⟩ := ha
  have hnd : (k :: left).Nodup := hsuf.sublist.nodup (req r).entries_nodup
  have hempty : w.cache.stored k = none := by
    rw [hstored, if_neg]
    simp
  refine ⟨fun r' => ?_, fun st hst => ?_⟩
  · by_cases he : r' = r
    · subst he
      simp only [World.set, update_self]
      refine ⟨(List.suffix_cons k left).trans hsuf, fun x => ?_⟩
      by_cases hx : x = k
      · subst hx
        rw [update_self, if_pos ⟨hsuf.subset List.mem_cons_self, (List.nodup_cons.mp hnd).1⟩]
      · rw [update_of_ne hx, hstored]
        simp [hx]
    · have hother := h.agrees r'
      have hheld := owned.holds r'
      have hexcl : (w.progress r').held ≠ (req r').markers := fun hm =>
        he (owned.exclusive hm (by rw [hr]; exact hh))
      have hkeep : ∀ ans : Answer A, ans.Agrees w.cache.stored (req r') →
          ans.Agrees (update w.cache.stored k (some ⟨(req r).requestSha256, a⟩)) (req r') := by
        intro ans hans
        cases ans with
        | replayed st =>
          obtain ⟨hsha, x, hx⟩ := hans
          have hxk : x ≠ k := by rintro rfl; rw [hempty] at hx; cases hx
          exact ⟨hsha, x, by rw [update_of_ne hxk, hx]⟩
        | _ => trivial
      simp only [World.set, update_of_ne he]
      generalize w.progress r' = p at hother hheld hexcl
      cases p with
      | reading why left' held' =>
        cases why with
        | owning => exact absurd hheld hexcl
        | _ => trivial
      | running => exact absurd hheld hexcl
      | storing => exact absurd hheld hexcl
      | releasing held' owner after =>
        cases after with
        | answer ans => exact hkeep ans hother
        | lost => trivial
      | ended ans => exact hkeep ans hother
      | _ => trivial
  · simp only [World.set] at hst ⊢
    cases hold : (req r).legacyOnly with
    | true =>
      -- a 0.63 request writes the old entry only
      have hk : k = .legacy := by
        have := hsuf.subset List.mem_cons_self
        simpa [Request.entries_eq, hold] using this
      rw [hk, update_of_ne (by decide), hstored, if_neg (by simp [Request.entries_eq, hold])] at hst
      cases hst
    | false =>
      obtain ⟨before, hbefore⟩ := hsuf
      rw [Request.entries_eq, hold] at hbefore
      cases before with
      | nil =>
        obtain ⟨rfl, rfl⟩ : k = .current ∧ left = [.legacy] := by simpa using hbefore
        refine .inr ⟨?_, .inr ⟨r, a, held, update_self ..⟩⟩
        rw [update_of_ne (by decide), hstored, if_neg (by simp)]
      | cons b before =>
        cases before with
        | nil =>
          obtain ⟨-, rfl, -⟩ : _ = Key.current ∧ k = .legacy ∧ left = [] := by simpa using hbefore
          rw [update_of_ne (by decide), hstored] at hst
          rw [update_self]
          split at hst
          · exact .inl hst
          · cases hst
        | cons c before => simp at hbefore

theorem Kept.proceed (h : Kept req alone w) (owned : Owned req w) (new : alone → NoOld req w)
    {r : R} {c : Cache R A} {p : Progress A}
    (step : Proceeds (req r) (token req r) w.cache (w.progress r) c p) :
    Kept req alone (w.set r (c, p)) := by
  have ha := h.agrees r
  generalize hp : w.progress r = p₀ at step ha
  cases step with
  | hit st found => exact h.quiet rfl (replay_agrees found) (hp ▸ nofun)
  | @miss why k left held empty =>
    refine h.quiet rfl ?_ (hp ▸ nofun)
    cases why with
    | owning =>
      refine ⟨(List.suffix_cons k left).trans ha.1, fun x hx hleft => ?_⟩
      by_cases hk : x = k
      · rw [hk, empty]
      · exact ha.2 x hx (by simp [hk, hleft])
    | _ => trivial
  | run => exact h.quiet rfl (h.none_stored owned new hp) (hp ▸ nofun)
  | store => exact h.store owned hp
  | owning => exact h.quiet rfl ⟨List.suffix_rfl, fun _ hk hno => absurd hk hno⟩ (hp ▸ nofun)
  | ask => exact h.quiet rfl (busy_agrees _ _ _) (hp ▸ nofun)
  | stored => exact h.quiet rfl trivial (hp ▸ nofun)
  | owner | skip | delete | finish => exact h.quiet rfl ha (hp ▸ nofun)
  | _ => exact h.quiet rfl trivial (hp ▸ nofun)

/-- Between its two writes: the answer is in one entry and not in the other. -/
def Progress.betweenWrites (q : Request) : Progress A → Bool
  | .storing _ left _ => left ≠ q.entries && left ≠ []
  | _ => false

end Kept

/-- The step drops no request between its two writes. -/
def writesBoth (req : R → Request) (e : Event R A) (w : World R A) : Prop :=
  match e with
  | .drop r => (w.progress r).betweenWrites (req r) = false
  | _ => True

/-- The step is not the one of a 0.63 process. -/
def newOnly (req : R → Request) (e : Event R A) (_ : World R A) : Prop :=
  match e with
  | .proceed r => (req r).legacyOnly = false
  | _ => True

section Run
variable {req : R → Request} {alone : Prop} {w w' : World R A} [DecidableEq R]

private theorem step_kept {e : Event R A} (h : step req e w = some w') (owned : Owned req w)
    (new : alone → NoOld req w) (both : alone ∨ writesBoth req e w) (kept : Kept req alone w) :
    Kept req alone w' := by
  obtain ⟨c, p, acts, rfl⟩ := step_cases h
  have ha := kept.agrees e.request
  cases acts with
  | proceeds rule => exact kept.proceed owned new rule
  | stores running =>
    rw [running] at ha
    refine kept.quiet rfl ⟨List.suffix_rfl, fun k => ?_⟩ (running ▸ nofun)
    rw [ha k, if_neg fun hk => hk.2 hk.1]
  | answers running own =>
    refine kept.quiet rfl ?_ (running ▸ nofun)
    obtain rfl | ⟨a, rfl⟩ := own <;> trivial
  | @drops r _ =>
    refine kept.quiet rfl trivial fun a held hr => ?_
    obtain halone | hb := both
    · exact .inl halone
    · refine .inr ?_
      have hb : (w.progress r).betweenWrites (req r) = false := hb
      have ha : (w.progress r).Agrees w.cache.stored (req r) := ha
      have hr : w.progress r = .storing a [.legacy] held := hr
      rw [hr] at ha hb
      rw [ha.2]
      cases hold : (req r).legacyOnly with
      | true => simp [Request.entries_eq, hold]
      | false => simp [Progress.betweenWrites, Request.entries_eq, hold] at hb
  | cleans gone same _ => exact kept.quiet same trivial (gone ▸ nofun)

private theorem step_noOld {e : Event R A} (h : step req e w = some w') (new : newOnly req e w)
    (hw : NoOld req w) : NoOld req w' := by
  obtain ⟨c, p, acts, rfl⟩ := step_cases h
  intro x hx
  have hne : x ≠ e.request := by
    rintro rfl
    have hxw := hw _ hx
    cases acts with
    | proceeds _ => exact absurd (hx.symm.trans new) (by decide)
    | stores running | answers running _ => cases hxw.symm.trans running
    | drops started => exact started hxw
    | cleans gone _ _ => cases hxw.symm.trans gone
  exact (update_of_ne hne ..).trans (hw x hx)

private theorem step_stored {e : Event R A} (h : step req e w = some w') (kept : Kept req alone w) {k : Key}
    {st : StoredResponse A} (hst : w.cache.stored k = some st) : w'.cache.stored k = some st := by
  obtain ⟨c, p, acts, rfl⟩ := step_cases h
  have ha := kept.agrees e.request
  generalize w.progress e.request = p₀ at acts ha
  cases acts with
  | proceeds rule =>
    cases rule with
    | @store a x left held =>
      have hx : w.cache.stored x = none := by
        rw [ha.2, if_neg (by simp)]
      have hne : k ≠ x := by
        rintro rfl
        cases hx.symm.trans hst
      exact (update_of_ne hne ..).trans hst
    | _ => exact hst
  | cleans _ same _ => exact (congrFun same k).trans hst
  | _ => exact hst

end Run

def After.decided : After A → Option (Answer A)
  | .answer a => some a
  | .lost _ => none

/-- The answer a request is decided on. -/
def Progress.decided : Progress A → Option (Answer A)
  | .releasing _ _ after => after.decided
  | .ended a => some a
  | _ => none

/-- The answer of the request's own run. -/
def Answer.own : Answer A → Bool
  | .ran _ | .broken => true
  | _ => false

def After.own : After A → Bool
  | .answer a => a.own
  | .lost _ => false

/-- The request has begun its own run of the handler. -/
def Progress.ran : Progress A → Bool
  | .running _ | .storing .. => true
  | .releasing _ _ after => after.own
  | .ended a => a.own
  | _ => false

private theorem replay_own (st : StoredResponse A) (sha : String) : (replay st sha).own = false := by
  unfold replay
  split <;> rfl

private theorem busy_own (holder : Option (Token R)) (sha : String) :
    (busy holder sha : Answer A).own = false := by
  unfold busy
  split
  · rfl
  · split <;> rfl

section Once
variable (req : R → Request)

/-- The body of `r` is not the one that was answered, or not the one of a request in flight. -/
def Reused (w : World R A) (r : R) : Prop :=
  (∃ k st, w.cache.stored k = some st ∧ st.requestSha256 ≠ (req r).requestSha256) ∨
    ∃ r', (w.progress r').held ≠ [] ∧ (req r').requestSha256 ≠ (req r).requestSha256

variable [DecidableEq R]

/-- What holds of a run that leads from `w` to `w'`. -/
structure RunsOnce (w w' : World R A) : Prop where
  one : ∀ r r', (w'.progress r).isRunning = true → (w'.progress r').isRunning = true → r = r'
  no_later_run : ∀ k st, w.cache.stored k = some st →
    w'.cache.stored k = some st ∧ ∀ r, (w'.progress r).isRunning = false
  other_answers : ∀ k st r a, w.cache.stored k = some st → (w.progress r).ran = false →
    (w'.progress r).decided = some a → a = .replayed st ∨ a = .keyReused ∨ a = .inProgress
  replayed : ∀ r st, (w'.progress r).decided = some (.replayed st) →
    st.requestSha256 = (req r).requestSha256 ∧ ∃ k, w'.cache.stored k = some st
  reused : ∀ e w'' r, step req e w' = some w'' → (w'.progress r).decided = none →
    (w''.progress r).decided = some .keyReused → Reused req w' r
  none_left : (∀ r, (w'.progress r).isEnded = true) → ∀ k, w'.cache.marker k = none

variable {req} {alone : Prop} {w w' : World R A}

omit [DecidableEq R] in
theorem Kept.not_running (h : Kept req alone w) {k : Key} {st : StoredResponse A}
    (hst : w.cache.stored k = some st) (r : R) : (w.progress r).isRunning = false := by
  have ha := h.agrees r
  generalize w.progress r = p at ha
  cases p with
  | running held =>
    rw [ha k] at hst
    cases hst
  | _ => rfl

omit [DecidableEq R] in
theorem Kept.one_answer (h : Kept req alone w) {k k' : Key} {st st' : StoredResponse A}
    (hst : w.cache.stored k = some st) (hst' : w.cache.stored k' = some st') : st = st' := by
  have hboth : ∀ {x y : StoredResponse A}, w.cache.stored .current = some x →
      w.cache.stored .legacy = some y → x = y := by
    intro x y hx hy
    obtain hl | ⟨hl, -⟩ := h.paired x hx
    · exact Option.some.inj (hl.symm.trans hy)
    · cases hl.symm.trans hy
  cases k <;> cases k'
  · exact Option.some.inj (hst.symm.trans hst')
  · exact hboth hst hst'
  · exact (hboth hst' hst).symm
  · exact Option.some.inj (hst.symm.trans hst')

private theorem step_ran {e : Event R A} (h : step req e w = some w') (owned : Owned req w)
    (new : alone → NoOld req w) (kept : Kept req alone w) {k : Key} {st : StoredResponse A}
    (hst : w.cache.stored k = some st) {r : R} (hr : (w.progress r).ran = false) :
    (w'.progress r).ran = false := by
  obtain ⟨c, p, acts, rfl⟩ := step_cases h
  rw [World.set_progress]
  split
  case isFalse => exact hr
  case isTrue he =>
    subst he
    generalize hp : w.progress e.request = p₀ at acts hr
    cases acts with
    | proceeds rule =>
      cases rule with
      | hit st' _ => exact replay_own st' _
      | run =>
        have hnone := kept.none_stored owned new hp k
        cases hnone.symm.trans hst
      | ask => exact busy_own _ _
      | store | stored => cases hr
      | owner | skip | delete | finish => exact hr
      | _ => rfl
    | stores running | answers running _ =>
      subst running
      cases hr
    | _ => rfl

private theorem step_reused {e : Event R A} (h : step req e w = some w') (owned : Owned req w) {r : R}
    (hr : (w.progress r).decided = none) (hr' : (w'.progress r).decided = some .keyReused) :
    Reused req w r := by
  obtain ⟨c, p, acts, rfl⟩ := step_cases h
  rw [World.set_progress] at hr'
  split at hr'
  case isFalse => cases hr.symm.trans hr'
  case isTrue he =>
    subst he
    generalize w.progress e.request = p₀ at acts hr
    cases acts with
    | proceeds rule =>
      cases rule with
      | @hit why k left held st found =>
        refine .inl ⟨k, st, found, fun hsha => ?_⟩
        simp [Progress.decided, After.decided, replay, hsha] at hr'
      | @ask m =>
        cases hm : w.cache.marker m with
        | none => simp [Progress.decided, busy, hm] at hr'
        | some t =>
          refine .inr ⟨t.nonce, List.ne_nil_of_mem (owned.marked hm), fun hsha => ?_⟩
          have ht : t.sha = (req t.nonce).requestSha256 := congrArg Token.sha (owned.issued m t hm)
          simp [Progress.decided, busy, hm, ht, hsha] at hr'
      | owner | skip | delete | finish => cases hr.symm.trans hr'
      | _ => cases hr'
    | answers _ own => obtain rfl | ⟨a, rfl⟩ := own <;> cases hr'
    | _ => cases hr'

omit [DecidableEq R] in
theorem Kept.decided (h : Kept req alone w) {r : R} {ans : Answer A}
    (hr : (w.progress r).decided = some ans) : ans.Agrees w.cache.stored (req r) := by
  have ha := h.agrees r
  generalize w.progress r = p at ha hr
  cases p with
  | releasing held owner after =>
    cases after with
    | answer a => exact Option.some.inj hr ▸ ha
    | lost => cases hr
  | ended a => exact Option.some.inj hr ▸ ha
  | _ => cases hr

theorem Progress.ran_of_decided {p : Progress A} {ans : Answer A} (hp : p.decided = some ans) :
    p.ran = ans.own := by
  cases p with
  | releasing held owner after =>
    cases after with
    | answer a => exact congrArg Answer.own (Option.some.inj hp)
    | lost => cases hp
  | ended a => exact congrArg Answer.own (Option.some.inj hp)
  | _ => cases hp

/-- A step of a run keeps the books of the markers and of the entries. -/
def Sound (req : R → Request) (alone : Prop) (w : World R A) : Prop :=
  Owned req w ∧ Kept req alone w ∧ (alone → NoOld req w)

private theorem runsOnce_of_sound {ok : Event R A → World R A → Prop}
    (hok : ∀ e x y, ok e x → step req e x = some y → Sound req alone x → Sound req alone y)
    (sound : Sound req alone w) (h : Reach (step req) ok w w') : RunsOnce req w w' := by
  have hw' : Sound req alone w' := h.invariant sound hok
  obtain ⟨owned, kept, new⟩ := hw'
  -- what is stored in `w` stays, and what has not run in `w` never runs
  have hlater : ∀ k st, w.cache.stored k = some st → w'.cache.stored k = some st ∧
      ∀ r, (w.progress r).ran = false → (w'.progress r).ran = false := by
    intro k st hst
    have := h.invariant (P := fun x => Sound req alone x ∧ x.cache.stored k = some st ∧
      ∀ r, (w.progress r).ran = false → (x.progress r).ran = false) ⟨sound, hst, fun _ hr => hr⟩ ?_
    · exact this.2
    · intro e x y he hxy ⟨hx, hxst, hran⟩
      exact ⟨hok e x y he hxy hx, step_stored hxy hx.2.1 hxst,
        fun r hr => step_ran hxy hx.1 hx.2.2 hx.2.1 hxst (hran r hr)⟩
  refine ⟨fun r r' hr hr' => ?_, fun k st hst => ?_, fun k st r a hst hr ha => ?_,
    fun r st hst => ?_, fun e w'' r hstep hr hr' => ?_, fun hend k => ?_⟩
  · exact owned.exclusive (owned.running hr) (owned.running hr')
  · obtain ⟨hst', -⟩ := hlater k st hst
    exact ⟨hst', kept.not_running hst'⟩
  · obtain ⟨hst', hran⟩ := hlater k st hst
    have hown : a.own = false := (Progress.ran_of_decided ha).symm.trans (hran r hr)
    have hagrees := kept.decided ha
    cases a with
    | replayed st' =>
      obtain ⟨-, k', hk'⟩ := hagrees
      exact .inl (congrArg _ (kept.one_answer hk' hst'))
    | keyReused => exact .inr (.inl rfl)
    | inProgress => exact .inr (.inr rfl)
    | ran | broken => cases hown
  · exact kept.decided hst
  · exact step_reused hstep owned hr hr'
  · exact owned.none_left hend k

omit [DecidableEq R] in
theorem Sound.initial : Sound req alone (World.initial : World R A) :=
  ⟨.initial, .initial, fun _ _ _ => rfl⟩

/-- A digest runs its handler once in every run that drops no request between its two writes, and
in every run without a 0.63 process. -/
theorem handler_runs_once {ok : Event R A → World R A → Prop}
    (hok : ok = writesBoth req ∨ ok = newOnly req) (h : Reach (step req) ok World.initial w)
    (h' : Reach (step req) ok w w') : RunsOnce req w w' := by
  obtain rfl | rfl := hok
  · have keep : ∀ e (x y : World R A), writesBoth req e x → step req e x = some y → Sound req False x →
        Sound req False y := by
      intro e x y he hxy ⟨owned, kept, new⟩
      exact ⟨step_owned hxy owned, step_kept hxy owned new (.inr he) kept, nofun⟩
    exact runsOnce_of_sound keep (h.invariant .initial keep) h'
  · have keep : ∀ e (x y : World R A), newOnly req e x → step req e x = some y → Sound req True x →
        Sound req True y := by
      intro e x y he hxy ⟨owned, kept, new⟩
      exact ⟨step_owned hxy owned, step_kept hxy owned new (.inl trivial) kept,
        fun _ => step_noOld hxy he (new trivial)⟩
    exact runsOnce_of_sound keep (h.invariant .initial keep) h'

end Once

/-- The request `true` comes from a 0.63 process, with the body of the other. -/
private def rollout (old : Bool) : Request := ⟨"5e884898", old⟩

/-- A request up to the return of its handler. -/
private def handled : List (Event Bool String) :=
  List.replicate 10 (.proceed false) ++ [.respond false (.response "paid" true)]

/-- The rest of it after its first write, and then a retry on the 0.63 process. -/
private def answered : List (Event Bool String) :=
  List.replicate 7 (.proceed false) ++ List.replicate 3 (.proceed true)

theorem handler_runs_once_rollout : ∃ w w' : World Bool String,
    w.cache.stored .current = some ⟨"5e884898", "paid"⟩ ∧
      w'.progress true = .ended (.replayed ⟨"5e884898", "paid"⟩) ∧ RunsOnce rollout w w' := by
  have allowed : ∀ es : List (Event Bool String), (∀ r, Event.drop r ∉ es) →
      ∀ e ∈ es, ∀ x, writesBoth rollout e x := by
    intro es hes e he x
    cases e with
    | drop r => exact absurd he (hes r)
    | _ => trivial
  have hrun : ((steps (step rollout) (handled ++ [.proceed false]) .initial).bind fun w =>
      (steps (step rollout) answered w).map fun w' => (w.cache.stored .current, w'.progress true)) =
      some (some ⟨"5e884898", "paid"⟩, .ended (.replayed ⟨"5e884898", "paid"⟩)) := by decide
  obtain ⟨w, hw, hrest⟩ := Option.bind_eq_some_iff.mp hrun
  obtain ⟨w', hw', hend⟩ := Option.map_eq_some_iff.mp hrest
  obtain ⟨hst, hreplayed⟩ := Prod.mk.inj hend
  have h : Reach (step rollout) (writesBoth rollout) .initial w :=
    .of_steps hw (allowed _ (by simp [handled]))
  have h' : Reach (step rollout) (writesBoth rollout) w w' :=
    .of_steps hw' (allowed _ (by simp [answered]))
  exact ⟨w, w', hst, hreplayed, handler_runs_once (.inl rfl) h h'⟩

/-- The request is dropped between its two writes, and its markers are removed. -/
private def cut : List (Event Bool String) :=
  handled ++ [.proceed false, .drop false, .cleanUp false .legacy, .cleanUp false .legacy,
    .cleanUp false .current, .cleanUp false .current]

/-- The retry on the 0.63 process then runs the handler again. -/
theorem retry_runs_again : ¬ ∀ w w' : World Bool String,
    Reach (step rollout) (fun _ _ => True) .initial w →
    Reach (step rollout) (fun _ _ => True) w w' → RunsOnce rollout w w' := by
  intro h
  obtain ⟨w, hw, hend⟩ : ∃ w, steps (step rollout) (cut ++ List.replicate 7 (.proceed true))
      .initial = some w ∧ (w.cache.stored .current, (w.progress true).isRunning) =
        (some ⟨"5e884898", "paid"⟩, true) :=
    Option.map_eq_some_iff.mp (by decide)
  obtain ⟨hst, hrun⟩ := Prod.mk.inj hend
  have honce := h w w (.of_steps hw fun _ _ _ => trivial) .start
  obtain ⟨-, hnone⟩ := honce.no_later_run .current _ hst
  rw [hnone true] at hrun
  cases hrun

end Rustango.Idempotency
