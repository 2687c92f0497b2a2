import Rustango.Idempotency.Handle

/-!
# What a step can do

One rule for each step of a request, and the events of the whole as such rules.
-/

namespace Rustango.Idempotency

open Function Rustango.Runs

variable {R A : Type}

/-- The steps of `proceed`, one rule for each. -/
inductive Proceeds (q : Request) (t : Token R) (c : Cache R A) :
    Progress A → Cache R A → Progress A → Prop where
  | arrive : Proceeds q t c .absent c (.reading .arrival q.entries [])
  | hit {why : Reading} {k : Key} {left held : List Key} (st : StoredResponse A)
      (found : c.stored k = some st) : Proceeds q t c (.reading why (k :: left) held) c
        (.releasing held false (.answer (replay st q.requestSha256)))
  | miss {why : Reading} {k : Key} {left held : List Key} (empty : c.stored k = none) :
      Proceeds q t c (.reading why (k :: left) held) c (.reading why left held)
  | unanswered {held : List Key} :
      Proceeds q t c (.reading .arrival [] held) c (.adding q.markers held)
  | lost {m : Key} {held : List Key} : Proceeds q t c (.reading (.lost m) [] held) c (.asking m)
  | run {held : List Key} : Proceeds q t c (.reading .owning [] held) c (.running held)
  | add {m : Key} {left held : List Key} (free : c.marker m = none) :
      Proceeds q t c (.adding (m :: left) held)
        { c with marker := update c.marker m (some t) } (.adding left (held ++ [m]))
  | taken {m : Key} {left held : List Key} (t' : Token R) (other : c.marker m = some t') :
      Proceeds q t c (.adding (m :: left) held) c (.releasing held false (.lost m))
  | owning {held : List Key} :
      Proceeds q t c (.adding [] held) c (.reading .owning q.entries held)
  | ask {m : Key} : Proceeds q t c (.asking m) c (.ended (busy (c.marker m) q.requestSha256))
  | store {a : A} {k : Key} {left held : List Key} : Proceeds q t c (.storing a (k :: left) held)
      { c with stored := update c.stored k (some ⟨q.requestSha256, a⟩) } (.storing a left held)
  | stored {a : A} {held : List Key} :
      Proceeds q t c (.storing a [] held) c (.releasing held false (.answer (.ran a)))
  | owner {m : Key} {held : List Key} {after : After A} (own : c.marker m = some t) :
      Proceeds q t c (.releasing (m :: held) false after) c (.releasing (m :: held) true after)
  | skip {m : Key} {held : List Key} {after : After A} (other : c.marker m ≠ some t) :
      Proceeds q t c (.releasing (m :: held) false after) c (.releasing held false after)
  | delete {m : Key} {held : List Key} {after : After A} :
      Proceeds q t c (.releasing (m :: held) true after)
        { c with marker := update c.marker m none } (.releasing held false after)
  | reread {m : Key} {owner : Bool} : Proceeds q t c (.releasing [] owner (.lost m)) c
      (.reading (.lost m) q.entries [])
  | finish {a : Answer A} {owner : Bool} :
      Proceeds q t c (.releasing [] owner (.answer a)) c (.ended a)

/-- What a step does to the markers and to those its request holds. -/
inductive Moves (t : Token R) (marker : Key → Option (Token R)) (held : List Key) :
    (Key → Option (Token R)) → List Key → Prop where
  | keeps {held' : List Key} (same : held.Perm held') : Moves t marker held marker held'
  | takes (k : Key) (free : marker k = none) :
      Moves t marker held (update marker k (some t)) (held ++ [k])
  | frees {held' : List Key} (k : Key) (same : held.Perm (k :: held')) :
      Moves t marker held (update marker k none) held'
  | finds {held' : List Key} (k : Key) (other : marker k ≠ some t) (same : held.Perm (k :: held')) :
      Moves t marker held marker held'

/-- What an event does to its request and to the cache. -/
inductive Acts (q : Request) (t : Token R) (c : Cache R A) (p : Progress A) :
    Event R A → Cache R A → Progress A → Prop where
  | proceeds {r : R} {c' : Cache R A} {p' : Progress A} (rule : Proceeds q t c p c' p') :
      Acts q t c p (.proceed r) c' p'
  | stores {r : R} {handled : Handled A} {held : List Key} {a : A} (running : p = .running held) :
      Acts q t c p (.respond r handled) c (.storing a q.entries held)
  | answers {r : R} {handled : Handled A} {held : List Key} {ans : Answer A}
      (running : p = .running held) (own : ans = .broken ∨ ∃ a, ans = .ran a) :
      Acts q t c p (.respond r handled) c (.releasing held false (.answer ans))
  | drops {r : R} (started : p ≠ .absent) : Acts q t c p (.drop r) c (.dropped p.held [])
  | cleans {r : R} {m : Key} {c' : Cache R A} {checking deleting checking' deleting' : List Key}
      (gone : p = .dropped checking deleting) (same : c'.stored = c.stored)
      (moves : Moves t c.marker p.held c'.marker (checking' ++ deleting')) :
      Acts q t c p (.cleanUp r m) c' (.dropped checking' deleting')

/-- The request an event is about. -/
def Event.request : Event R A → R
  | .proceed r | .respond r _ | .drop r | .cleanUp r _ => r

section Acts
variable {q : Request} {t : Token R} {c c' : Cache R A} {p p' : Progress A}

private theorem respond_acts {r : R} {handled : Handled A} (h : respond q handled p = some p') :
    Acts q t c p (.respond r handled) c p' := by
  unfold respond at h
  split at h
  · split at h <;> cases h
    · exact .stores rfl
    · exact .answers rfl (.inr ⟨_, rfl⟩)
    · exact .answers rfl (.inl rfl)
  · cases h

private theorem dropped_acts {r : R} (h : dropped p = some p') : Acts q t c p (.drop r) c p' := by
  have hp : p' = .dropped p.held [] := by
    cases p <;> simp_all [dropped]
  have hstarted : p ≠ .absent := by
    rintro rfl
    cases h
  exact hp ▸ .drops hstarted

variable [DecidableEq R]

private theorem proceed_cases (h : proceed q t c p = some (c', p')) : Proceeds q t c p c' p' := by
  unfold proceed at h
  split at h
  case h_2 =>
    split at h <;> cases h
    · exact .hit _ ‹_›
    · exact .miss ‹_›
  case h_6 =>
    split at h <;> cases h
    · exact .add ‹_›
    · exact .taken _ ‹_›
  case h_12 =>
    split at h <;> cases h
    · exact .owner ‹_›
    · exact .skip ‹_›
  all_goals cases h
  all_goals constructor

private theorem cleanUp_acts {r : R} {m : Key} (h : cleanUp t m c p = some (c', p')) :
    Acts q t c p (.cleanUp r m) c' p' := by
  unfold cleanUp at h
  split at h
  case h_2 => cases h
  case h_1 checking deleting =>
    split at h
    case isTrue hm =>
      split at h <;> cases h
      case isTrue =>
        refine .cleans rfl rfl (.keeps ?_)
        exact ((List.perm_cons_erase hm).append_right _).trans List.perm_middle.symm
      case isFalse other =>
        refine .cleans rfl rfl (.finds m other ?_)
        exact (List.perm_cons_erase hm).append_right _
    case isFalse =>
      split at h <;> cases h
      case isTrue hm =>
        refine .cleans rfl rfl (.frees m ?_)
        exact ((List.perm_cons_erase hm).append_left _).trans List.perm_middle

/-- A step changes the progress of its own request only. -/
theorem step_cases {req : R → Request} {e : Event R A} {w w' : World R A}
    (h : step req e w = some w') : ∃ c p,
      Acts (req e.request) (token req e.request) w.cache (w.progress e.request) e c p ∧
        w' = w.set e.request (c, p) := by
  cases e with
  | proceed r =>
    obtain ⟨⟨c, p⟩, hstep, rfl⟩ := Option.map_eq_some_iff.mp h
    exact ⟨c, p, .proceeds (proceed_cases hstep), rfl⟩
  | respond r handled =>
    obtain ⟨p, hstep, rfl⟩ := Option.map_eq_some_iff.mp h
    exact ⟨_, p, respond_acts hstep, rfl⟩
  | drop r =>
    obtain ⟨p, hstep, rfl⟩ := Option.map_eq_some_iff.mp h
    exact ⟨_, p, dropped_acts hstep, rfl⟩
  | cleanUp r m =>
    obtain ⟨⟨c, p⟩, hstep, rfl⟩ := Option.map_eq_some_iff.mp h
    exact ⟨c, p, cleanUp_acts hstep, rfl⟩

theorem World.set_progress (w : World R A) (r r' : R) (c : Cache R A) (p : Progress A) :
    (w.set r (c, p)).progress r' = if r' = r then p else w.progress r' := by
  simp [World.set, update_apply]

end Acts

end Rustango.Idempotency
