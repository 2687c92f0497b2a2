import Mathlib
import Rustango.Cache.Flat
import Rustango.Cache.KeySpace
import Rustango.DatabaseCache.Ops
import Rustango.Lib.Halves
import Rustango.Lib.Runs
import Rustango.Lib.Threads

/-!
# The fixed-window limiter

`CacheRateLimitLayer` of `rate_limit_cache.rs`: one counter for each bucket and window, in a cache that every process
shares. The calls are programs of single cache operations that interleave in any order.
-/

namespace Rustango.RateLimit.FixedWindow

open Function (update)
open Rustango.Cache (Area KeySpace Reply TenantSlug)
open Rustango.Halves (rsplitOnce)
open Rustango.Runs Rustango.Threads

/-- Where a request counts. -/
inductive Bucket where
  | shared (key : String)
  | tenant (t : TenantSlug)
deriving DecidableEq

/-- The limiter; `window` is in whole seconds. -/
structure Layer where
  capacity : Nat
  capacity_lt : capacity < 2 ^ 32
  window : Nat
  keyPrefix : String

/-- A bucket's counter of one window, which is named by its start in unix seconds. -/
structure Slot where
  bucket : Bucket
  windowStart : Nat
deriving DecidableEq

namespace Layer
variable (l : Layer)

def windowSecs : Nat := max l.window 1

/-- The start of the window of a reading in unix seconds. -/
def windowOf (now : Nat) : Nat := now / l.windowSecs * l.windowSecs

/-- `bucket_cache_key` -/
def cacheKey (s : Slot) : String :=
  match s.bucket with
  | .shared key => KeySpace.global.key .rl (l.keyPrefix ++ ":" ++ key ++ ":" ++ toString s.windowStart)
  | .tenant t => (KeySpace.tenant t).key .rl (l.keyPrefix ++ ":" ++ toString s.windowStart)

def retryAfter (now windowStart : Nat) : Nat := max (windowStart + l.windowSecs - now) 1

end Layer

/-- One cache operation, or a look at the clock. -/
inductive Op where
  | now
  | incr (s : Slot) (by_ : Int)
  | get (s : Slot)
deriving DecidableEq

/-- A look at the clock of the process shows unix seconds; a cache operation may fail. -/
@[reducible] def Op.Answer : Op → Type
  | .now => Nat
  | .incr _ _ => Option Int
  | .get _ => Option (Option String)

abbrev LimiterProg := Prog Op Op.Answer

def now : LimiterProg Nat := Prog.call Op.now
def incr (s : Slot) (by_ : Int) : LimiterProg (Option Int) := Prog.call (Op.incr s by_)
def get (s : Slot) : LimiterProg (Option (Option String)) := Prog.call (Op.get s)

/-- `str::parse::<i64>` -/
def parse (text : String) : Option Int := DatabaseCache.parseI64 text.toList

/-- `u32::try_from(count).unwrap_or(u32::MAX)` -/
def countU32 (n : Int) : Nat := if 0 ≤ n ∧ n < 2 ^ 32 then n.toNat else 2 ^ 32 - 1

section Calls
variable (l : Layer)

/-- `none` for a cache error; a count and the window, or what to wait and the window. -/
def tryTakeIn (bucket : Bucket) : LimiterProg (Option (Except (Nat × Nat) (Nat × Nat))) := do
  let secs ← now
  let windowStart := l.windowOf secs
  match ← incr ⟨bucket, windowStart⟩ 1 with
  | none => pure none
  | some count =>
    if (l.capacity : Int) < count then pure (some (.error (l.retryAfter secs windowStart, windowStart)))
    else pure (some (.ok (countU32 count, windowStart)))

/-- A cache error admits the request uncounted. -/
def takeIn (bucket : Bucket) : LimiterProg (Except Nat (Nat × Nat)) := do
  match ← tryTakeIn l bucket with
  | none => pure (.ok (0, 0))
  | some (.ok (count, windowStart)) => pure (.ok (count, windowStart + l.windowSecs))
  | some (.error (retry, _)) => pure (.error retry)

def tryPeek (key : String) : LimiterProg (Option (Except Nat Unit)) := do
  let secs ← now
  let windowStart := l.windowOf secs
  match ← get ⟨.shared key, windowStart⟩ with
  | none => pure none
  | some stored =>
    if (l.capacity : Int) ≤ (stored.bind parse).getD 0 then pure (some (.error (l.retryAfter secs windowStart)))
    else pure (some (.ok ()))

/-- A past window is left alone, and a counter is never taken below 0. -/
def giveBackAt (key : String) (windowStart : Nat) : LimiterProg Unit := do
  let secs ← now
  if l.windowOf secs ≠ windowStart then pure ()
  else
    let slot : Slot := ⟨.shared key, windowStart⟩
    let current ← get slot
    if ((current.getD none).bind parse).any fun n => 0 < n then
      match ← incr slot (-1) with
      -- Evicted between the read and the decrement: undo it.
      | some n => if n < 0 then do let _ ← incr slot 1; pure () else pure ()
      | none => pure ()
    else pure ()

end Calls

inductive Call where
  | take (bucket : Bucket)
  | tryTake (key : String)
  | peek (key : String)
  | giveBack (key : String) (windowStart : Nat)
deriving DecidableEq

inductive Outcome where
  | taken (r : Except Nat (Nat × Nat))
  | tried (r : Option (Except (Nat × Nat) (Nat × Nat)))
  | peeked (r : Option (Except Nat Unit))
  | done

/-- The call asks for a slot. -/
def Call.takes : Call → Bool
  | .take _ | .tryTake _ => true
  | _ => false

def Call.prog (l : Layer) : Call → LimiterProg Outcome
  | .take bucket => do
    let r ← takeIn l bucket
    pure (.taken r)
  | .tryTake key => do
    let r ← tryTakeIn l (.shared key)
    pure (.tried r)
  | .peek key => do
    let r ← tryPeek l key
    pure (.peeked r)
  | .giveBack key windowStart => do
    giveBackAt l key windowStart
    pure .done

structure Thread where
  call : Call
  prog : LimiterProg Outcome

/-- The clock of the cache in milliseconds, the cache, the slots that were counted in with the time of it, the refunds asked for,
and the calls in progress. -/
structure State where
  now : Nat
  cache : Cache.Store
  admitted : List (Slot × Nat)
  refunds : List Slot
  threads : List Thread

inductive Event where
  | tick (now : Nat)
  | call (c : Call)
  /-- `reading` is what the clock of the process shows, if the call looks at it; `fault` is a cache error, whether the
  cache took the operation or not. -/
  | step (i : Nat) (reading : Nat) (fault : Option Bool)
  | finish (i : Nat)
  | drop (i : Nat)
deriving DecidableEq

def countOf : Reply → Option Int
  | .count n => some n
  | _ => none

def valueOf : Reply → Option String
  | .value v => v
  | _ => none

/-- What an operation answers and makes of the cache; a counter's TTL is a window. -/
def Op.run (l : Layer) (now reading : Nat) (fault : Option Bool) (c : Cache.Store) :
    (o : Op) → o.Answer × Cache.Store
  | .now => (reading, c)
  | .incr s by_ =>
    let told := Cache.runOne now (.incr by_ (some (l.windowSecs * 1000))) (l.cacheKey s) c
    match fault with
    | none => (countOf told.1, told.2)
    | some applied => (none, if applied then told.2 else c)
  | .get s =>
    match fault with
    | none => (some (valueOf (Cache.runOne now .get (l.cacheKey s) c).1), c)
    | some _ => (none, c)

/-- The slot that an operation and its answer admit a call to. -/
def admits (l : Layer) : (o : Op) → o.Answer → Option Slot
  | .incr s _, some n => if n ≤ l.capacity then some s else none
  | _, _ => none

def note (l : Layer) (now : Nat) (c : Call) (o : Op) (ans : o.Answer) (admitted : List (Slot × Nat)) :
    List (Slot × Nat) :=
  if c.takes then (admits l o ans).toList.map (·, now) ++ admitted else admitted

/-- The call at `i` takes an operation. -/
def State.act (l : Layer) (s : State) (i reading : Nat) (fault : Option Bool) (th : Thread) (o : Op)
    (next : o.Answer → LimiterProg Outcome) : State :=
  let ans := (o.run l s.now reading fault s.cache).1
  { s with
    cache := (o.run l s.now reading fault s.cache).2
    admitted := note l s.now th.call o ans s.admitted
    threads := s.threads.set i { th with prog := next ans } }

def Call.refund? : Call → Option Slot
  | .giveBack key windowStart => some ⟨.shared key, windowStart⟩
  | _ => none

def step (l : Layer) : Event → State → Option State
  | .tick now, s => if s.now ≤ now then some { s with now := now } else none
  | .call c, s => some { s with threads := s.threads ++ [⟨c, c.prog l⟩], refunds := c.refund?.toList ++ s.refunds }
  | .step i reading fault, s =>
    match s.threads[i]? with
    | some ⟨call, .op o next⟩ => some (s.act l i reading fault ⟨call, .op o next⟩ o next)
    | _ => none
  | .finish i, s =>
    match s.threads[i]? with
    | some ⟨_, .ret _⟩ => some { s with threads := s.threads.eraseIdx i }
    | _ => none
  | .drop i, s => if i < s.threads.length then some { s with threads := s.threads.eraseIdx i } else none

def fresh : State := ⟨0, fun _ => none, [], [], []⟩

/-- The end of a slot's window in milliseconds. -/
def Layer.windowEnd (l : Layer) (s : Slot) : Nat := (s.windowStart + l.windowSecs) * 1000

/-- An operation on a counter that the cache takes within its window. -/
def Timely (l : Layer) (now : Nat) : Op → Prop
  | .incr s _ => s.windowStart * 1000 ≤ now ∧ now < l.windowEnd s
  | _ => True

/-- Every step but those of a call that counts in a window that is over, or that has not begun: the clock of its process
may be off by no more than that. -/
def Allowed (l : Layer) : Event → State → Prop
  | .step i _ _, s =>
    match s.threads[i]? with
    | some ⟨_, .op o _⟩ => Timely l s.now o
    | _ => True
  | _, _ => True

instance (l : Layer) (now : Nat) (o : Op) : Decidable (Timely l now o) :=
  match o with
  | .incr s _ => inferInstanceAs (Decidable (s.windowStart * 1000 ≤ now ∧ now < l.windowEnd s))
  | .now | .get _ => isTrue trivial

instance (l : Layer) (e : Event) (s : State) : Decidable (Allowed l e s) :=
  match e with
  | .step i _ _ =>
    match h : s.threads[i]? with
    | some ⟨_, .op o _⟩ => decidable_of_iff (Timely l s.now o) (by simp [Allowed, h])
    | some ⟨_, .ret _⟩ => isTrue (by simp [Allowed, h])
    | none => isTrue (by simp [Allowed, h])
  | .tick _ | .call _ | .finish _ | .drop _ => isTrue trivial

theorem first_colon_split {a b x y : List Char} (ha : ':' ∉ a) (hb : ':' ∉ b) (h : a ++ ':' :: x = b ++ ':' :: y) :
    a = b ∧ x = y := by
  have hab := (Cache.colon_split ha hb ⟨[], by rw [List.append_nil, h]⟩).1
  subst hab
  exact ⟨rfl, (List.cons.inj (List.append_cancel_left h)).2⟩

theorem last_colon_split {a b x y : List Char} (hx : ':' ∉ x) (hy : ':' ∉ y) (h : a ++ ':' :: x = b ++ ':' :: y) :
    a = b ∧ x = y := by
  have hreverse := congrArg List.reverse h
  simp only [List.reverse_append, List.reverse_cons, List.append_assoc, List.singleton_append] at hreverse
  obtain ⟨hxy, hab⟩ := first_colon_split (by simpa using hx) (by simpa using hy) hreverse
  exact ⟨List.reverse_injective hab, List.reverse_injective hxy⟩

theorem colon_not_mem_nat (n : Nat) : ':' ∉ (toString n).toList := Cache.colon_not_mem_int (n : Int)

theorem toString_nat_injective {m n : Nat} (h : (toString m).toList = (toString n).toList) : m = n :=
  Int.ofNat.inj (Int.repr_inj.mp (String.toList_inj.mp h))

theorem cacheKey_shared (l : Layer) (key : String) (w : Nat) :
    l.cacheKey ⟨.shared key, w⟩ = Cache.escape (l.keyPrefix ++ ":" ++ key ++ ":" ++ toString w) := rfl

theorem cacheKey_tenant (l : Layer) (t : TenantSlug) (w : Nat) : (l.cacheKey ⟨.tenant t, w⟩).toList =
    "tenant:#org:".toList ++ ((toString t.orgId).toList ++
      ':' :: (t.slug.toList ++ (":rl:".toList ++ l.keyPrefix.toList) ++ ':' :: (toString w).toList)) := by
  simp [Layer.cacheKey, Cache.tenant_key_toList, Area.name, String.toList_append]

/-- No two slots share a counter. -/
theorem cacheKey_injective (l : Layer) {s s' : Slot} (h : l.cacheKey s = l.cacheKey s') : s = s' := by
  obtain ⟨bucket, w⟩ := s
  obtain ⟨bucket', w'⟩ := s'
  cases bucket with
  | shared key =>
    cases bucket' with
    | shared key' =>
      rw [cacheKey_shared, cacheKey_shared] at h
      have hnames := congrArg String.toList (Cache.escape_injective h)
      simp only [String.toList_append, List.append_assoc] at hnames
      have hkeys : (key.toList ++ ':' :: (toString w).toList) = key'.toList ++ ':' :: (toString w').toList :=
        List.append_cancel_left (List.append_cancel_left hnames)
      obtain ⟨hkey, hw⟩ := last_colon_split (colon_not_mem_nat w) (colon_not_mem_nat w') hkeys
      rw [String.toList_inj.mp hkey, toString_nat_injective hw]
    | tenant t =>
      have hstarts : Cache.Starts "tenant:" (l.cacheKey ⟨.tenant t, w'⟩) := Cache.starts_tenant_key t .rl _
      rw [← h] at hstarts
      exact absurd hstarts (Cache.not_starts_tenant_escape _)
  | tenant t =>
    cases bucket' with
    | shared key =>
      have hstarts : Cache.Starts "tenant:" (l.cacheKey ⟨.tenant t, w⟩) := Cache.starts_tenant_key t .rl _
      rw [h] at hstarts
      exact absurd hstarts (Cache.not_starts_tenant_escape _)
    | tenant t' =>
      have htexts := congrArg String.toList h
      rw [cacheKey_tenant, cacheKey_tenant] at htexts
      have hbodies := List.append_cancel_left htexts
      obtain ⟨hid, hslugs⟩ := first_colon_split (Cache.colon_not_mem_int _) (Cache.colon_not_mem_int _) hbodies
      obtain ⟨hslug, hw⟩ := last_colon_split (colon_not_mem_nat w) (colon_not_mem_nat w') hslugs
      have horg : t.orgId = t'.orgId := Int.repr_inj.mp (String.toList_inj.mp hid)
      have hname : t.slug = t'.slug := String.toList_inj.mp (List.append_cancel_right hslug)
      cases t
      cases t'
      simp only at horg hname
      rw [horg, hname, toString_nat_injective hw]

inductive Token where
  | free
  /-- It is to count itself. -/
  | counting (s : Slot)
  /-- It is to give back a slot, and has not looked at the clock. -/
  | owing (s : Slot)
  | refunding (s : Slot)
  | undoing (s : Slot)
deriving DecidableEq

/-- The call may yet take one off the counter. -/
def Token.gives (s : Slot) : Token → Bool
  | .owing s' | .refunding s' => s' = s
  | _ => false

/-- How an operation and its answer move the token. -/
inductive Moves (l : Layer) : Token → (o : Op) → o.Answer → Token → Prop
  | look (secs : Nat) : Moves l .free .now secs .free
  | ask (bucket : Bucket) (secs : Nat) : Moves l .free .now secs (.counting ⟨bucket, l.windowOf secs⟩)
  | count (s : Slot) (ans : Option Int) : Moves l (.counting s) (.incr s 1) ans .free
  | peek (s : Slot) (ans : Option (Option String)) : Moves l .free (.get s) ans .free
  | late (s : Slot) (secs : Nat) : Moves l (.owing s) .now secs .free
  | current (s : Slot) (secs : Nat) (h : l.windowOf secs = s.windowStart) : Moves l (.owing s) .now secs (.refunding s)
  | read (s : Slot) (ans : Option (Option String)) : Moves l (.refunding s) (.get s) ans (.refunding s)
  | refund (s : Slot) (ans : Option Int) :
      Moves l (.refunding s) (.incr s (-1)) ans (if ans.any (· < 0) then .undoing s else .free)
  | undo (s : Slot) (ans : Option Int) : Moves l (.undoing s) (.incr s 1) ans .free

section Follows
variable (l : Layer)

theorem tryTakeIn_follows (bucket : Bucket) :
    (tryTakeIn l bucket).Follows (Moves l) (fun _ tok => tok = .free) .free := by
  intro secs
  refine ⟨_, .ask bucket secs, fun count => ⟨_, .count _ count, ?_⟩⟩
  cases count with
  | none => rfl
  | some count =>
    change Prog.Follows _ _ (if (l.capacity : Int) < count then _ else _) _
    split <;> rfl

theorem takeIn_follows (bucket : Bucket) : (takeIn l bucket).Follows (Moves l) (fun _ tok => tok = .free) .free := by
  apply (tryTakeIn_follows l bucket).bind
  intro r tok htok
  cases r with
  | none => exact htok
  | some r => cases r <;> exact htok

theorem tryPeek_follows (key : String) : (tryPeek l key).Follows (Moves l) (fun _ tok => tok = .free) .free := by
  intro secs
  refine ⟨_, .look secs, fun stored => ⟨_, .peek _ stored, ?_⟩⟩
  cases stored with
  | none => rfl
  | some stored =>
    change Prog.Follows _ _ (if (l.capacity : Int) ≤ (stored.bind parse).getD 0 then _ else _) _
    split <;> rfl

theorem giveBackAt_follows (key : String) (w : Nat) :
    (giveBackAt l key w).Follows (Moves l) (fun _ _ => True) (.owing ⟨.shared key, w⟩) := by
  intro secs
  by_cases hpast : l.windowOf secs ≠ w
  · refine ⟨_, .late _ secs, ?_⟩
    change Prog.Follows _ _ (if l.windowOf secs ≠ w then _ else _) _
    rw [if_pos hpast]
    trivial
  · refine ⟨_, .current _ secs (not_not.mp hpast), ?_⟩
    change Prog.Follows _ _ (if l.windowOf secs ≠ w then _ else _) _
    rw [if_neg hpast]
    intro current
    refine ⟨_, .read _ current, ?_⟩
    change Prog.Follows _ _ (if ((current.getD none).bind parse).any (fun n => decide (0 < n)) = true then _ else _) _
    split
    · intro n
      refine ⟨_, .refund _ n, ?_⟩
      cases n with
      | none => trivial
      | some n =>
        by_cases hneg : n < 0
        · change Prog.Follows _ _ (if n < 0 then _ else _) (if decide (n < 0) = true then _ else _)
          rw [if_pos hneg, if_pos (decide_eq_true hneg)]
          exact fun undone => ⟨_, .undo _ undone, trivial⟩
        · change Prog.Follows _ _ (if n < 0 then _ else _) (if decide (n < 0) = true then _ else _)
          rw [if_neg hneg]
          trivial
    · trivial

def Call.token : Call → Token
  | .giveBack key w => .owing ⟨.shared key, w⟩
  | _ => .free

theorem prog_follows (c : Call) : (c.prog l).Follows (Moves l) (fun _ _ => True) c.token := by
  cases c with
  | take bucket => exact (takeIn_follows l bucket).bind fun _ _ _ => trivial
  | tryTake key => exact (tryTakeIn_follows l (.shared key)).bind fun _ _ _ => trivial
  | peek key => exact (tryPeek_follows l key).bind fun _ _ _ => trivial
  | giveBack key w => exact (giveBackAt_follows l key w).bind fun _ _ _ => trivial

end Follows

section Counters
variable {l : Layer}

/-- How often a slot was counted in. -/
def State.count (s : State) (slot : Slot) : Nat := s.admitted.countP fun p => p.1 = slot

/-- What the counter of a slot holds, `0` where there is none. -/
def counter (l : Layer) (c : Cache.Store) (slot : Slot) : Int :=
  ((c (l.cacheKey slot)).bind fun e => Cache.counterValue e.value).getD 0

/-- A counter holds an `i64`, and lasts up to the end of its window. -/
def Stored (l : Layer) (c : Cache.Store) : Prop :=
  ∀ slot e, c (l.cacheKey slot) = some e → ∃ n t, e = ⟨toString n, some t⟩ ∧ (-2 ^ 63 ≤ n ∧ n < 2 ^ 63) ∧
    l.windowEnd slot ≤ t

theorem counterValue_toString {n : Int} (h : -2 ^ 63 ≤ n ∧ n < 2 ^ 63) : Cache.counterValue (toString n) = some n := by
  rw [Cache.counterValue, show (toString n).toInt? = some n from Int.toInt?_repr n, Option.filter_some, if_pos]
  exact decide_eq_true ⟨rfl, h⟩

theorem counter_update_self (c : Cache.Store) (slot : Slot) {n : Int} (h : -2 ^ 63 ≤ n ∧ n < 2 ^ 63) (t : Option Nat) :
    counter l (update c (l.cacheKey slot) (some ⟨toString n, t⟩)) slot = n := by
  rw [counter, Function.update_self, Option.bind_some, counterValue_toString h, Option.getD_some]

theorem counter_update_of_ne (c : Cache.Store) {slot slot' : Slot} (hne : slot' ≠ slot) (e : Option Cache.Entry) :
    counter l (update c (l.cacheKey slot) e) slot' = counter l c slot' := by
  have hkey : l.cacheKey slot' ≠ l.cacheKey slot := fun h => hne (cacheKey_injective l h)
  simp [counter, Function.update_of_ne hkey]

/-- A counter is taken up or down by what is asked, or left alone and an error answered. -/
theorem incr_cases {c : Cache.Store} (h : Stored l c) {now : Nat} {slot : Slot} (hnow : now < l.windowEnd slot)
    (reading : Nat) (fault : Option Bool) (by_ : Int) :
    ((Op.run l now reading fault c (.incr slot by_)).2 = c ∧ (Op.run l now reading fault c (.incr slot by_)).1 = none) ∨
    ((-2 ^ 63 ≤ counter l c slot + by_ ∧ counter l c slot + by_ < 2 ^ 63) ∧
      (Op.run l now reading fault c (.incr slot by_)).2 = update c (l.cacheKey slot)
        (some ⟨toString (counter l c slot + by_), some (now + l.windowSecs * 1000)⟩) ∧
      ∀ n, (Op.run l now reading fault c (.incr slot by_)).1 = some n → n = counter l c slot + by_) := by
  have hlive : Cache.live now (c (l.cacheKey slot)) = c (l.cacheKey slot) := by
    cases hslot : c (l.cacheKey slot) with
    | none => rfl
    | some e =>
      obtain ⟨n, t, he, -, ht⟩ := h slot e hslot
      have hle : now ≤ t := by omega
      simp [Cache.live, he, hle]
  have hcounter : ((Cache.live now (c (l.cacheKey slot))).bind fun e => Cache.counterValue e.value).getD 0 =
      counter l c slot := by rw [hlive, counter]
  have htold : Cache.runOne now (.incr by_ (some (l.windowSecs * 1000))) (l.cacheKey slot) c =
      if -2 ^ 63 ≤ counter l c slot + by_ ∧ counter l c slot + by_ < 2 ^ 63 then
        (.count (counter l c slot + by_), update c (l.cacheKey slot)
          (some ⟨toString (counter l c slot + by_), some (now + l.windowSecs * 1000)⟩))
      else (.error (.connection "incr: integer out of range (i64 overflow)"), c) := by
    simp only [Cache.runOne, Cache.KeyOp.run, hcounter]
    split
    · cases Cache.live now (c (l.cacheKey slot)) <;> rfl
    · simp
  by_cases hrange : -2 ^ 63 ≤ counter l c slot + by_ ∧ counter l c slot + by_ < 2 ^ 63
  · rw [if_pos hrange] at htold
    cases fault with
    | none =>
      right
      refine ⟨hrange, by simp only [Op.run, htold], fun n hn => ?_⟩
      simp only [Op.run, htold, countOf] at hn
      exact (Option.some.inj hn).symm
    | some applied =>
      cases applied with
      | true => exact .inr ⟨hrange, by simp only [Op.run, htold, if_true], fun n hn => by cases hn⟩
      | false => exact .inl ⟨rfl, rfl⟩
  · rw [if_neg hrange] at htold
    left
    cases fault with
    | none => simp only [Op.run, htold, countOf, and_self]
    | some applied => cases applied <;> simp only [Op.run, htold, if_true, Bool.false_eq_true, if_false, and_self]

theorem Stored.update {c : Cache.Store} (h : Stored l c) {slot : Slot} {n : Int} (hrange : -2 ^ 63 ≤ n ∧ n < 2 ^ 63)
    {t : Nat} (ht : l.windowEnd slot ≤ t) : Stored l (update c (l.cacheKey slot) (some ⟨toString n, some t⟩)) := by
  intro slot' e he
  by_cases hslot : slot' = slot
  · subst hslot
    rw [Function.update_self] at he
    cases he
    exact ⟨n, t, rfl, hrange, ht⟩
  · rw [Function.update_of_ne fun hk => hslot (cacheKey_injective l hk)] at he
    exact h slot' e he

/-- The window of what the token is about starts at a whole number of windows. -/
def Token.Aligned (l : Layer) : Token → Prop
  | .counting s | .refunding s | .undoing s => l.windowSecs ∣ s.windowStart
  | _ => True

/-- The call is a refund. -/
def Token.Refunds (c : Call) : Token → Prop
  | .owing _ | .refunding _ | .undoing _ => c.takes = false
  | _ => True

structure Knows (l : Layer) (tok : Token) (th : Thread) : Prop where
  follows : th.prog.Follows (Moves l) (fun _ _ => True) tok
  aligned : tok.Aligned l
  refunds : tok.Refunds th.call

/-- What is counted in and not given back is on the counter, and fits the capacity. -/
structure Ledger (l : Layer) (s : State) (toks : List Token) : Prop where
  knows : List.Forall₂ (Knows l) toks s.threads
  stored : Stored l s.cache
  counted : ∀ slot, (s.count slot : Int) + toks.countP (Token.gives slot) ≤
    counter l s.cache slot + s.refunds.count slot
  bounded : ∀ slot, s.count slot ≤ l.capacity + s.refunds.count slot
  timed : ∀ p ∈ s.admitted, (p.1.windowStart * 1000 ≤ p.2 ∧ p.2 < l.windowEnd p.1) ∧ l.windowSecs ∣ p.1.windowStart

theorem ledger_fresh : Ledger l fresh [] where
  knows := .nil
  stored := by
    intro slot e he
    cases he
  counted := by
    intro slot
    simp [State.count, fresh, counter]
  bounded := by simp [State.count, fresh]
  timed := by simp [fresh]

variable {s : State} {toks before after : List Token} {tok tok' : Token}

theorem Ledger.tick (h : Ledger l s toks) (now : Nat) : Ledger l { s with now := now } toks :=
  ⟨h.knows, h.stored, h.counted, h.bounded, h.timed⟩

theorem Ledger.call (h : Ledger l s toks) (c : Call) :
    Ledger l { s with threads := s.threads ++ [⟨c, c.prog l⟩], refunds := c.refund?.toList ++ s.refunds }
      (toks ++ [c.token]) where
  knows := by
    refine List.rel_append h.knows (.cons ⟨prog_follows l c, ?_, ?_⟩ .nil)
    · cases c <;> trivial
    · cases c with
      | giveBack key w => rfl
      | _ => trivial
  stored := h.stored
  counted slot := by
    have hcounted := h.counted slot
    cases c with
    | giveBack key w =>
      by_cases hslot : slot = ⟨.shared key, w⟩
      · subst hslot
        simp only [Call.refund?, Option.toList_some, List.singleton_append, List.count_cons_self, Call.token,
          List.countP_append, List.countP_singleton, Token.gives, decide_true, if_true]
        push_cast
        change (s.count _ : Int) + _ ≤ _
        omega
      · have hne : (⟨.shared key, w⟩ : Slot) ≠ slot := fun heq => hslot heq.symm
        simp only [Call.refund?, Option.toList_some, List.singleton_append, List.count_cons_of_ne hne, Call.token,
          List.countP_append, List.countP_singleton, Token.gives, decide_eq_false hne, Bool.false_eq_true, if_false]
        change (s.count _ : Int) + _ ≤ _
        omega
    | take bucket | tryTake key | peek key =>
      simpa [State.count, Call.refund?, Call.token, List.countP_append, Token.gives] using hcounted
  bounded slot := by
    have hbounded := h.bounded slot
    rw [List.count_append]
    change s.count slot ≤ _
    omega
  timed := h.timed

theorem Ledger.remove (h : Ledger l s (before ++ tok :: after)) {threads : List Thread}
    (hknows : List.Forall₂ (Knows l) (before ++ after) threads) :
    Ledger l { s with threads := threads } (before ++ after) where
  knows := hknows
  stored := h.stored
  counted slot := by
    have hcounted := h.counted slot
    rw [List.countP_append, List.countP_cons] at hcounted
    rw [List.countP_append]
    change (s.count slot : Int) + _ ≤ _
    push_cast at hcounted ⊢
    split at hcounted <;> omega
  bounded := h.bounded
  timed := h.timed

theorem gives_mono {slot : Slot} (h : tok'.gives slot = true → tok.gives slot = true) :
    (if tok'.gives slot = true then 1 else 0 : Int) ≤ if tok.gives slot = true then 1 else 0 := by
  by_cases hnew : tok'.gives slot = true
  · rw [if_pos hnew, if_pos (h hnew)]
  · rw [if_neg hnew]
    split <;> decide

theorem Ledger.look (h : Ledger l s (before ++ tok :: after)) {threads : List Thread}
    (hgives : ∀ slot, tok'.gives slot = true → tok.gives slot = true)
    (hknows : List.Forall₂ (Knows l) (before ++ tok' :: after) threads) :
    Ledger l { s with threads := threads } (before ++ tok' :: after) where
  knows := hknows
  stored := h.stored
  counted slot := by
    have hcounted := h.counted slot
    have hmono := gives_mono (hgives slot)
    rw [List.countP_append, List.countP_cons] at hcounted ⊢
    change (s.count slot : Int) + _ ≤ _
    push_cast at hcounted ⊢
    linarith
  bounded := h.bounded
  timed := h.timed

theorem windowEnd_le {slot : Slot} {now : Nat} (hbegun : slot.windowStart * 1000 ≤ now) :
    l.windowEnd slot ≤ now + l.windowSecs * 1000 := by
  rw [Layer.windowEnd, Nat.add_mul]
  exact Nat.add_le_add_right hbegun _

/-- A counter that is moved by `by_` keeps the ledger where what the call may still take off is no more than that. -/
theorem Ledger.moveCounter (h : Ledger l s (before ++ tok :: after)) {threads : List Thread} {slot : Slot} {by_ : Int}
    {admitted : List (Slot × Nat)} (hbegun : slot.windowStart * 1000 ≤ s.now)
    (hrange : -2 ^ 63 ≤ counter l s.cache slot + by_ ∧ counter l s.cache slot + by_ < 2 ^ 63)
    (hknows : List.Forall₂ (Knows l) (before ++ tok' :: after) threads)
    (hothers : ∀ other, other ≠ slot → admitted.countP (fun p => p.1 = other) = s.count other)
    (hgives : ∀ other, other ≠ slot → tok'.gives other = true → tok.gives other = true)
    (hslot : (admitted.countP (fun p => p.1 = slot) : Int) + (if tok'.gives slot then 1 else 0) ≤
      s.count slot + (if tok.gives slot then 1 else 0) + by_)
    (hbounded : admitted.countP (fun p => p.1 = slot) ≤ l.capacity + s.refunds.count slot)
    (htimed : ∀ p ∈ admitted, (p.1.windowStart * 1000 ≤ p.2 ∧ p.2 < l.windowEnd p.1) ∧ l.windowSecs ∣ p.1.windowStart) :
    Ledger l { s with
      cache := update s.cache (l.cacheKey slot)
        (some ⟨toString (counter l s.cache slot + by_), some (s.now + l.windowSecs * 1000)⟩)
      admitted := admitted
      threads := threads } (before ++ tok' :: after) where
  knows := hknows
  stored := h.stored.update hrange (windowEnd_le hbegun)
  counted other := by
    have hcounted := h.counted other
    rw [List.countP_append, List.countP_cons] at hcounted ⊢
    change (admitted.countP (fun p => p.1 = other) : Int) + _ ≤ counter l (update s.cache _ _) other + _
    push_cast at hcounted ⊢
    by_cases hother : other = slot
    · subst hother
      rw [counter_update_self s.cache other hrange]
      generalize (if tok.gives other = true then 1 else 0 : Int) = old at hcounted hslot
      generalize (if tok'.gives other = true then 1 else 0 : Int) = new at hslot ⊢
      omega
    · have hmono := gives_mono (hgives other hother)
      rw [counter_update_of_ne s.cache hother, hothers other hother]
      change (s.count other : Int) + _ ≤ _ at hcounted
      linarith
  bounded other := by
    by_cases hother : other = slot
    · subst hother
      exact hbounded
    · change admitted.countP (fun p => p.1 = other) ≤ _
      rw [hothers other hother]
      exact h.bounded other
  timed := htimed

theorem dvd_windowOf (l : Layer) (secs : Nat) : l.windowSecs ∣ l.windowOf secs := Nat.dvd_mul_left _ _

theorem note_of_none (now : Nat) (c : Call) (o : Op) (ans : o.Answer) (admitted : List (Slot × Nat))
    (h : admits l o ans = none ∨ c.takes = false) : note l now c o ans admitted = admitted := by
  unfold note
  rcases h with h | h
  · rw [h]
    split <;> rfl
  · rw [h]
    rfl

/-- A count that is not admitted moves the counter alone. -/
theorem Ledger.moveUncounted (h : Ledger l s (before ++ tok :: after)) {threads : List Thread} {slot : Slot} {by_ : Int}
    (hbegun : slot.windowStart * 1000 ≤ s.now)
    (hrange : -2 ^ 63 ≤ counter l s.cache slot + by_ ∧ counter l s.cache slot + by_ < 2 ^ 63)
    (hknows : List.Forall₂ (Knows l) (before ++ tok' :: after) threads)
    (hgives : ∀ other, tok'.gives other = false)
    (hby : -1 ≤ by_) (hslot : by_ < 0 → tok.gives slot = true) : Ledger l { s with
      cache := update s.cache (l.cacheKey slot)
        (some ⟨toString (counter l s.cache slot + by_), some (s.now + l.windowSecs * 1000)⟩)
      threads := threads } (before ++ tok' :: after) := by
  refine h.moveCounter hbegun hrange hknows (fun _ _ => rfl) ?_ ?_ (h.bounded slot) h.timed
  · intro other _ hnew
    rw [hgives other] at hnew
    cases hnew
  · rw [hgives slot]
    simp only [Bool.false_eq_true, if_false]
    change (s.count slot : Int) + _ ≤ _
    clear hrange
    by_cases hneg : by_ < 0
    · rw [if_pos (hslot hneg)]
      omega
    · split <;> omega

/-- A call that counts itself is admitted within the capacity. -/
theorem Ledger.count (h : Ledger l s (before ++ .counting slot :: after)) {i reading : Nat} {fault : Option Bool}
    {c : Call} {next : Option Int → LimiterProg Outcome} {slot : Slot}
    (haligned : l.windowSecs ∣ slot.windowStart) (htimely : Timely l s.now (.incr slot 1))
    (hknows : List.Forall₂ (Knows l) (before ++ .free :: after)
      (s.threads.set i ⟨c, next (Op.run l s.now reading fault s.cache (.incr slot 1)).1⟩)) :
    Ledger l (s.act l i reading fault ⟨c, .op (.incr slot 1) next⟩ (.incr slot 1) next) (before ++ .free :: after) := by
  unfold State.act
  rcases incr_cases h.stored htimely.2 reading fault 1 with hquiet | hmoved
  · have hnote := note_of_none (l := l) s.now c (.incr slot 1) (Op.run l s.now reading fault s.cache (.incr slot 1)).1
      s.admitted (.inl (by rw [hquiet.2]; rfl))
    simp only [hnote, hquiet.1]
    exact h.look (by simp [Token.gives]) hknows
  · obtain ⟨hrange, hcache, hcount⟩ := hmoved
    generalize hans : (Op.run l s.now reading fault s.cache (.incr slot 1)).1 = ans at hknows hcount ⊢
    simp only [hcache]
    by_cases hadmits : c.takes = true ∧ ∃ n, ans = some n ∧ n ≤ l.capacity
    · obtain ⟨htakes, n, hn, hle⟩ := hadmits
      have hnote : note l s.now c (.incr slot 1) ans s.admitted = (slot, s.now) :: s.admitted := by
        simp only [note, htakes, if_true, hn, admits, hle, Option.toList_some, List.map_cons, List.map_nil,
          List.singleton_append]
      have hcounted := h.counted slot
      have hvalue := hcount n hn
      rw [List.countP_append, List.countP_cons] at hcounted
      rw [hnote]
      refine h.moveCounter htimely.1 hrange hknows ?_ (by simp [Token.gives]) ?_ ?_ ?_
      · intro other hother
        simp [State.count, hother.symm]
      · simp [State.count, Token.gives]
      · simp only [List.countP_cons_of_pos, decide_true]
        change s.count slot + 1 ≤ _
        push_cast at hcounted
        clear hrange hcache
        omega
      · intro p hp
        rcases List.mem_cons.mp hp with hnew | hold
        · subst hnew
          exact ⟨htimely, haligned⟩
        · exact h.timed p hold
    · have hnote : note l s.now c (.incr slot 1) ans s.admitted = s.admitted := by
        apply note_of_none
        by_cases htakes : c.takes = true
        · left
          cases ans with
          | none => rfl
          | some n =>
            have hfull : ¬ n ≤ l.capacity := fun hle => hadmits ⟨htakes, n, rfl, hle⟩
            simp only [admits, if_neg hfull]
        · right
          simpa using htakes
      rw [hnote]
      exact h.moveUncounted htimely.1 hrange hknows (fun _ => rfl) (by decide) (fun hneg => absurd hneg (by decide))

theorem Ledger.repay (h : Ledger l s (before ++ tok :: after)) {i reading : Nat} {fault : Option Bool} {c : Call}
    {by_ : Int} {slot : Slot} {next : Option Int → LimiterProg Outcome} (htimely : Timely l s.now (.incr slot by_))
    (hcall : c.takes = false)
    (hknows : List.Forall₂ (Knows l) (before ++ tok' :: after)
      (s.threads.set i ⟨c, next (Op.run l s.now reading fault s.cache (.incr slot by_)).1⟩))
    (hgives : ∀ other, tok'.gives other = false) (hby : -1 ≤ by_) (hslot : by_ < 0 → tok.gives slot = true) :
    Ledger l (s.act l i reading fault ⟨c, .op (.incr slot by_) next⟩ (.incr slot by_) next) (before ++ tok' :: after) := by
  have hnote := note_of_none (l := l) s.now c (.incr slot by_) (Op.run l s.now reading fault s.cache (.incr slot by_)).1
    s.admitted (.inr hcall)
  unfold State.act
  simp only [hnote]
  rcases incr_cases h.stored htimely.2 reading fault by_ with hquiet | hmoved
  · rw [hquiet.1]
    exact h.look (fun other hnew => by rw [hgives other] at hnew; cases hnew) hknows
  · rw [hmoved.2.1]
    exact h.moveUncounted htimely.1 hmoved.1 hknows hgives hby hslot

/-- One operation of a call. -/
theorem Ledger.act (h : Ledger l s (before ++ tok :: after)) {i reading : Nat} {fault : Option Bool} {c : Call} {o : Op}
    {next : o.Answer → LimiterProg Outcome} (hmove : Moves l tok o (o.run l s.now reading fault s.cache).1 tok')
    (hknows : Knows l tok ⟨c, .op o next⟩)
    (hfollows : (next (o.run l s.now reading fault s.cache).1).Follows (Moves l) (fun _ _ => True) tok')
    (htimely : Timely l s.now o)
    (hset : ∀ th, Knows l tok' th → List.Forall₂ (Knows l) (before ++ tok' :: after) (s.threads.set i th)) :
    Ledger l (s.act l i reading fault ⟨c, .op o next⟩ o next) (before ++ tok' :: after) := by
  have haligned := hknows.aligned
  have hcall := hknows.refunds
  generalize hans : (o.run l s.now reading fault s.cache).1 = ans at hmove hfollows
  have hlook : (o.run l s.now reading fault s.cache).2 = s.cache → admits l o ans = none →
      (∀ slot, tok'.gives slot = true → tok.gives slot = true) → Knows l tok' ⟨c, next ans⟩ →
      Ledger l (s.act l i reading fault ⟨c, .op o next⟩ o next) (before ++ tok' :: after) := by
    intro hcache hnone hgives hnew
    have hnote := note_of_none (l := l) s.now c _ _ s.admitted (.inl hnone)
    unfold State.act
    simp only [hans, hcache, hnote]
    exact h.look hgives (hset _ hnew)
  cases hmove with
  | look secs => exact hlook rfl rfl (fun _ hgives => hgives) ⟨hfollows, trivial, trivial⟩
  | ask bucket secs =>
    exact hlook rfl rfl (fun _ hgives => by cases hgives) ⟨hfollows, dvd_windowOf l secs, trivial⟩
  | count slot =>
    subst hans
    exact h.count haligned htimely (hset _ ⟨hfollows, trivial, trivial⟩)
  | peek slot =>
    have hcache : (Op.run l s.now reading fault s.cache (.get slot)).2 = s.cache := by cases fault <;> rfl
    exact hlook hcache rfl (fun _ hgives => hgives) ⟨hfollows, trivial, trivial⟩
  | late slot secs => exact hlook rfl rfl (fun _ hgives => by cases hgives) ⟨hfollows, trivial, trivial⟩
  | current slot secs hwindow =>
    refine hlook rfl rfl (fun _ hgives => hgives) ⟨hfollows, ?_, hcall⟩
    change l.windowSecs ∣ slot.windowStart
    rw [← hwindow]
    exact dvd_windowOf l secs
  | read slot =>
    have hcache : (Op.run l s.now reading fault s.cache (.get slot)).2 = s.cache := by cases fault <;> rfl
    exact hlook hcache rfl (fun _ hgives => hgives) ⟨hfollows, haligned, hcall⟩
  | refund slot =>
    subst hans
    refine h.repay htimely hcall (hset _ ⟨hfollows, ?_, ?_⟩) ?_ (by decide) (fun _ => decide_eq_true rfl)
    · split
      · exact haligned
      · trivial
    · split
      · exact hcall
      · trivial
    · intro other
      split <;> rfl
  | undo slot =>
    subst hans
    exact h.repay htimely hcall (hset _ ⟨hfollows, trivial, trivial⟩) (fun _ => rfl) (by decide)
      (fun hneg => absurd hneg (by decide))

theorem Ledger.step (h : Ledger l s toks) {e : Event} {s' : State} (hallowed : Allowed l e s)
    (hstep : step l e s = some s') : ∃ toks', Ledger l s' toks' := by
  cases e with
  | tick now =>
    simp only [FixedWindow.step] at hstep
    split at hstep
    · cases hstep
      exact ⟨toks, h.tick now⟩
    · cases hstep
  | call c =>
    cases hstep
    exact ⟨_, h.call c⟩
  | step i reading fault =>
    simp only [FixedWindow.step] at hstep
    split at hstep
    · rename_i c o next hi
      cases hstep
      obtain ⟨before, tok, after, htoks, hknows, hset, -⟩ := forall₂_at h.knows hi
      subst htoks
      obtain ⟨tok', hmove, hfollows⟩ := hknows.follows (o.run l s.now reading fault s.cache).1
      have htimely : Timely l s.now o := by
        simp only [Allowed, hi] at hallowed
        exact hallowed
      exact ⟨_, h.act hmove hknows hfollows htimely fun th hth => hset tok' th hth⟩
    · cases hstep
  | finish i =>
    simp only [FixedWindow.step] at hstep
    split at hstep
    · rename_i c out hi
      cases hstep
      obtain ⟨before, tok, after, htoks, -, -, herase⟩ := forall₂_at h.knows hi
      subst htoks
      exact ⟨_, h.remove herase⟩
    · cases hstep
  | drop i =>
    simp only [FixedWindow.step] at hstep
    split at hstep
    · rename_i hi
      cases hstep
      obtain ⟨before, tok, after, htoks, -, -, herase⟩ := forall₂_at h.knows (List.getElem?_eq_getElem hi)
      subst htoks
      exact ⟨_, h.remove herase⟩
    · cases hstep

theorem ledger_of_reach (h : Reach (step l) (Allowed l) fresh s) : ∃ toks, Ledger l s toks := by
  refine h.invariant (P := fun s => ∃ toks, Ledger l s toks) ⟨[], ledger_fresh⟩ ?_
  intro e x y hallowed hstep hx
  obtain ⟨toks, hledger⟩ := hx
  exact hledger.step hallowed hstep

end Counters

/-- However the calls of all processes interleave, fail or are dropped, a bucket is admitted to a window no more often
than the capacity and the refunds asked for in it allow. -/
theorem window_limited (l : Layer) {s : State} (h : Reach (step l) (Allowed l) fresh s) (slot : Slot) :
    s.count slot ≤ l.capacity + s.refunds.count slot := by
  obtain ⟨toks, hledger⟩ := ledger_of_reach h
  exact hledger.bounded slot

theorem countP_le_add {α : Type*} {p q r : α → Bool} {list : List α}
    (h : ∀ a ∈ list, p a = true → q a = true ∨ r a = true) :
    list.countP p ≤ list.countP q + list.countP r := by
  induction list with
  | nil => simp
  | cons a list ih =>
    have hrest := ih fun b hb => h b (List.mem_cons_of_mem a hb)
    have hhead := h a List.mem_cons_self
    simp only [List.countP_cons]
    by_cases hp : p a = true
    · rcases hhead hp with hq | hr
      · rw [if_pos hp, if_pos hq]
        omega
      · rw [if_pos hp, if_pos hr]
        omega
    · rw [if_neg hp]
      omega

theorem add_countP_le {α : Type*} {p q r : α → Bool} {list : List α} (hq : ∀ a, q a = true → p a = true ∧ r a = false)
    (hr : ∀ a, r a = true → p a = true) : list.countP q + list.countP r ≤ list.countP p := by
  induction list with
  | nil => simp
  | cons a list ih =>
    simp only [List.countP_cons]
    by_cases hqa : q a = true
    · obtain ⟨hpa, hra⟩ := hq a hqa
      rw [if_pos hqa, if_pos hpa, hra]
      simp only [Bool.false_eq_true, if_false]
      omega
    · rw [if_neg hqa]
      by_cases hra : r a = true
      · rw [if_pos hra, if_pos (hr a hra)]
        omega
      · rw [if_neg hra]
        omega

/-- A window that a moment of the stretch lies in is the one of its start, or the next. -/
theorem window_of_stretch (l : Layer) {t time w : Nat} (hfrom : t ≤ time) (huntil : time < t + l.windowSecs * 1000)
    (hbegun : w * 1000 ≤ time) (hend : time < (w + l.windowSecs) * 1000) (haligned : l.windowSecs ∣ w) :
    w = l.windowOf (t / 1000) ∨ w = l.windowOf (t / 1000) + l.windowSecs := by
  have hpos : 0 < l.windowSecs := Nat.lt_of_lt_of_le Nat.one_pos (Nat.le_max_right _ _)
  obtain ⟨k, hk⟩ := haligned
  unfold Layer.windowOf
  generalize hd : t / 1000 / l.windowSecs = d
  generalize l.windowSecs = size at *
  have hsecs := Nat.div_add_mod (t / 1000) size
  have hrest := Nat.mod_lt (t / 1000) hpos
  rw [hd] at hsecs
  have hlow : t / 1000 < w + size := by omega
  have hhigh : w < t / 1000 + 1 + size := by omega
  subst hk
  have hdk : d < k + 1 := by
    apply Nat.lt_of_mul_lt_mul_left (a := size)
    rw [Nat.mul_add, Nat.mul_one]
    omega
  have hkd : k < d + 2 := by
    apply Nat.lt_of_mul_lt_mul_left (a := size)
    rw [Nat.mul_add]
    omega
  rcases (show k = d ∨ k = d + 1 by omega) with heq | heq
  · left
    rw [heq, Nat.mul_comm]
  · right
    rw [heq, Nat.mul_add, Nat.mul_one, Nat.mul_comm]

/-- Over any stretch as long as a window a bucket is admitted at most twice the capacity, and the refunds asked for. -/
theorem stretch_limited (l : Layer) {s : State} (h : Reach (step l) (Allowed l) fresh s) (bucket : Bucket) (t : Nat) :
    (s.admitted.countP fun p => p.1.bucket = bucket ∧ t ≤ p.2 ∧ p.2 < t + l.windowSecs * 1000) ≤
      2 * l.capacity + s.refunds.countP fun slot => slot.bucket = bucket := by
  obtain ⟨toks, hledger⟩ := ledger_of_reach h
  generalize hw : l.windowOf (t / 1000) = w
  have hpos : 0 < l.windowSecs := Nat.lt_of_lt_of_le Nat.one_pos (Nat.le_max_right _ _)
  have hslots : (s.admitted.countP fun p => p.1.bucket = bucket ∧ t ≤ p.2 ∧ p.2 < t + l.windowSecs * 1000) ≤
      s.count ⟨bucket, w⟩ + s.count ⟨bucket, w + l.windowSecs⟩ := by
    apply countP_le_add
    intro p hp hin
    simp only [decide_eq_true_eq] at hin ⊢
    obtain ⟨⟨hbegun, hend⟩, haligned⟩ := hledger.timed p hp
    have hslot : p.1 = ⟨p.1.bucket, p.1.windowStart⟩ := rfl
    have hwindow := window_of_stretch l hin.2.1 hin.2.2 hbegun hend haligned
    rw [hw] at hwindow
    rw [hslot, hin.1]
    exact hwindow.imp (congrArg (Slot.mk bucket)) (congrArg (Slot.mk bucket))
  have hfirst := hledger.bounded ⟨bucket, w⟩
  have hsecond := hledger.bounded ⟨bucket, w + l.windowSecs⟩
  have hrefunds : s.refunds.count ⟨bucket, w⟩ + s.refunds.count ⟨bucket, w + l.windowSecs⟩ ≤
      s.refunds.countP fun slot => slot.bucket = bucket := by
    apply add_countP_le
    · intro slot heq
      have hslot : slot = ⟨bucket, w⟩ := eq_of_beq heq
      subst hslot
      refine ⟨decide_eq_true rfl, beq_eq_false_iff_ne.mpr fun hne => ?_⟩
      have hstart := congrArg Slot.windowStart hne
      simp only at hstart
      omega
    · intro slot heq
      have hslot : slot = ⟨bucket, w + l.windowSecs⟩ := eq_of_beq heq
      subst hslot
      exact decide_eq_true rfl
  omega

theorem one_lt_capacity : 1 < 2 ^ 32 := by decide

/-- One request in ten seconds. -/
private def oncePerTen : Layer := ⟨1, one_lt_capacity, 10, "rl"⟩

/-- Two requests ask in the same window, by clocks that disagree, and the first is counted. -/
private def twoRequests : List Event :=
  [.tick 15000, .call (.take (.shared "a")), .call (.take (.shared "a")), .step 0 19 none, .step 1 11 none,
    .step 0 0 none, .tick 19000, .finish 0]

private def slotOfA : Slot := ⟨.shared "a", 10⟩

theorem one_of_two_admitted : ∃ s, Reach (step oncePerTen) (Allowed oncePerTen) fresh s ∧ s.count slotOfA = 1 ∧
    s.count slotOfA ≤ oncePerTen.capacity + s.refunds.count slotOfA := by
  have hrun : (steps (guarded (step oncePerTen) (Allowed oncePerTen)) twoRequests fresh).map (·.count slotOfA) =
      some 1 := by rfl
  obtain ⟨s, hs, hcount⟩ := Option.map_eq_some_iff.mp hrun
  have hreach : Reach (step oncePerTen) (Allowed oncePerTen) fresh s := .of_guarded hs
  exact ⟨s, hreach, hcount, window_limited oncePerTen hreach slotOfA⟩

theorem one_of_two_admitted_in_stretch : ∃ s, Reach (step oncePerTen) (Allowed oncePerTen) fresh s ∧
    s.count slotOfA = 1 ∧
      (s.admitted.countP fun p => p.1.bucket = .shared "a" ∧ 12000 ≤ p.2 ∧ p.2 < 12000 + oncePerTen.windowSecs * 1000) ≤
        2 * oncePerTen.capacity + s.refunds.countP fun slot => slot.bucket = .shared "a" := by
  have hrun : (steps (guarded (step oncePerTen) (Allowed oncePerTen)) twoRequests fresh).map (·.count slotOfA) =
      some 1 := by rfl
  obtain ⟨s, hs, hcount⟩ := Option.map_eq_some_iff.mp hrun
  have hreach : Reach (step oncePerTen) (Allowed oncePerTen) fresh s := .of_guarded hs
  exact ⟨s, hreach, hcount, stretch_limited oncePerTen hreach (.shared "a") 12000⟩

end Rustango.RateLimit.FixedWindow
