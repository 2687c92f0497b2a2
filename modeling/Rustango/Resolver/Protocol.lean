import Rustango.Resolver.Run

/-!
# What a call knows between two operations

Whether it holds a row, and how far its poll or its invalidation is.
-/

namespace Rustango.Resolver

open Rustango.Threads

/-- The maps of some caches, in the order they are cleared. -/
def mapsOf : List CacheId → List (CacheId × Side)
  | [] => []
  | c :: cs => (c, .hits) :: (c, .misses) :: mapsOf cs

/-- How far a poll or an invalidation is: a fingerprint is due, one was read, and the maps left to
clear. -/
inductive Phase where
  | idle
  | claimed (t : Table) (previous : Option Nat)
  | seen (t : Table) (previous : Option Nat) (current : Nat)
  | sweeping (t : Table) (left : List (CacheId × Side))

/-- `row`: what the call knows was read from the registry, by this call or another. -/
structure Tok where
  row : Bool
  phase : Phase

/-- An operation on flights and breakers. -/
def Op.aside : Op → Bool
  | .flight _ _ | .lock _ | .unlist _ _ _ | .unlock _ | .openBreaker _ | .closeBreaker _ => true
  | _ => false

/-- How an operation of a lookup in the cache `c` and its answer move the token. -/
inductive Moves (c : CacheId) : Tok → (o : Op) → o.Answer → Tok → Prop where
  | lookup (row : Bool) (side : Side) (key : String) (found : Option side.Value) :
      Moves c ⟨row, .idle⟩ (.lookup c side key) found ⟨found.isSome, .idle⟩
  | remove (row : Bool) (side : Side) (key : String) :
      Moves c ⟨row, .idle⟩ (.remove c side key) () ⟨row, .idle⟩
  | insert (side : Side) (cap : Nat) (key : String) (value : side.Value) :
      Moves c ⟨true, .idle⟩ (.insert c side cap key value) () ⟨true, .idle⟩
  | findOrg (row : Bool) (f : OrgFilter) (found : Option (Option Org)) :
      Moves c ⟨row, .idle⟩ (.findOrg f) found ⟨true, .idle⟩
  | findHost (row : Bool) (host : String) (found : Option (Option Int)) :
      Moves c ⟨row, .idle⟩ (.findHost host) found ⟨true, .idle⟩
  | isOpen (row : Bool) (b : BreakerId) (window : Nat) (down : Bool) :
      Moves c ⟨row, .idle⟩ (.isOpen b window) down ⟨row, .idle⟩
  | aside (row : Bool) (o : Op) (ans : o.Answer) (h : o.aside = true) :
      Moves c ⟨row, .idle⟩ o ans ⟨row, .idle⟩
  | notDue (row : Bool) (t : Table) (interval : Nat) :
      Moves c ⟨row, .idle⟩ (.claim t interval) .notDue ⟨row, .idle⟩
  | taken (row : Bool) (t : Table) (interval : Nat) (previous : Option Nat) :
      Moves c ⟨row, .idle⟩ (.claim t interval) (.taken previous) ⟨row, .claimed t previous⟩
  | declined (row : Bool) (t : Table) (previous : Option Nat) (b : BreakerId) (window : Nat) :
      Moves c ⟨row, .claimed t previous⟩ (.isOpen b window) true ⟨row, .idle⟩
  | closed (row : Bool) (t : Table) (previous : Option Nat) (b : BreakerId) (window : Nat) :
      Moves c ⟨row, .claimed t previous⟩ (.isOpen b window) false ⟨row, .claimed t previous⟩
  | failed (row : Bool) (t : Table) (previous : Option Nat) :
      Moves c ⟨row, .claimed t previous⟩ (.generation t) none ⟨row, .idle⟩
  | generation (row : Bool) (t : Table) (previous : Option Nat) (current : Nat) :
      Moves c ⟨row, .claimed t previous⟩ (.generation t) (some current)
        ⟨row, .seen t previous current⟩
  | record (row : Bool) (t : Table) (previous : Option Nat) (current : Nat) (changed : Bool) :
      Moves c ⟨row, .seen t previous current⟩ (.record t previous current) changed
        ⟨row, .sweeping t (if changed then mapsOf t.caches else [])⟩
  | clear (row : Bool) (t : Table) (d : CacheId) (side : Side) (left : List (CacheId × Side)) :
      Moves c ⟨row, .sweeping t ((d, side) :: left)⟩ (.clear d side) () ⟨row, .sweeping t left⟩
  | settle (row : Bool) (t : Table) :
      Moves c ⟨row, .sweeping t []⟩ (.settle t) () ⟨row, .idle⟩

/-- A call returns with nothing left to clear, and a tenant only from a row. -/
def Settled (out : Resolved) (tok : Tok) : Prop :=
  tok.phase = .idle ∧ ∀ org, out = some (some org) → tok.row = true

variable (c : CacheId)

private theorem clearCaches_follows (t : Table) (row : Bool) (cs : List CacheId)
    (left : List (CacheId × Side)) :
    (clearCaches cs).Follows (Moves c) (fun _ tok => tok = ⟨row, .sweeping t left⟩)
      ⟨row, .sweeping t (mapsOf cs ++ left)⟩ := by
  induction cs with
  | nil => rfl
  | cons d cs ih =>
    refine fun _ => ⟨_, .clear row t d .hits _, fun _ => ⟨_, .clear row t d .misses _, ?_⟩⟩
    exact ih

private theorem clearAndSettle_follows (t : Table) (row : Bool) :
    (do clearCaches t.caches; call (.settle t) : ResolverProg Unit).Follows (Moves c)
      (fun _ tok => tok = ⟨row, .idle⟩) ⟨row, .sweeping t (mapsOf t.caches)⟩ := by
  have hclear := clearCaches_follows c t row t.caches []
  rw [List.append_nil] at hclear
  apply hclear.bind
  rintro _ tok rfl
  exact fun _ => ⟨_, .settle row t, rfl⟩

private theorem invalidate_follows (t : Table) (checkEvery : Option Nat) :
    ((Call.invalidate t).prog checkEvery).Follows (Moves c) Settled
      ⟨false, .sweeping t (mapsOf t.caches)⟩ := by
  have hclear := clearCaches_follows c t false t.caches []
  rw [List.append_nil] at hclear
  apply hclear.bind
  rintro _ tok rfl
  exact fun _ => ⟨_, .settle false t, rfl, nofun⟩

/-- A poll's read ends with the fingerprint it answers, or with nothing. -/
def Read (t : Table) (previous : Option Nat) (out : Option (Option Nat)) (tok : Tok) : Prop :=
  match out with
  | some (some current) => tok = ⟨false, .seen t previous current⟩
  | some none | none => tok = ⟨false, .idle⟩

private theorem sync_follows (t : Table) (interval : Option Nat) {read : ResolverProg (Option (Option Nat))}
    {onError : ResolverProg Unit}
    (hread : ∀ previous, read.Follows (Moves c) (Read t previous) ⟨false, .claimed t previous⟩)
    (herror : onError.Follows (Moves c) (fun _ tok => tok = ⟨false, .idle⟩) ⟨false, .idle⟩) :
    (sync t interval read onError).Follows (Moves c) (fun _ tok => tok = ⟨false, .idle⟩)
      ⟨false, .idle⟩ := by
  cases interval with
  | none => rfl
  | some interval =>
    intro claim
    cases claim with
    | notDue => exact ⟨_, .notDue false t interval, rfl⟩
    | taken previous =>
      refine ⟨_, .taken false t interval previous, ?_⟩
      apply (hread previous).bind
      intro out tok htok
      cases out with
      | none =>
        obtain rfl : tok = ⟨false, .idle⟩ := htok
        exact herror
      | some read =>
        cases read with
        | none => exact htok
        | some current =>
          obtain rfl : tok = ⟨false, .seen t previous current⟩ := htok
          intro changed
          refine ⟨_, .record false t previous current changed, ?_⟩
          cases changed with
          | false => exact fun _ => ⟨_, .settle false t, rfl⟩
          | true => exact clearAndSettle_follows c t false

private theorem generation_follows (t : Table) (previous : Option Nat) :
    (do let current ← call (.generation t); pure (current.map some) :
      ResolverProg (Option (Option Nat))).Follows (Moves c) (Read t previous)
      ⟨false, .claimed t previous⟩ := by
  intro current
  cases current with
  | none => exact ⟨_, .failed false t previous, rfl⟩
  | some current => exact ⟨_, .generation false t previous current, rfl⟩

private theorem syncOrgGeneration_follows (checkEvery : Option Nat) :
    (syncOrgGeneration checkEvery).Follows (Moves c) (fun _ tok => tok = ⟨false, .idle⟩)
      ⟨false, .idle⟩ := by
  apply sync_follows
  · intro previous down
    cases down with
    | true => exact ⟨_, .declined false .orgs previous _ _, rfl⟩
    | false => exact ⟨_, .closed false .orgs previous _ _, generation_follows c .orgs previous⟩
  · exact fun _ => ⟨_, .aside false _ _ rfl, rfl⟩

private theorem syncGeneration_follows (checkEvery : Option Nat) :
    (syncGeneration checkEvery).Follows (Moves c) (fun _ tok => tok = ⟨false, .idle⟩)
      ⟨false, .idle⟩ := by
  apply sync_follows
  · exact generation_follows c .hosts
  · rfl

private theorem land_follows (row : Bool) (key : String) (flight : Nat) :
    (land c key flight).Follows (Moves c) (fun _ tok => tok = ⟨row, .idle⟩) ⟨row, .idle⟩ :=
  fun _ => ⟨_, .aside row _ _ rfl, fun _ => ⟨_, .aside row _ _ rfl, rfl⟩⟩

theorem landDropped_follows (row : Bool) (d : CacheId) (key : String) (flight : Nat) :
    (do land d key flight; pure none : ResolverProg Resolved).Follows (Moves c) Settled
      ⟨row, .idle⟩ :=
  fun _ => ⟨_, .aside row _ _ rfl, fun _ => ⟨_, .aside row _ _ rfl, rfl, nofun⟩⟩

private theorem get_follows (row : Bool) (key : String) :
    (get c key).Follows (Moves c) (fun out tok => tok.phase = .idle ∧
      ∀ org, out = .hit org → tok.row = true) ⟨row, .idle⟩ := by
  intro found
  refine ⟨_, .lookup row .hits key found, ?_⟩
  cases found with
  | some org => exact ⟨rfl, fun _ _ => rfl⟩
  | none =>
    intro missed
    refine ⟨_, .lookup _ .misses key missed, ?_⟩
    cases missed with
    | some _ => exact ⟨rfl, fun _ _ => rfl⟩
    | none => exact ⟨rfl, nofun⟩

private theorem put_follows (key : String) (found : Option Org) :
    (put c key found).Follows (Moves c) (fun _ tok => tok = ⟨true, .idle⟩) ⟨true, .idle⟩ := by
  cases found with
  | some org => exact fun _ => ⟨_, .remove true .misses key, fun _ => ⟨_, .insert .hits _ key org, rfl⟩⟩
  | none => exact fun _ => ⟨_, .remove true .hits key, fun _ => ⟨_, .insert .misses _ key (), rfl⟩⟩

private theorem findActiveOrgBy_follows (row : Bool) (f : OrgFilter) :
    (findActiveOrgBy f).Follows (Moves c) (fun out tok => tok.phase = .idle ∧
      ∀ found, out = some found → tok.row = true) ⟨row, .idle⟩ := by
  intro down
  refine ⟨_, .isOpen row _ _ down, ?_⟩
  cases down with
  | true => exact ⟨rfl, nofun⟩
  | false =>
    intro found
    refine ⟨_, .findOrg row f found, ?_⟩
    cases found with
    | none => exact fun _ => ⟨_, .aside true _ _ rfl, rfl, nofun⟩
    | some found => exact fun _ => ⟨_, .aside true _ _ rfl, rfl, fun _ _ => rfl⟩

private theorem queryAndPut_follows (row : Bool) (key : String) (f : OrgFilter) :
    (queryAndPut c key f).Follows (Moves c) Settled ⟨row, .idle⟩ := by
  apply (findActiveOrgBy_follows c row f).bind
  rintro out ⟨row', phase⟩ ⟨rfl, hrow⟩
  cases out with
  | none => exact ⟨rfl, nofun⟩
  | some found =>
    obtain rfl : row' = true := hrow found rfl
    apply (put_follows c key found).bind
    rintro _ tok rfl
    exact ⟨rfl, fun _ _ => rfl⟩

private theorem orQuery_follows (row : Bool) (key : String) {query : ResolverProg Resolved}
    (hquery : ∀ row, query.Follows (Moves c) Settled ⟨row, .idle⟩) :
    (orQuery c key query).Follows (Moves c) Settled ⟨row, .idle⟩ := by
  apply (get_follows c row key).bind
  rintro out ⟨row', phase⟩ ⟨rfl, hrow⟩
  cases out with
  | miss => exact ⟨rfl, nofun⟩
  | hit org => exact ⟨rfl, fun _ _ => hrow org rfl⟩
  | absent => exact hquery row'

private theorem singleFlight_follows (row : Bool) (key : String) {query : ResolverProg Resolved}
    (hquery : query.Follows (Moves c) Settled ⟨row, .idle⟩) :
    (singleFlight c key query).Follows (Moves c) Settled ⟨row, .idle⟩ := by
  refine fun flight => ⟨_, .aside row _ _ rfl, fun _ => ⟨_, .aside row _ _ rfl, ?_⟩⟩
  apply hquery.bind
  rintro out ⟨row', phase⟩ ⟨rfl, hrow⟩
  apply (land_follows c row' key flight).bind
  rintro _ tok rfl
  exact ⟨rfl, hrow⟩

private theorem lookup_follows (row : Bool) (key : String) {query : ResolverProg Resolved}
    (hquery : ∀ row, query.Follows (Moves c) Settled ⟨row, .idle⟩) :
    (orQuery c key (singleFlight c key (orQuery c key query))).Follows (Moves c) Settled
      ⟨row, .idle⟩ := by
  apply orQuery_follows
  intro row
  apply singleFlight_follows
  exact orQuery_follows c row key hquery

private theorem cachedOrgBy_follows (checkEvery : Option Nat) (key : String) (f : OrgFilter) :
    (cachedOrgBy checkEvery c key f).Follows (Moves c) Settled ⟨false, .idle⟩ := by
  apply (syncOrgGeneration_follows c checkEvery).bind
  rintro _ tok rfl
  exact lookup_follows c false key fun row => queryAndPut_follows c row key f

private theorem queryHost_follows (checkEvery : Option Nat) (row : Bool) (host : String) :
    (queryHost checkEvery host).Follows (Moves .host) Settled ⟨row, .idle⟩ := by
  intro down
  refine ⟨_, .isOpen row _ _ down, ?_⟩
  cases down with
  | true => exact ⟨rfl, nofun⟩
  | false =>
    intro found
    refine ⟨_, .findHost row host found, ?_⟩
    cases found with
    | none => exact fun _ => ⟨_, .aside true _ _ rfl, rfl, nofun⟩
    | some found =>
      refine fun _ => ⟨_, .aside true _ _ rfl, ?_⟩
      cases found with
      | none =>
        apply (put_follows .host host none).bind
        rintro _ tok rfl
        exact ⟨rfl, nofun⟩
      | some orgId => exact queryAndPut_follows .host true host _

private theorem registeredHost_follows (checkEvery : Option Nat) (host : String) :
    (registeredHost checkEvery host).Follows (Moves .host) Settled ⟨false, .idle⟩ := by
  apply (syncGeneration_follows .host checkEvery).bind
  rintro _ tok rfl
  exact lookup_follows .host false host fun row => queryHost_follows checkEvery row host

private theorem resolve_follows (checkEvery : Option Nat) (l : Lookup) :
    (l.resolve checkEvery).Follows (Moves l.cache) Settled ⟨false, .idle⟩ := by
  cases l with
  | extraHost h => exact registeredHost_follows checkEvery h
  | host h => exact cachedOrgBy_follows .org checkEvery _ _
  | pathPrefix p => exact cachedOrgBy_follows .prefix_ checkEvery _ _
  | slug s => exact cachedOrgBy_follows .slug checkEvery _ _
  | port n => exact cachedOrgBy_follows .port checkEvery _ _
  | id i => exact cachedOrgBy_follows .id checkEvery _ _

/-- The cache a call looks in. -/
def Call.cache : Call → CacheId
  | .lookup l => l.cache
  | .invalidate _ => .org

/-- What a call knows when it starts. -/
def Call.start : Call → Tok
  | .lookup _ => ⟨false, .idle⟩
  | .invalidate t => ⟨false, .sweeping t (mapsOf t.caches)⟩

theorem prog_follows (checkEvery : Option Nat) (c : Call) :
    (c.prog checkEvery).Follows (Moves c.cache) Settled c.start := by
  cases c with
  | lookup l => exact resolve_follows checkEvery l
  | invalidate t => exact invalidate_follows .org t checkEvery

end Rustango.Resolver
