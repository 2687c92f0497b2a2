import Rustango.Cache.Scoped

/-!
# Tenants' views are apart

Over one shared cache, what a tenant's view answers depends on the calls on that view alone; the
global views share the global keys. Purging a tenant takes its keys and no other tenant's.
-/

namespace Rustango.Cache

open Rustango.Views

/-- A call on a view, at a time. -/
abbrev Call := ScopedCache × (Nat × CacheOp)

def Call.run (v : ScopedCache) (act : Nat × CacheOp) (s : Store) : Reply × Store :=
  v.run act.1 act.2 s

/-- The tenants behind the views, no two with one registry id. -/
structure Tenants where
  members : Set TenantSlug
  distinct : ∀ t ∈ members, ∀ u ∈ members, t.orgId = u.orgId → t = u

/-- A view of one of the tenants, or a global one. -/
def Tenants.Has (ts : Tenants) (v : ScopedCache) : Prop := ∀ t, v.space = .tenant t → t ∈ ts.members

/-- A bare global name inside a tenant's old lock keys. -/
def InLegacyLocks (v : ScopedCache) (t : TenantSlug) (name : String) : Prop :=
  v.space = .global ∧ v.area.bare ∧ ∃ all ∈ (KeySpace.tenant t).legacyKey .lock "", Starts all name

private theorem misses_of_not_starts {w v : ScopedCache} {op : CacheOp}
    (hwritten : ∀ key n, w.k key ≠ v.k n)
    (hdeleted : ∀ p ∈ w.deletes op, ∀ n, ¬ Starts (w.k p) (v.k n)) : w.Misses op v :=
  ⟨fun key _ n => hwritten key n, hdeleted⟩

private theorem ne_of_not_starts {w v : ScopedCache} (h : ∀ p n, ¬ Starts (w.k p) (v.k n)) (key n : String) :
    w.k key ≠ v.k n := fun heq => h key n (heq ▸ Starts.refl _)

private theorem not_starts_of_tenant {ts : Tenants} {t : TenantSlug} {a : Area} {v : ScopedCache}
    (ht : t ∈ ts.members) (hv : ts.Has v) (hne : (⟨.tenant t, a⟩ : ScopedCache) ≠ v) (p n : String) :
    ¬ Starts ((⟨.tenant t, a⟩ : ScopedCache).k p) (v.k n) := by
  obtain ⟨space, b⟩ := v
  cases space with
  | global =>
    intro hs
    exact not_starts_tenant_global b n (starts_trans (starts_tenant_key t a p) hs)
  | tenant u =>
    by_cases hid : t.orgId = u.orgId
    · obtain rfl : t = u := ts.distinct t ht u (hv u rfl) hid
      intro hs
      obtain ⟨rfl, _⟩ := tenant_starts_iff.mp hs
      exact hne rfl
    · exact not_starts_of_orgId_ne hid

private theorem misses_of_global {w v : ScopedCache} {op : CacheOp} {t : TenantSlug}
    (hw : w.space = .global) (hv : v.space = .tenant t) (hsound : w.Sound op) : w.Misses op v := by
  obtain ⟨space, a⟩ := w
  obtain ⟨vspace, b⟩ := v
  subst hw hv
  apply misses_of_not_starts
  · intro key n heq
    have hstarts : Starts "tenant:" (KeySpace.global.key a key) :=
      (show KeySpace.global.key a key = (KeySpace.tenant t).key b n from heq) ▸
        starts_tenant_key t b n
    exact not_starts_tenant_global a key hstarts
  · intro p hp n
    apply not_global_starts_tenant
    have hcleared (hmem : p ∈ op.cleared) : Whole p ∨ a.bare = false :=
      (hsound rfl p hmem).imp_right And.right
    cases op with
    | clear =>
      unfold ScopedCache.deletes at hp
      dsimp only at hp
      split at hp
      · cases hp
      · rename_i hne
        right
        cases a <;> first | rfl | exact absurd rfl hne
    | deletePrefix q => exact hcleared hp
    | deletePrefixes qs => exact hcleared hp
    | one _ _ => cases hp
    | getMany _ => cases hp
    | setMany _ _ => cases hp
    | deleteMany _ => cases hp

private theorem misses_of_space_ne {ts : Tenants} {w v : ScopedCache} {op : CacheOp} (hw : ts.Has w)
    (hv : ts.Has v) (hsound : w.Sound op) (hne : w.space ≠ v.space) : w.Misses op v := by
  obtain ⟨space, a⟩ := w
  cases space with
  | tenant t =>
    have hview : (⟨.tenant t, a⟩ : ScopedCache) ≠ v := fun heq => hne (congrArg _ heq)
    have hnot := not_starts_of_tenant (hw t rfl) hv hview
    exact misses_of_not_starts (ne_of_not_starts hnot) fun p _ n => hnot p n
  | global =>
    cases hspace : v.space with
    | global => exact absurd hspace.symm hne
    | tenant t => exact misses_of_global rfl hspace hsound

section Purge
variable {t u : TenantSlug} {a : Area} {n : String}

private def legacyLock (t : TenantSlug) (rest : String) : String :=
  "lock:tenant:" ++ t.namespace_ ++ ":" ++ rest

section Equations
-- Its equations are derived here, once for all the proofs that unfold it.
attribute [local simp] legacyLock
end Equations

private theorem legacyKey_lock (t : TenantSlug) (n : String) :
    (KeySpace.tenant t).legacyKey .lock n = some (legacyLock t n) := rfl

private theorem legacyLock_toList (t : TenantSlug) (n : String) : (legacyLock t n).toList =
    "lock:".toList ++ ("tenant:#org:".toList ++ ((toString t.orgId).toList ++
      ':' :: (t.slug.toList ++ ':' :: n.toList))) := by
  simp [legacyLock, TenantSlug.namespace_, String.toList_append]

private theorem purge_apply (t : TenantSlug) (s : Store) (x : String) :
    deletePrefixes (KeySpace.tenant t).purgePrefixes s x =
      if Starts ("tenant:" ++ t.namespace_ ++ ":") x ∨ Starts (legacyLock t "") x then none
      else s x := by
  have hpurge : (KeySpace.tenant t).purgePrefixes =
      ["tenant:" ++ t.namespace_ ++ ":", legacyLock t ""] := by
    simp [KeySpace.purgePrefixes, legacyLock]
  rw [deletePrefixes_apply, hpurge]
  simp

private theorem starts_namespace (t : TenantSlug) (a : Area) (n : String) :
    Starts ("tenant:" ++ t.namespace_ ++ ":") ((KeySpace.tenant t).key a n) := by
  simp [Starts, KeySpace.key, String.toList_append]

private theorem starts_legacyLock (t : TenantSlug) (n : String) :
    Starts (legacyLock t "") (legacyLock t n) := by
  simp [Starts, legacyLock, String.toList_append]

private theorem not_purged_of_orgId_ne (h : t.orgId ≠ u.orgId) :
    ¬ (Starts ("tenant:" ++ t.namespace_ ++ ":") ((KeySpace.tenant u).key a n) ∨
      Starts (legacyLock t "") ((KeySpace.tenant u).key a n)) := by
  rintro (hs | hs)
  · have hlist : ("tenant:" ++ t.namespace_ ++ ":").toList = "tenant:#org:".toList ++
        ((toString t.orgId).toList ++ ':' :: (t.slug.toList ++ [':'])) := by
      simp [TenantSlug.namespace_, String.toList_append]
    rw [Starts, hlist, tenant_key_toList, List.prefix_append_right_inj] at hs
    have hid := (colon_split (colon_not_mem_int _) (colon_not_mem_int _) hs).1
    exact h (Int.repr_inj.mp (String.toList_inj.mp hid))
  · rw [Starts, legacyLock_toList, tenant_key_toList] at hs
    exact absurd (List.cons_prefix_cons.mp hs).1 (by decide)

private theorem not_purged_of_global (h : ¬ InLegacyLocks ⟨.global, a⟩ t n) :
    ¬ (Starts ("tenant:" ++ t.namespace_ ++ ":") (KeySpace.global.key a n) ∨
      Starts (legacyLock t "") (KeySpace.global.key a n)) := by
  rintro (hs | hs)
  · have htenant : Starts "tenant:" ("tenant:" ++ t.namespace_ ++ ":") := by
      simp [Starts, String.toList_append]
    exact not_starts_tenant_global a n (starts_trans htenant hs)
  · cases hbare : a.bare with
    | true =>
      have hkey : KeySpace.global.key a n = escape n := by simp [KeySpace.key, hbare]
      rw [hkey] at hs
      unfold escape at hs
      split at hs
      · rw [Starts, legacyLock_toList, String.toList_append] at hs
        exact absurd (List.cons_prefix_cons.mp hs).1 (by decide)
      · exact h ⟨rfl, hbare, _, legacyKey_lock t "", hs⟩
    | false =>
      have hkey : KeySpace.global.key a n = a.name ++ ":" ++ escape n := by
        simp [KeySpace.key, hbare]
      cases a with
      | app => cases hbare
      | page => cases hbare
      | rl => cases hbare
      | lock =>
        -- a global lock's name never starts with `tenant:`
        have hlock : Starts "tenant:#org:" (escape n) := by
          rw [hkey, Starts, legacyLock_toList, String.toList_append] at hs
          exact List.IsPrefix.trans (List.prefix_append _ _)
            ((List.prefix_append_right_inj "lock:".toList).mp hs)
        exact not_starts_tenant_escape n (starts_trans (by decide) hlock)
      | idem | flag | session =>
        rw [hkey, Starts, legacyLock_toList, String.toList_append, String.toList_append] at hs
        exact absurd (List.cons_prefix_cons.mp hs).1 (by decide)

end Purge

/-- What separates the views: a call on one space leaves what every other space's views read; a
tenant's view is answered as a map of its own, and so is a global view as long as the other global
views' calls miss its keys; and purging a tenant takes its keys and its old lock keys, and of the
other views' keys at most bare global names inside those old lock keys. -/
structure Isolated (ts : Tenants) (calls : List Call) : Prop where
  apart : ∀ c ∈ calls, ∀ v, ts.Has v → c.1.space ≠ v.space →
    ∀ s, v.read (Call.run c.1 c.2 s).2 = v.read s
  own : ∀ v, ts.Has v →
    (∀ c ∈ calls, c.1.space = .global → v.space = .global → c.1 ≠ v → c.1.Misses c.2.2 v) →
    ∀ s, ofView v (answers Call.run calls s).1 =
        (alone v.privateRun (ofView v calls) (v.read s)).1 ∧
      v.read (answers Call.run calls s).2 = (alone v.privateRun (ofView v calls) (v.read s)).2
  purged : ∀ t ∈ ts.members, ∀ s,
    (∀ a n, deletePrefixes (KeySpace.tenant t).purgePrefixes s ((KeySpace.tenant t).key a n) =
      none) ∧
    (∀ n, ∀ k ∈ (KeySpace.tenant t).legacyKey .lock n,
      deletePrefixes (KeySpace.tenant t).purgePrefixes s k = none) ∧
    ∀ v, ts.Has v → v.space ≠ .tenant t → ∀ n, ¬ InLegacyLocks v t n →
      deletePrefixes (KeySpace.tenant t).purgePrefixes s (v.k n) = s (v.k n)

/-- Whatever is called on the views, in any order, with whole prefixes on the global ones. -/
theorem views_isolated (ts : Tenants) {calls : List Call} (hviews : ∀ c ∈ calls, ts.Has c.1)
    (hsound : ∀ c ∈ calls, c.1.Sound c.2.2) : Isolated ts calls := by
  refine ⟨?_, ?_, ?_⟩
  · intro c hc v hv hne s
    exact ScopedCache.read_run_of_misses
      (misses_of_space_ne (hviews c hc) hv (hsound c hc) hne) c.2.1 s
  · intro v hv hglobal s
    apply answers_eq_alone
    · intro act t hact
      exact ScopedCache.run_eq_private (hsound _ hact) act.1 t
    · intro w act t hact hne
      apply ScopedCache.read_run_of_misses
      by_cases hspace : w.space = v.space
      · obtain ⟨space, a⟩ := w
        cases space with
        | global => exact hglobal _ hact rfl hspace.symm hne
        | tenant u =>
          have hnot := not_starts_of_tenant (hviews _ hact u rfl) hv hne
          exact misses_of_not_starts (ne_of_not_starts hnot) fun p _ n => hnot p n
      · exact misses_of_space_ne (hviews _ hact) hv (hsound _ hact) hspace
  · intro t ht s
    refine ⟨?_, ?_, ?_⟩
    · intro a n
      rw [purge_apply, if_pos (.inl (starts_namespace t a n))]
    · intro n k hk
      obtain rfl := Option.some.inj hk
      rw [purge_apply]
      exact if_pos (.inr (starts_legacyLock t n))
    · intro v hv hne n hlegacy
      rw [purge_apply]
      obtain ⟨space, a⟩ := v
      cases space with
      | global => exact if_neg (not_purged_of_global hlegacy)
      | tenant u =>
        apply if_neg
        apply not_purged_of_orgId_ne
        intro hid
        exact hne (congrArg KeySpace.tenant (ts.distinct t ht u (hv u rfl) hid)).symm

private def acme : TenantSlug := ⟨"acme", 1⟩

private def globex : TenantSlug := ⟨"globex", 2⟩

private def globalApp : ScopedCache := ⟨.global, .app⟩

private def acmeApp : ScopedCache := ⟨.tenant acme, .app⟩

private def acmeAndGlobex : Tenants where
  members := {acme, globex}
  distinct := by
    rintro t (rfl | rfl) u (rfl | rfl) h
    · rfl
    · exact absurd h (by decide)
    · exact absurd h (by decide)
    · rfl

/-- A global page view and a global app view are one map; a global app view that deletes `t` takes a
tenant's key, and misses its own name `tenant:x`; and the purge of a tenant takes a global app key. -/
theorem global_views_meet :
    ofView globalApp (answers Call.run
        [(⟨.global, .page⟩, 0, .one (.set "page" none) "x"), (globalApp, 0, .one .get "x")]
        fun _ => none).1 = [.value (some "page")] ∧
      ofView acmeApp (answers Call.run
        [(acmeApp, 0, .one (.set "1" none) "stats"), (globalApp, 0, .deletePrefix "t"),
          (acmeApp, 0, .one .get "stats")] fun _ => none).1 = [.done, .value none] ∧
      ofView globalApp (answers Call.run
        [(globalApp, 0, .one (.set "1" none) "tenant:x"), (globalApp, 0, .deletePrefix "t"),
          (globalApp, 0, .one .get "tenant:x")] fun _ => none).1 =
        [.done, .done, .value (some "1")] ∧
      deletePrefixes (KeySpace.tenant acme).purgePrefixes
        (globalApp.run 0 (.one (.set "1" none) "lock:tenant:#org:1:acme:j") fun _ => none).2
        (globalApp.k "lock:tenant:#org:1:acme:j") = none := by
  decide

theorem acme_and_globex_isolated : Isolated acmeAndGlobex
    [(acmeApp, 0, .one (.set "1" none) "stats"), (⟨.tenant globex, .app⟩, 0, .clear),
      (globalApp, 0, .deletePrefix "stats"), (acmeApp, 0, .one .get "stats")] := by
  apply views_isolated
  · intro c hc t ht
    simp only [List.mem_cons, List.not_mem_nil, or_false] at hc
    rcases hc with rfl | rfl | rfl | rfl
    · exact .inl (KeySpace.tenant.inj ht).symm
    · exact .inr (KeySpace.tenant.inj ht).symm
    · cases ht
    · exact .inl (KeySpace.tenant.inj ht).symm
  · intro c hc hglobal p hp
    simp only [List.mem_cons, List.not_mem_nil, or_false] at hc
    rcases hc with rfl | rfl | rfl | rfl
    · cases hp
    · cases hp
    · left
      rw [List.mem_singleton.mp hp]
      decide
    · cases hp

end Rustango.Cache
