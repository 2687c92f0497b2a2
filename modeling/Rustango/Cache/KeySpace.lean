import Mathlib

/-!
# Tenant keys

The key of a name in an area, for a tenant and for the whole process. Tenant keys are
`tenant:#org:<id>:<slug>:<area>:<rest>`; global keys keep the bytes they had before.
-/

namespace Rustango.Cache

/-- What a key is for. -/
inductive Area where
  | app
  | lock
  | idem
  | page
  | rl
  | flag
  | session
deriving DecidableEq, Repr

def Area.name : Area → String
  | .app => "app"
  | .lock => "lock"
  | .idem => "idem"
  | .page => "page"
  | .rl => "rl"
  | .flag => "flag"
  | .session => "session"

/-- Whether global keys of the area carry no area name. -/
def Area.bare : Area → Bool
  | .app | .page | .rl => true
  | _ => false

/-- The resolved tenant: its slug and its registry id. -/
structure TenantSlug where
  slug : String
  orgId : Int
deriving DecidableEq, Repr

def TenantSlug.namespace_ (t : TenantSlug) : String := "#org:" ++ toString t.orgId ++ ":" ++ t.slug

/-- Who a key belongs to. -/
inductive KeySpace where
  | global
  | tenant (t : TenantSlug)
deriving DecidableEq, Repr

/-- A global name that looks like a tenant key, or like an escaped name. -/
def mustEscape (rest : String) : Bool :=
  "tenant:".toList.isPrefixOf rest.toList || "~".toList.isPrefixOf rest.toList

def escape (rest : String) : String := if mustEscape rest then "~" ++ rest else rest

namespace KeySpace

/-- The key of `rest` in `area`. -/
def key (space : KeySpace) (area : Area) (rest : String) : String :=
  match space with
  | .global => if area.bare then escape rest else area.name ++ ":" ++ escape rest
  | .tenant t => "tenant:" ++ t.namespace_ ++ ":" ++ area.name ++ ":" ++ rest

/-- The key of the layout before areas, for the areas that still write it. -/
def legacyKey (space : KeySpace) (area : Area) (rest : String) : Option String :=
  match space with
  | .global => none
  | .tenant t =>
    match area with
    | .lock => some ("lock:tenant:" ++ t.namespace_ ++ ":" ++ rest)
    | .idem => some ("idem:" ++ rest)
    | .page => some rest
    | _ => none

/-- What every key of the tenant starts with. -/
def purgePrefixes : KeySpace → List String
  | .global => []
  | .tenant t => ["tenant:" ++ t.namespace_ ++ ":", "lock:tenant:" ++ t.namespace_ ++ ":"]

-- Its equations are derived here, once for all the proofs that unfold it.
attribute [local simp] key

end KeySpace

/-- `p` is the start of `k`. -/
def Starts (p k : String) : Prop := p.toList <+: k.toList

instance (p k : String) : Decidable (Starts p k) := inferInstanceAs (Decidable (_ <+: _))

theorem Starts.refl (k : String) : Starts k k := List.prefix_rfl

theorem starts_append_left (a p k : String) : Starts (a ++ p) (a ++ k) ↔ Starts p k := by
  simp [Starts, String.toList_append, List.prefix_append_right_inj]

/-- Two texts up to their first colon. -/
theorem colon_split {a b x y : List Char} (ha : ':' ∉ a) (hb : ':' ∉ b)
    (h : a ++ ':' :: x <+: b ++ ':' :: y) : a = b ∧ x <+: y := by
  induction a generalizing b with
  | nil =>
    cases b with
    | nil => exact ⟨rfl, (List.cons_prefix_cons.mp h).2⟩
    | cons c b =>
      have hc : ':' = c := (List.cons_prefix_cons.mp h).1
      exact absurd (hc ▸ List.mem_cons_self) hb
  | cons c a ih =>
    cases b with
    | nil =>
      have hc : c = ':' := (List.cons_prefix_cons.mp h).1
      exact absurd (hc ▸ List.mem_cons_self) ha
    | cons d b =>
      obtain ⟨hcd, hrest⟩ := List.cons_prefix_cons.mp h
      have ha' : ':' ∉ a := fun hmem => ha (List.mem_cons_of_mem _ hmem)
      have hb' : ':' ∉ b := fun hmem => hb (List.mem_cons_of_mem _ hmem)
      obtain ⟨hab, hxy⟩ := ih ha' hb' hrest
      exact ⟨by rw [hcd, hab], hxy⟩

private theorem colon_not_mem_area (area : Area) : ':' ∉ area.name.toList := by
  cases area <;> decide

private theorem area_name_injective {a b : Area} (h : a.name.toList = b.name.toList) : a = b := by
  cases a <;> cases b <;> first | rfl | (exact absurd h (by decide))

theorem colon_not_mem_int (n : Int) : ':' ∉ (toString n).toList := by
  have hnat (m : Nat) : ':' ∉ m.repr.toList := by
    rw [Nat.toList_repr]
    intro hmem
    have hdigit := Nat.isDigit_of_mem_toDigits (by decide) (by decide) hmem
    exact absurd hdigit (by decide)
  cases n with
  | ofNat m => exact hnat m
  | negSucc m =>
    have htext : toString (Int.negSucc m) = "-" ++ (m + 1).repr := rfl
    rw [htext, String.toList_append]
    intro hmem
    rcases List.mem_append.mp hmem with h | h
    · exact absurd h (by decide)
    · exact hnat _ h

section Tenants
variable {t u : TenantSlug} {a b : Area} {p n : String}

theorem tenant_key_toList (t : TenantSlug) (a : Area) (n : String) :
    ((KeySpace.tenant t).key a n).toList = "tenant:#org:".toList ++ ((toString t.orgId).toList ++
      ':' :: (t.slug.toList ++ (':' :: (a.name.toList ++ ':' :: n.toList)))) := by
  simp [KeySpace.key, TenantSlug.namespace_, String.toList_append]

theorem not_starts_of_orgId_ne (h : t.orgId ≠ u.orgId) :
    ¬ Starts ((KeySpace.tenant t).key a p) ((KeySpace.tenant u).key b n) := by
  intro hstarts
  rw [Starts, tenant_key_toList, tenant_key_toList, List.prefix_append_right_inj] at hstarts
  have hid := (colon_split (colon_not_mem_int _) (colon_not_mem_int _) hstarts).1
  exact h (Int.repr_inj.mp (String.toList_inj.mp hid))

/-- In one tenant's keys the areas are apart, and a name starts a name when its key starts the
key. -/
theorem tenant_starts_iff :
    Starts ((KeySpace.tenant t).key a p) ((KeySpace.tenant t).key b n) ↔ a = b ∧ Starts p n := by
  have hns (c : Area) (m : String) : (KeySpace.tenant t).key c m =
      ("tenant:" ++ t.namespace_ ++ ":") ++ (c.name ++ ":" ++ m) := by
    simp [KeySpace.key, String.append_assoc]
  rw [hns, hns, starts_append_left]
  have hlist (c : Area) (m : String) :
      (c.name ++ ":" ++ m).toList = c.name.toList ++ ':' :: m.toList := by
    simp [String.toList_append]
  rw [Starts, hlist, hlist]
  constructor
  · intro h
    obtain ⟨hname, hrest⟩ := colon_split (colon_not_mem_area a) (colon_not_mem_area b) h
    exact ⟨area_name_injective hname, hrest⟩
  · rintro ⟨rfl, h⟩
    exact List.prefix_append_right_inj _ |>.mpr (List.cons_prefix_cons.mpr ⟨rfl, h⟩)

end Tenants

section Global
variable {t : TenantSlug} {a b : Area} {p n : String}

private theorem mustEscape_iff (n : String) : mustEscape n ↔ Starts "tenant:" n ∨ Starts "~" n := by
  simp [mustEscape, Starts, List.isPrefixOf_iff_prefix]

/-- A prefix that is not cut short inside `tenant:`. -/
def Whole (p : String) : Prop := Starts p "tenant:" → p = "tenant:"

instance (p : String) : Decidable (Whole p) := inferInstanceAs (Decidable (_ → _))

theorem not_starts_tenant_escape (n : String) : ¬ Starts "tenant:" (escape n) := by
  unfold escape
  split
  · rw [Starts, String.toList_append]
    intro h
    exact absurd (List.cons_prefix_cons.mp h).1 (by decide)
  · rename_i hplain
    intro h
    exact hplain ((mustEscape_iff n).mpr (.inl h))

private theorem starts_total {p q k : String} (hp : Starts p k) (hq : Starts q k) :
    Starts p q ∨ Starts q p := by
  rcases Nat.le_total p.toList.length q.toList.length with h | h
  · exact .inl (List.prefix_of_prefix_length_le hp hq h)
  · exact .inr (List.prefix_of_prefix_length_le hq hp h)

theorem starts_trans {p q k : String} (h : Starts p q) (h' : Starts q k) : Starts p k :=
  List.IsPrefix.trans h h'

private theorem not_starts_of_plain (hnil : p ≠ "") (hwhole : Whole p) (hp : ¬ mustEscape p)
    (hn : mustEscape n) : ¬ Starts p n := by
  rw [mustEscape_iff, not_or] at hp
  intro hs
  rcases (mustEscape_iff n).mp hn with h | h
  · rcases starts_total hs h with hc | hc
    · exact hp.1 (hwhole hc ▸ Starts.refl _)
    · exact hp.1 hc
  · rcases starts_total hs h with hc | hc
    · -- a start of `~` that is not empty is `~`
      cases hlist : p.toList with
      | nil => exact hnil (String.toList_inj.mp hlist)
      | cons c l =>
        rw [Starts, hlist] at hc
        obtain ⟨hchar, hrest⟩ := List.cons_prefix_cons.mp hc
        have htail : l = [] := List.prefix_nil.mp hrest
        have hp2 : p.toList = "~".toList := by
          rw [hlist, hchar, htail]
          rfl
        exact hp.2 (String.toList_inj.mp hp2 ▸ Starts.refl _)
    · exact hp.2 hc

private theorem mustEscape_tilde (n : String) : mustEscape ("~" ++ n) := by
  rw [mustEscape_iff]
  right
  simp [Starts, String.toList_append]

/-- A name that starts with nothing, or whole, starts as its escaped form does. -/
theorem escape_starts_iff (h : p = "" ∨ Whole p) : Starts (escape p) (escape n) ↔ Starts p n := by
  by_cases hp : mustEscape p
  · have hkey : escape p = "~" ++ p := if_pos hp
    by_cases hn : mustEscape n
    · rw [hkey, show escape n = "~" ++ n from if_pos hn, starts_append_left]
    · rw [hkey, show escape n = n from if_neg hn]
      apply iff_of_false
      · intro hs
        have hleft : Starts "~" ("~" ++ p) := by simp [Starts, String.toList_append]
        exact hn ((mustEscape_iff n).mpr (.inr (starts_trans hleft hs)))
      · intro hs
        apply hn
        rw [mustEscape_iff] at hp ⊢
        exact hp.imp (starts_trans · hs) (starts_trans · hs)
  · rw [show escape p = p from if_neg hp]
    by_cases hn : mustEscape n
    · rw [show escape n = "~" ++ n from if_pos hn]
      by_cases hnil : p = ""
      · rw [hnil]
        exact iff_of_true List.nil_prefix List.nil_prefix
      · have hwhole : Whole p := h.resolve_left hnil
        exact iff_of_false (not_starts_of_plain hnil hwhole hp (mustEscape_tilde n))
          (not_starts_of_plain hnil hwhole hp hn)
    · rw [show escape n = n from if_neg hn]

theorem escape_injective (h : escape p = escape n) : p = n := by
  unfold escape at h
  split at h
  · split at h
    · exact String.append_right_inj "~" |>.mp h
    · rename_i hn
      exact absurd (h ▸ mustEscape_tilde p) hn
  · split at h
    · rename_i hp _
      exact absurd (h ▸ mustEscape_tilde n) hp
    · exact h

private theorem not_starts_tenant_named (h : a.bare = false) (n : String) :
    ¬ Starts "tenant:" (a.name ++ n) ∧ ¬ Starts (a.name ++ n) ((KeySpace.tenant t).key b p) := by
  have hkey : ((KeySpace.tenant t).key b p).toList = 't' :: ("enant:#org:".toList ++
      ((toString t.orgId).toList ++
        ':' :: (t.slug.toList ++ (':' :: (b.name.toList ++ ':' :: p.toList))))) :=
    tenant_key_toList t b p
  have htenant : "tenant:".toList = 't' :: "enant:".toList := rfl
  rw [Starts, Starts, hkey, htenant, String.toList_append]
  cases a with
  | app => cases h
  | page => cases h
  | rl => cases h
  | lock | idem | flag | session =>
    exact ⟨fun hs => absurd (List.cons_prefix_cons.mp hs).1 (by decide),
      fun hs => absurd (List.cons_prefix_cons.mp hs).1 (by decide)⟩

theorem not_starts_tenant_global (a : Area) (n : String) :
    ¬ Starts "tenant:" (KeySpace.global.key a n) := by
  unfold KeySpace.key
  dsimp only
  split
  · exact not_starts_tenant_escape n
  · rename_i hbare
    rw [String.append_assoc]
    exact (not_starts_tenant_named (t := ⟨"", 0⟩) (b := a) (p := "") (by simpa using hbare) _).1

theorem starts_tenant_key (t : TenantSlug) (a : Area) (n : String) :
    Starts "tenant:" ((KeySpace.tenant t).key a n) := by
  simp [Starts, KeySpace.key, String.toList_append]

/-- What a global view deletes under a whole prefix, or a named one under any, is no tenant's. -/
theorem not_global_starts_tenant (h : Whole p ∨ a.bare = false) :
    ¬ Starts (KeySpace.global.key a p) ((KeySpace.tenant t).key b n) := by
  unfold KeySpace.key
  dsimp only
  split
  · rename_i hbare
    have hwhole : Whole p := h.resolve_right (by simp [hbare])
    intro hs
    rcases starts_total hs (starts_tenant_key t b n) with hc | hc
    · unfold escape at hc
      split at hc
      · rw [Starts, String.toList_append] at hc
        exact absurd (List.cons_prefix_cons.mp hc).1 (by decide)
      · rename_i hplain
        apply hplain
        rw [hwhole hc]
        decide
    · exact not_starts_tenant_escape p hc
  · rename_i hbare
    rw [String.append_assoc]
    exact (not_starts_tenant_named (by simpa using hbare) _).2

end Global

end Rustango.Cache
