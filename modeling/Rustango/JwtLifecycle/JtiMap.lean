import Mathlib
import Rustango.Lib.Keyed
import Rustango.Url.Codec

/-!
# The jti store

`JtiMap` and `InMemoryJtiStore` of `jti_store.rs`: a map from jti to expiry, and a heap of the expiries from
which a prune pops.
-/

namespace Rustango.JwtLifecycle

open Keyed
open Rustango.Url (Text)

/-- The map, and the heap with its least node first. -/
structure JtiMap where
  map : List (Text × Int)
  expiry : List (Int × Text)
deriving DecidableEq

/-- The order of the heap's nodes. -/
def nodeOrder (a b : Int × Text) : Prop := a.1 < b.1 ∨ a.1 = b.1 ∧ a.2 ≤ b.2

instance : DecidableRel nodeOrder := fun a b => inferInstanceAs (Decidable (a.1 < b.1 ∨ a.1 = b.1 ∧ a.2 ≤ b.2))

/-- The map less the entry that a popped node was pushed for. -/
def dropEntry (map : List (Text × Int)) (node : Int × Text) : List (Text × Int) :=
  if (lookup Prod.fst map node.2).map Prod.snd = some node.1 then retain Prod.fst map node.2 else map

/-- Nodes popped while they have expired. -/
def pruneFrom (now : Int) : List (Int × Text) → List (Text × Int) → JtiMap
  | [], map => ⟨map, []⟩
  | node :: expiry, map =>
    if node.1 > now then ⟨map, node :: expiry⟩ else pruneFrom now expiry (dropEntry map node)

namespace JtiMap

def default : JtiMap := ⟨[], []⟩

def prune (m : JtiMap) (now : Int) : JtiMap := pruneFrom now m.expiry m.map

def containsKey (m : JtiMap) (jti : Text) : Bool := (lookup Prod.fst m.map jti).isSome

def insert (m : JtiMap) (jti : Text) (exp : Int) : JtiMap :=
  ⟨(jti, exp) :: retain Prod.fst m.map jti, m.expiry.orderedInsert nodeOrder (exp, jti)⟩

/-- `mark_used` of the in-memory store, the clock at `now`. -/
def markUsed (capacity : Nat) (m : JtiMap) (now : Int) (jti : Text) (exp : Int) : Bool × JtiMap :=
  let m := m.prune now
  if m.containsKey jti then (false, m)
  else if capacity ≤ m.map.length then (false, m)
  else (true, m.insert jti exp)

/-- A key has one entry, and an entry has its node. -/
structure WellFormed (m : JtiMap) : Prop where
  keys : (m.map.map Prod.fst).Nodup
  nodes : ∀ e ∈ m.map, (e.2, e.1) ∈ m.expiry
  sorted : m.expiry.Pairwise nodeOrder

end JtiMap

private theorem dropEntry_sublist (map : List (Text × Int)) (node : Int × Text) :
    (dropEntry map node).Sublist map := by
  unfold dropEntry
  split
  · exact List.filter_sublist
  · exact List.Sublist.refl _

private theorem mem_dropEntry {map : List (Text × Int)} {node : Int × Text} (hkeys : (map.map Prod.fst).Nodup)
    {e : Text × Int} : e ∈ dropEntry map node ↔ e ∈ map ∧ (e.2, e.1) ≠ node := by
  unfold dropEntry
  split
  · rename_i hfound
    obtain ⟨own, hown, hexp⟩ := Option.map_eq_some_iff.1 hfound
    obtain ⟨hmem, hkey⟩ := (lookup_eq_some Prod.fst hkeys).1 hown
    rw [retain, List.mem_filter, decide_eq_true_eq]
    apply and_congr_right
    intro he
    rw [not_iff_not]
    constructor
    · intro hsame
      have hlookup := lookup_of_mem Prod.fst hkeys he
      rw [hsame, hown] at hlookup
      rw [← Option.some.inj hlookup, hkey, hexp]
    · intro hnode
      rw [← hnode]
  · rename_i hmissing
    rw [iff_self_and]
    intro he hnode
    apply hmissing
    rw [← hnode, lookup_of_mem Prod.fst hkeys he]
    rfl

private theorem pruneFrom_sublist (now : Int) (expiry : List (Int × Text)) (map : List (Text × Int)) :
    (pruneFrom now expiry map).map.Sublist map ∧ (pruneFrom now expiry map).expiry.Sublist expiry := by
  induction expiry generalizing map with
  | nil => exact ⟨List.Sublist.refl _, List.Sublist.refl _⟩
  | cons node expiry ih =>
    unfold pruneFrom
    split
    · exact ⟨List.Sublist.refl _, List.Sublist.refl _⟩
    · obtain ⟨hmap, hexpiry⟩ := ih (dropEntry map node)
      exact ⟨hmap.trans (dropEntry_sublist map node), hexpiry.trans (List.sublist_cons_self _ _)⟩

/-- What has not expired stays, entries and nodes alike; what has is gone. -/
private theorem pruneFrom_spec {now : Int} {expiry : List (Int × Text)} {map : List (Text × Int)}
    (hkeys : (map.map Prod.fst).Nodup) (hnodes : ∀ e ∈ map, (e.2, e.1) ∈ expiry) (hsorted : expiry.Pairwise nodeOrder) :
    (∀ e, e ∈ (pruneFrom now expiry map).map ↔ e ∈ map ∧ now < e.2) ∧
      ∀ node, node ∈ (pruneFrom now expiry map).expiry ↔ node ∈ expiry ∧ now < node.1 := by
  induction expiry generalizing map with
  | nil =>
    have hmap : map = [] := List.eq_nil_iff_forall_not_mem.2 fun e he => List.not_mem_nil (hnodes e he)
    simp [pruneFrom, hmap]
  | cons first expiry ih =>
    obtain ⟨hfirst, hrest⟩ := List.pairwise_cons.1 hsorted
    unfold pruneFrom
    split
    · rename_i hlive
      have hall : ∀ node ∈ first :: expiry, now < node.1 := by
        intro node hnode
        cases List.mem_cons.1 hnode with
        | inl hsame => exact hsame ▸ hlive
        | inr hmem =>
          cases hfirst node hmem with
          | inl hlt => omega
          | inr heq => omega
      constructor
      · intro e
        rw [iff_self_and]
        exact fun he => hall _ (hnodes e he)
      · intro node
        rw [iff_self_and]
        exact hall node
    · rename_i hexpired
      have hkeys' := hkeys.sublist ((dropEntry_sublist map first).map Prod.fst)
      have hnodes' : ∀ e ∈ dropEntry map first, (e.2, e.1) ∈ expiry := by
        intro e he
        obtain ⟨hmem, hne⟩ := (mem_dropEntry hkeys).1 he
        exact (List.mem_cons.1 (hnodes e hmem)).resolve_left hne
      obtain ⟨hmap, hexpiry⟩ := ih hkeys' hnodes' hrest
      constructor
      · intro e
        rw [hmap, mem_dropEntry hkeys]
        constructor
        · exact fun h => ⟨h.1.1, h.2⟩
        · intro h
          refine ⟨⟨h.1, ?_⟩, h.2⟩
          intro hnode
          rw [← hnode] at hexpired
          exact hexpired h.2
      · intro node
        rw [hexpiry, List.mem_cons]
        constructor
        · exact fun h => ⟨.inr h.1, h.2⟩
        · intro h
          refine ⟨h.1.resolve_left ?_, h.2⟩
          intro hnode
          rw [← hnode] at hexpired
          exact hexpired h.2

private theorem nodeOrder_total (a b : Int × Text) : nodeOrder a b ∨ nodeOrder b a := by
  unfold nodeOrder
  rcases lt_trichotomy a.1 b.1 with hlt | heq | hlt
  · exact .inl (.inl hlt)
  · exact (le_total a.2 b.2).imp (fun h => .inr ⟨heq, h⟩) (fun h => .inr ⟨heq.symm, h⟩)
  · exact .inr (.inl hlt)

private theorem nodeOrder_trans {a b c : Int × Text} (hab : nodeOrder a b) (hbc : nodeOrder b c) :
    nodeOrder a c := by
  unfold nodeOrder at hab hbc ⊢
  rcases hab with hab | ⟨hab, hab'⟩ <;> rcases hbc with hbc | ⟨hbc, hbc'⟩
  · exact .inl (hab.trans hbc)
  · exact .inl (hbc ▸ hab)
  · exact .inl (hab ▸ hbc)
  · exact .inr ⟨hab.trans hbc, hab'.trans hbc'⟩

namespace JtiMap
variable {m : JtiMap} {now : Int} {jti : Text} {exp : Int} {capacity : Nat}

theorem wellFormed_default : default.WellFormed where
  keys := List.nodup_nil
  nodes := by simp [default]
  sorted := List.Pairwise.nil

theorem mem_prune (h : m.WellFormed) (e : Text × Int) : e ∈ (m.prune now).map ↔ e ∈ m.map ∧ now < e.2 :=
  (pruneFrom_spec h.keys h.nodes h.sorted).1 e

theorem WellFormed.prune (h : m.WellFormed) : (m.prune now).WellFormed where
  keys := h.keys.sublist ((pruneFrom_sublist now m.expiry m.map).1.map Prod.fst)
  nodes := by
    intro e he
    obtain ⟨hmem, hlive⟩ := (mem_prune h e).1 he
    exact ((pruneFrom_spec h.keys h.nodes h.sorted).2 _).2 ⟨h.nodes e hmem, hlive⟩
  sorted := h.sorted.sublist (pruneFrom_sublist now m.expiry m.map).2

theorem length_prune_le : (m.prune now).map.length ≤ m.map.length :=
  (pruneFrom_sublist now m.expiry m.map).1.length_le

theorem containsKey_eq_false : m.containsKey jti = false ↔ ∀ e ∈ m.map, e.1 ≠ jti := by
  rw [containsKey, Option.isSome_eq_false_iff, Option.isNone_iff_eq_none, lookup_eq_none]

theorem containsKey_of_mem (h : (jti, exp) ∈ m.map) : m.containsKey jti = true := by
  by_contra hnot
  exact containsKey_eq_false.1 (by simpa using hnot) _ h rfl

theorem exists_of_containsKey (h : m.containsKey jti = true) : ∃ exp, (jti, exp) ∈ m.map := by
  obtain ⟨e, he⟩ := Option.isSome_iff_exists.1 h
  have hkey : e.1 = jti := lookup_key Prod.fst he
  exact ⟨e.2, hkey ▸ mem_of_lookup Prod.fst he⟩

theorem mem_insert (habsent : m.containsKey jti = false) (e : Text × Int) :
    e ∈ (m.insert jti exp).map ↔ e = (jti, exp) ∨ e ∈ m.map := by
  rw [insert, List.mem_cons, retain, List.filter_eq_self.2]
  intro e he
  simpa using containsKey_eq_false.1 habsent e he

theorem WellFormed.insert (h : m.WellFormed) (habsent : m.containsKey jti = false) :
    (m.insert jti exp).WellFormed where
  keys := by
    rw [JtiMap.insert, List.map_cons, List.nodup_cons]
    refine ⟨?_, nodup_retain Prod.fst h.keys jti⟩
    simp [retain]
  nodes := by
    intro e he
    apply (List.mem_orderedInsert nodeOrder).2
    cases (mem_insert habsent e).1 he with
    | inl hnew => exact .inl (by rw [hnew])
    | inr hold => exact .inr (h.nodes e hold)
  sorted := by
    have htotal : Std.Total nodeOrder := ⟨nodeOrder_total⟩
    have htrans : IsTrans (Int × Text) nodeOrder := ⟨fun _ _ _ => nodeOrder_trans⟩
    exact h.sorted.orderedInsert _ _

/-- What `mark_used` did: the expired entries are gone, and a new one stands where the answer is yes. -/
structure Marked (m : JtiMap) (now : Int) (jti : Text) (exp : Int) (answer : Bool) (after : JtiMap) : Prop where
  wellFormed : after.WellFormed
  mem_iff : ∀ e, e ∈ after.map ↔ e ∈ m.map ∧ now < e.2 ∨ answer = true ∧ e = (jti, exp)
  first : answer = true → ∀ e ∈ m.map, now < e.2 → e.1 ≠ jti

theorem markUsed_spec (h : m.WellFormed) :
    Marked m now jti exp (markUsed capacity m now jti exp).1 (markUsed capacity m now jti exp).2 := by
  unfold markUsed
  simp only
  split
  · constructor
    · exact h.prune
    · simp [mem_prune h]
    · simp
  · rename_i habsent
    rw [Bool.not_eq_true] at habsent
    split
    · constructor
      · exact h.prune
      · simp [mem_prune h]
      · simp
    · constructor
      · exact h.prune.insert habsent
      · intro e
        rw [mem_insert habsent, mem_prune h]
        simp [or_comm]
      · intro _ e he hlive
        exact containsKey_eq_false.1 habsent e ((mem_prune h e).2 ⟨he, hlive⟩)

theorem length_markUsed (h : m.map.length ≤ capacity) : (markUsed capacity m now jti exp).2.map.length ≤ capacity := by
  have hpruned : (m.prune now).map.length ≤ capacity := length_prune_le.trans h
  unfold markUsed
  simp only
  split
  · exact hpruned
  · split
    · exact hpruned
    · rename_i hroom
      have hretain : (retain Prod.fst (m.prune now).map jti).length ≤ (m.prune now).map.length := List.length_filter_le _ _
      simp only [insert, List.length_cons]
      omega

end JtiMap

end Rustango.JwtLifecycle
