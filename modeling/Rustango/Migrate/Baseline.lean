import Rustango.Migrate.Rename

/-!
# The baseline of the next diff

`makemigrations --empty` copies its parent's snapshot, so the schema a chain leads to is found by
walking back over the copies and replaying their renames. A copy is told by its snapshot alone.
-/

namespace Rustango.Migrate

open Rustango.Keyed Rustango.Slots

/-- The file that `prev` names. -/
def parent (chain : List Migration) (m : Migration) : Option Migration :=
  m.prev.bind (lookup Migration.name chain)

/-- The files from `m` back to the first whose snapshot is not its parent's, newest first. The fuel
stops a cyclic `prev`. -/
def copies (chain : List Migration) : Nat → Migration → List Migration
  | 0, _ => []
  | fuel + 1, m =>
    match (parent chain m).filter fun p => p.snapshot == m.snapshot with
    | some p => m :: copies chain fuel p
    | none => []

/-- `head`'s snapshot plus the renames hand-written into it and the copies before it. -/
def effectiveSnapshot (chain : List Migration) (head : Migration) : SchemaSnapshot :=
  ((copies chain (chain.length + 1) head).reverse.flatMap Migration.changes).foldl
    SchemaSnapshot.applyRename head.snapshot

/-- How a file takes the schema `s` to `s'`: its snapshot is the true schema after it, or it is a
copy of its parent's and holds nothing but renames, each valid when it runs. -/
inductive Follows (parent : Option Migration) (m : Migration) (s s' : Schema) : Prop where
  | truthful (hrun : run (exec m.snapshot) s m.changes = some s') (htrue : m.snapshot.db = s')
  | copy (p : Migration) (hp : parent = some p) (hcopy : (p.snapshot == m.snapshot) = true)
      (hrenames : ∀ c ∈ m.changes, c.isRename) (hone : s.OneName)
      (hrun : run (exec m.snapshot) s m.changes = some s')

/-- A linear chain, newest file first, each with the schema that all ops up to it lead to. -/
inductive History : List (Migration × Schema) → Prop where
  | nil : History []
  | snoc {rest : List (Migration × Schema)} {m : Migration} {s' : Schema} (hrest : History rest)
      (hprev : m.prev = rest.head?.map (·.1.name)) (hname : m.name ∉ rest.map (·.1.name))
      (hkeys : m.snapshot.UniqueKeys)
      (hstep : Follows (rest.head?.map (·.1)) m (rest.head?.elim Schema.empty (·.2)) s') :
      History ((m, s') :: rest)

/-- The copies at the end of a history. -/
def trailingCopies : List (Migration × Schema) → List Migration
  | (m, _) :: (p, s) :: rest =>
    if p.snapshot == m.snapshot then m :: trailingCopies ((p, s) :: rest) else []
  | _ => []

private theorem lookup_ends_of_beq {l l' : List M2MTableSnapshot} (h : (l == l') = true)
    (n : String) : (lookup M2MTableSnapshot.through l n).map M2MTableSnapshot.ends =
      (lookup M2MTableSnapshot.through l' n).map M2MTableSnapshot.ends := by
  induction l generalizing l' with
  | nil =>
    cases l' with
    | nil => rfl
    | cons _ _ => cases h
  | cons a l ih =>
    cases l' with
    | nil => cases h
    | cons b l' =>
      rw [List.cons_beq_cons, Bool.and_eq_true] at h
      have hends := M2MTableSnapshot.ends_eq_of_beq h.1
      have hthrough : a.through = b.through := by
        rcases M2MTableSnapshot.beq_iff.mp h.1 with rfl | rfl <;> rfl
      rw [lookup_cons, lookup_cons, hthrough]
      split
      · exact congrArg some hends
      · exact ih h.2

theorem SchemaSnapshot.db_eq_of_beq {a b : SchemaSnapshot} (h : (a == b) = true) : a.db = b.db := by
  simp only [BEq.beq, Bool.and_eq_true, decide_eq_true_eq] at h
  obtain ⟨⟨⟨⟨ht, hm⟩, hi⟩, hc⟩, hx⟩ := h
  ext1
  · simp only [db, table, ht]
  · exact funext (lookup_ends_of_beq hm)
  · funext n
    simp only [db, index, hi]
  · funext n
    simp only [db, check, hc]
  · funext n
    simp only [db, exclude, hx]

section Walk
variable {chain : List Migration} (hchain : (chain.map (·.name)).Nodup)
include hchain

private theorem copies_eq {h : List (Migration × Schema)} (hh : History h)
    (hmem : ∀ e ∈ h, e.1 ∈ chain) {m : Migration} {s : Schema} {rest : List (Migration × Schema)}
    (he : h = (m, s) :: rest) {fuel : Nat} (hfuel : rest.length ≤ fuel) :
    copies chain fuel m = trailingCopies h := by
  induction hh generalizing m s rest fuel with
  | nil => cases he
  | @snoc rest' m' s' hrest hprev hname hkeys hstep ih =>
    obtain ⟨hm, rfl⟩ := List.cons.inj he
    obtain ⟨rfl, rfl⟩ := Prod.mk.inj hm
    cases rest' with
    | nil =>
      have hpar : parent chain m' = none := by simp [parent, hprev]
      cases fuel with
      | zero => rfl
      | succ fuel => simp [copies, hpar, trailingCopies]
    | cons e rest' =>
      obtain ⟨p, t⟩ := e
      have hp : p ∈ chain := hmem (p, t) (List.mem_cons_of_mem _ List.mem_cons_self)
      have hpar : parent chain m' = some p := by
        simp only [parent, hprev, List.head?_cons, Option.map_some, Option.bind_some]
        exact lookup_of_mem Migration.name hchain hp
      cases fuel with
      | zero => simp at hfuel
      | succ fuel =>
        have htail : copies chain fuel p = trailingCopies ((p, t) :: rest') :=
          ih (fun e he => hmem e (List.mem_cons_of_mem _ he)) rfl (by simpa using hfuel)
        rw [copies, hpar, trailingCopies]
        by_cases hb : (p.snapshot == m'.snapshot) = true
        · simp [Option.filter, hb, htail]
        · simp [Option.filter, hb]

private theorem effectiveSnapshot_db {h : List (Migration × Schema)} (hh : History h)
    (hmem : ∀ e ∈ h, e.1 ∈ chain) {m : Migration} {s : Schema} {rest : List (Migration × Schema)}
    (he : h = (m, s) :: rest) : (effectiveSnapshot chain m).db =
      ((trailingCopies h).reverse.flatMap Migration.changes).foldl Schema.applyRename
        m.snapshot.db := by
  have hlen : rest.length ≤ chain.length + 1 := by
    have hnames : ∀ h', History h' → (h'.map (·.1.name)).Nodup := by
      intro h' hh'
      induction hh' with
      | nil => exact List.nodup_nil
      | snoc _ _ hname _ _ ih => exact List.nodup_cons.mpr ⟨hname, ih⟩
    have hsub : h.map (·.1) ⊆ chain := by
      intro x hx
      obtain ⟨e, heh, rfl⟩ := List.mem_map.mp hx
      exact hmem e heh
    have hnd : (h.map (·.1)).Nodup := by
      apply List.Nodup.of_map (·.name)
      rw [List.map_map]
      exact hnames h hh
    have hle := (List.subperm_of_subset hnd hsub).length_le
    rw [he] at hle
    simp only [List.map_cons, List.length_cons, List.length_map] at hle
    omega
  have hkeys : m.snapshot.UniqueKeys := by
    subst he
    cases hh with
    | snoc _ _ _ hkeys _ => exact hkeys
  rw [effectiveSnapshot, hkeys.foldl_applyRename_db, copies_eq hchain hh hmem he hlen]

/-- The baseline is right for every head of a linear chain exactly when each file whose true
snapshot equals its parent's changes the schema as its renames alone do. -/
theorem effectiveSnapshot_iff {h : List (Migration × Schema)} (hh : History h)
    (hmem : ∀ e ∈ h, e.1 ∈ chain) :
    (∀ e ∈ h, (effectiveSnapshot chain e.1).db = e.2) ↔
      ∀ m s' p s, [(m, s'), (p, s)] <:+: h → (p.snapshot == m.snapshot) = true →
        m.snapshot.db = s' → m.changes.foldl Schema.applyRename s = s' := by
  induction hh with
  | nil => simp
  | @snoc rest m s' hrest hprev hname hkeys hstep ih =>
    have hfull := History.snoc hrest hprev hname hkeys hstep
    have hhead := effectiveSnapshot_db hchain hfull hmem rfl
    have ih := ih fun e he => hmem e (List.mem_cons_of_mem _ he)
    rw [List.forall_mem_cons, ih]
    cases rest with
    | nil =>
      have htrue : m.snapshot.db = s' := by
        cases hstep with
        | truthful _ htrue => exact htrue
        | copy p hp => cases hp
      refine iff_of_true ⟨hhead.trans htrue, fun m s' p s hin => ?_⟩ fun m s' p s hin => ?_
      · simpa using hin.length_le
      · simpa using hin.length_le
    | cons e rest =>
      obtain ⟨p, s⟩ := e
      have hparent := effectiveSnapshot_db hchain hrest
        (fun e he => hmem e (List.mem_cons_of_mem _ he)) rfl
      have hsplit : ∀ {q : Migration → Schema → Migration → Schema → Prop},
          (∀ m₁ s₁ p₁ t₁, [(m₁, s₁), (p₁, t₁)] <:+: (m, s') :: (p, s) :: rest → q m₁ s₁ p₁ t₁) ↔
            q m s' p s ∧ ∀ m₁ s₁ p₁ t₁, [(m₁, s₁), (p₁, t₁)] <:+: (p, s) :: rest →
              q m₁ s₁ p₁ t₁ := by
        intro q
        constructor
        · intro hq
          exact ⟨hq m s' p s ⟨[], rest, rfl⟩, fun m₁ s₁ p₁ t₁ hin =>
            hq m₁ s₁ p₁ t₁ (hin.trans (List.suffix_cons _ _).isInfix)⟩
        · intro ⟨hq, hall⟩ m₁ s₁ p₁ t₁ hin
          rcases List.infix_cons_iff.mp hin with hpre | hin
          · obtain ⟨t, ht⟩ := hpre
            simp only [List.cons_append, List.nil_append, List.cons.injEq, Prod.mk.injEq] at ht
            obtain ⟨⟨rfl, rfl⟩, ⟨rfl, rfl⟩, rfl⟩ := ht
            exact hq
          · exact hall m₁ s₁ p₁ t₁ hin
      rw [hsplit, and_congr_left_iff]
      intro hrest'
      have hs : (effectiveSnapshot chain p).db = s := ih.mpr hrest' (p, s) List.mem_cons_self
      rw [hhead, trailingCopies]
      by_cases hb : (p.snapshot == m.snapshot) = true
      · have hcut : ((m :: trailingCopies ((p, s) :: rest)).reverse.flatMap
            Migration.changes).foldl Schema.applyRename m.snapshot.db =
            m.changes.foldl Schema.applyRename s := by
          rw [List.reverse_cons, List.flatMap_append, List.foldl_append,
            ← SchemaSnapshot.db_eq_of_beq hb, ← hparent, hs]
          simp
        rw [if_pos hb, hcut]
        constructor
        · exact fun h _ _ => h
        · intro h
          cases hstep with
          | truthful _ htrue => exact h hb htrue
          | copy _ _ _ hrenames hone hrun => exact foldl_applyRename_of_run hone hrenames hrun
      · rw [if_neg hb]
        refine iff_of_true ?_ fun h => absurd h hb
        cases hstep with
        | truthful _ htrue => exact htrue
        | copy p' hp hcopy =>
          obtain rfl := Option.some.inj hp
          exact absurd hcopy hb

end Walk

section Coincidence

private def text (c : String) : FieldSnapshot :=
  ⟨"title", c, "string", true, false, none, none, none, none, false, false, false, none, none, none⟩

private def post (c : String) : TableSnapshot := ⟨"posts", "Post", [text c], [], none⟩

private def posts (c : String) : SchemaSnapshot := { SchemaSnapshot.empty with tables := [post c] }

private def initial : Migration :=
  ⟨"0001_initial", none, true, [], [], posts "a", [.schema (.createTable "posts")], .tenant⟩

private def renamed : Migration :=
  ⟨"0002_rename", some "0001_initial", true, [], [], posts "a",
    [.schema (.renameColumn "posts" "a" "b")], .tenant⟩

private def reverted : Migration :=
  ⟨"0003_revert", some "0002_rename", true, [], [], posts "a",
    [.schema (.addColumn "posts" "a"), .schema (.dropColumn "posts" "b")], .tenant⟩

private def chain : List Migration := [initial, renamed, reverted]

private def history : List (Migration × Schema) :=
  [(reverted, (posts "a").db), (renamed, (posts "b").db), (initial, (posts "a").db)]

private def postTable (c : String) : Table :=
  ⟨none, Function.update (fun _ => none) c (some (text c).db), fun _ => none⟩

private theorem post_db (c : String) : (post c).db = postTable c := by
  ext1
  · rfl
  · funext k
    by_cases hk : k = c
    · subst hk
      simp [TableSnapshot.db, TableSnapshot.field, post, text, postTable, lookup_cons]
    · simp [TableSnapshot.db, TableSnapshot.field, post, text, postTable, lookup_cons, hk,
        Ne.symm hk]
  · rfl

private theorem posts_db (c : String) : (posts c).db =
    { Schema.empty with
      tables := Function.update (fun _ => none) "posts" (some (postTable c)) } := by
  ext1
  · funext n
    change ((posts c).table n).map TableSnapshot.db =
      Function.update (fun _ => none) "posts" (some (postTable c)) n
    by_cases hn : n = "posts"
    · subst hn
      rw [Function.update_self, ← post_db c]
      rfl
    · rw [Function.update_of_ne hn]
      simp [SchemaSnapshot.table, posts, post, lookup_cons, Ne.symm hn]
  · rfl
  · rfl
  · rfl
  · rfl

private theorem initial_run :
    run (exec (posts "a")) Schema.empty initial.changes = some (posts "a").db := by
  rw [posts_db, ← post_db]
  rfl

private theorem renamed_run :
    run (exec (posts "a")) (posts "a").db renamed.changes = some (posts "b").db := by
  have hkeys : (posts "a").UniqueKeys := by decide
  have ht : (posts "a").table "posts" = some (post "a") := by decide
  have hmove : ((posts "a").moveColumn "posts" "a" "b").db = (posts "a").db.moveColumn "posts" "a" "b" :=
    SchemaSnapshot.moveColumn_db hkeys ht (by decide)
  have hlist : (posts "a").moveColumn "posts" "a" "b" = posts "b" := by decide
  rw [hlist] at hmove
  rw [show renamed.changes = [.renameColumn "posts" "a" "b"] by decide, run_singleton, hmove]
  rfl

private theorem reverted_run :
    run (exec (posts "a")) (posts "b").db reverted.changes = some (posts "a").db := by
  have hcol : (posts "a").columnAt "posts" "a" = some (text "a") := by decide
  have hback : Function.update (Function.update (Function.update (fun _ => none) "b"
      (some (text "b").db)) "a" (some (text "a").db)) "b" none =
      Function.update (fun _ => none) "a" (some (text "a").db) := by
    funext c
    by_cases hb : c = "b"
    · simp [hb]
    · by_cases ha : c = "a" <;> simp [ha, hb]
  rw [posts_db, posts_db]
  rw [show reverted.changes = [.addColumn "posts" "a", .dropColumn "posts" "b"] by decide]
  simp only [run, exec, hcol, Schema.alterColumns, Schema.alterTable]
  simp [alter, create, drop, postTable, hback]

private theorem history_ok : History history := by
  have h1 : History [(initial, (posts "a").db)] :=
    .snoc .nil rfl (by decide) (by decide) (.truthful initial_run rfl)
  have hone : ((posts "a").db).OneName := fun n => Or.inr rfl
  have h2 : History [(renamed, (posts "b").db), (initial, (posts "a").db)] :=
    .snoc h1 rfl (by decide) (by decide)
      (.copy initial rfl (by decide) (by decide) hone renamed_run)
  exact .snoc h2 rfl (by decide) (by decide) (.truthful reverted_run rfl)

theorem effectiveSnapshot_iff_reverted :
    (∀ e ∈ history, (effectiveSnapshot chain e.1).db = e.2) ↔
      ∀ m s' p s, [(m, s'), (p, s)] <:+: history → (p.snapshot == m.snapshot) = true →
        m.snapshot.db = s' → m.changes.foldl Schema.applyRename s = s' :=
  effectiveSnapshot_iff (by decide) history_ok (by simp [history, chain])

/-- A rename written into a copy and undone by a later diff: the newest file is truthful, its
snapshot is the copy's again, and the old rename is replayed on it. -/
theorem effectiveSnapshot_reverted :
    History history ∧ (∀ e ∈ history, e.1 ∈ chain) ∧
      ¬ ∀ e ∈ history, (effectiveSnapshot chain e.1).db = e.2 := by
  refine ⟨history_ok, by simp [history, chain], fun h => ?_⟩
  have hlast := h (reverted, (posts "a").db) (by simp [history])
  have heff : effectiveSnapshot chain reverted = posts "b" := by decide
  rw [heff] at hlast
  have hcol := congrArg (fun s => (s.columnAt "posts" "a").isSome) hlast
  exact absurd hcol (by decide)

end Coincidence

end Rustango.Migrate
