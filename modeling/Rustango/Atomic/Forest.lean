import Rustango.Atomic.Tx

/-!
# The scopes of a transaction

How the scopes of one transaction lie in each other. The id of a scope is the number of scopes
before it, so it names the scope, and it is on the path of exactly the scopes inside it.
-/

namespace Rustango.Atomic

/-- Scopes that were opened one after another, each in an older one that is no joined write. -/
inductive Forest : List Scope → Prop where
  | start : Forest [root]
  | nested {all : List Scope} {p : Scope} (older : Forest all) (mem : p ∈ all)
      (kind : p.kind ≠ .write) : Forest (p.nested all.length :: all)
  | joined {all : List Scope} {p : Scope} (older : Forest all) (mem : p ∈ all)
      (kind : p.kind ≠ .write) : Forest (p.joined all.length :: all)
  | step {all : List Scope} {p : Scope} (n : Nat) (older : Forest all) (mem : p ∈ all)
      (kind : p.kind ≠ .write) : Forest (p.step all.length n :: all)

variable {all : List Scope} {p q s b c : Scope} {i n : Nat}

/-- The innermost block around the code of a scope. -/
structure Innermost (all : List Scope) (s b : Scope) : Prop where
  mem : b ∈ all
  kind : b.kind = .block
  id : b.id = s.block
  path : b.id ∈ s.path
  savepoints : b.savepoints = s.savepoints

/-- The block around a nested block. -/
structure Around (all : List Scope) (s b : Scope) : Prop where
  mem : b ∈ all
  kind : b.kind = .block
  id : b.id = s.parent
  path : b.id ∈ s.path
  savepoints : s.savepoints = s.id :: b.savepoints

theorem Innermost.mono (h : Innermost all p b) : Innermost (s :: all) p b :=
  ⟨List.mem_cons_of_mem _ h.mem, h.kind, h.id, h.path, h.savepoints⟩

theorem Around.mono (h : Around all p b) : Around (s :: all) p b :=
  ⟨List.mem_cons_of_mem _ h.mem, h.kind, h.id, h.path, h.savepoints⟩

/-- What holds of the root, and of a scope opened in one of which it holds, holds of all. -/
theorem Forest.rec_mem {P : List Scope → Scope → Prop} (h : Forest all)
    (start : P [root] root) (older : ∀ s' all s, P all s → P (s' :: all) s)
    (nested : ∀ all p, Forest all → p ∈ all → p.kind ≠ .write → P all p →
      P (p.nested all.length :: all) (p.nested all.length))
    (joined : ∀ all p, Forest all → p ∈ all → p.kind ≠ .write → P all p →
      P (p.joined all.length :: all) (p.joined all.length))
    (step : ∀ all p n, Forest all → p ∈ all → p.kind ≠ .write → P all p →
      P (p.step all.length n :: all) (p.step all.length n)) :
    ∀ s ∈ all, P all s := by
  induction h with
  | start =>
    intro s hs
    rw [List.mem_singleton.mp hs]
    exact start
  | @nested all p hf mem kind ih =>
    intro s hs
    rcases List.mem_cons.mp hs with rfl | hs
    · exact nested all p hf mem kind (ih p mem)
    · exact older _ all s (ih s hs)
  | @joined all p hf mem kind ih =>
    intro s hs
    rcases List.mem_cons.mp hs with rfl | hs
    · exact joined all p hf mem kind (ih p mem)
    · exact older _ all s (ih s hs)
  | @step all p n hf mem kind ih =>
    intro s hs
    rcases List.mem_cons.mp hs with rfl | hs
    · exact step all p n hf mem kind (ih p mem)
    · exact older _ all s (ih s hs)

theorem Forest.id_lt (h : Forest all) : ∀ s ∈ all, s.id < all.length := by
  refine h.rec_mem (P := fun all s => s.id < all.length) ?_ ?_ ?_ ?_ ?_
  · exact Nat.one_pos
  · intro s' all s hs
    exact Nat.lt_succ_of_lt hs
  all_goals intros; exact Nat.lt_succ_self _

theorem Forest.zero_mem_path (h : Forest all) : ∀ s ∈ all, 0 ∈ s.path := by
  refine h.rec_mem (P := fun _ s => 0 ∈ s.path) ?_ ?_ ?_ ?_ ?_
  · exact List.mem_singleton_self 0
  · exact fun _ _ _ hs => hs
  all_goals intro all p; intros; exact List.mem_cons_of_mem _ ‹_›

theorem Forest.id_inj (h : Forest all) (hp : p ∈ all) (hq : q ∈ all) (hid : p.id = q.id) :
    p = q := by
  induction h with
  | start => rw [List.mem_singleton.mp hp, List.mem_singleton.mp hq]
  | @nested all r hf _ _ ih | @joined all r hf _ _ ih | @step all r n hf _ _ ih =>
    have fresh : ∀ s ∈ all, s.id ≠ all.length := fun s hs => (hf.id_lt s hs).ne
    rcases List.mem_cons.mp hp with rfl | hp' <;> rcases List.mem_cons.mp hq with rfl | hq'
    · rfl
    · exact absurd hid.symm (fresh q hq')
    · exact absurd hid (fresh p hp')
    · exact ih hp' hq'

/-- An id on a path is that of a scope around, whose path is the rest. -/
theorem Forest.around_of_mem_path (h : Forest all) :
    ∀ s ∈ all, ∀ i ∈ s.path, ∃ q ∈ all, q.id = i ∧ q.path <:+ s.path := by
  have opened : ∀ (all : List Scope) (p s : Scope), s.path = s.id :: p.path →
      (∀ i ∈ p.path, ∃ q ∈ all, q.id = i ∧ q.path <:+ p.path) →
      ∀ i ∈ s.path, ∃ q ∈ s :: all, q.id = i ∧ q.path <:+ s.path := by
    intro all p s hpath ih i hi
    rw [hpath] at hi ⊢
    rcases List.mem_cons.mp hi with rfl | hi
    · exact ⟨s, List.mem_cons_self, rfl, hpath ▸ List.suffix_rfl⟩
    · obtain ⟨q, hq, hid, hsub⟩ := ih i hi
      exact ⟨q, List.mem_cons_of_mem _ hq, hid, hsub.trans (List.suffix_cons _ _)⟩
  refine h.rec_mem (P := fun all s => ∀ i ∈ s.path, ∃ q ∈ all, q.id = i ∧ q.path <:+ s.path)
    ?_ ?_ ?_ ?_ ?_
  · intro i hi
    exact ⟨root, List.mem_singleton_self root, (List.mem_singleton.mp hi).symm, List.suffix_rfl⟩
  · intro s' all s hs i hi
    obtain ⟨q, hq, hid, hsub⟩ := hs i hi
    exact ⟨q, List.mem_cons_of_mem _ hq, hid, hsub⟩
  · intro all p _ _ _ ih
    exact opened all p (p.nested all.length) rfl ih
  · intro all p _ _ _ ih
    exact opened all p (p.joined all.length) rfl ih
  · intro all p n _ _ _ ih
    exact opened all p (p.step all.length n) rfl ih

theorem Forest.lt_of_mem_path (h : Forest all) (hs : s ∈ all) (hi : i ∈ s.path) :
    i < all.length := by
  obtain ⟨q, hq, rfl, _⟩ := h.around_of_mem_path s hs i hi
  exact h.id_lt q hq

theorem Forest.savepoints_sub_path (h : Forest all) : ∀ s ∈ all, s.savepoints ⊆ s.path := by
  refine h.rec_mem (P := fun _ s => s.savepoints ⊆ s.path) ?_ ?_ ?_ ?_ ?_
  · exact List.nil_subset _
  · exact fun _ _ _ hs => hs
  · intro all p _ _ _ ih
    exact List.cons_subset_cons _ ih
  · intro all p _ _ _ ih
    exact List.cons_subset_cons _ ih
  · intro all p n _ _ _ ih
    exact List.Subset.trans ih (List.subset_cons_self _ _)

/-- The code of a scope that is no joined write runs in an innermost block. -/
theorem Forest.innermost (h : Forest all) :
    ∀ s ∈ all, s.kind ≠ .write → ∃ b, Innermost all s b := by
  refine h.rec_mem (P := fun all s => s.kind ≠ .write → ∃ b, Innermost all s b) ?_ ?_ ?_ ?_ ?_
  · intro _
    exact ⟨root, List.mem_singleton_self root, rfl, rfl, List.mem_singleton_self 0, rfl⟩
  · intro s' all s hs hkind
    obtain ⟨b, hb⟩ := hs hkind
    exact ⟨b, hb.mono⟩
  · intro all p _ _ _ _ _
    exact ⟨p.nested all.length, List.mem_cons_self, rfl, rfl, List.mem_cons_self, rfl⟩
  · intro all p _ _ _ _ hkind
    exact absurd rfl hkind
  · intro all p n _ _ kind ih _
    obtain ⟨b, hb⟩ := ih kind
    exact ⟨b, List.mem_cons_of_mem _ hb.mem, hb.kind, hb.id, List.mem_cons_of_mem _ hb.path,
      hb.savepoints⟩

theorem Forest.around (h : Forest all) :
    ∀ s ∈ all, s.kind = .block → s ≠ root → ∃ b, Around all s b := by
  refine h.rec_mem (P := fun all s => s.kind = .block → s ≠ root → ∃ b, Around all s b)
    ?_ ?_ ?_ ?_ ?_
  · exact fun _ hroot => absurd rfl hroot
  · intro s' all s hs hkind hroot
    obtain ⟨b, hb⟩ := hs hkind hroot
    exact ⟨b, hb.mono⟩
  · intro all p hf mem kind _ _ _
    obtain ⟨b, hb⟩ := hf.innermost p mem kind
    exact ⟨b, List.mem_cons_of_mem _ hb.mem, hb.kind, hb.id, List.mem_cons_of_mem _ hb.path,
      congrArg (all.length :: ·) hb.savepoints.symm⟩
  · exact fun _ _ _ _ _ _ h => nomatch h
  · exact fun _ _ _ _ _ _ _ h => nomatch h

/-- A nested block around a scope is one of its savepoints. -/
theorem Forest.mem_savepoints (h : Forest all) (hb : b ∈ all) (hkind : b.kind = .block)
    (hroot : b ≠ root) : ∀ s ∈ all, b.id ∈ s.path → b.id ∈ s.savepoints := by
  induction h with
  | start => exact absurd (List.mem_singleton.mp hb) hroot
  | @nested all p hf mem _ ih | @joined all p hf mem _ ih | @step all p n hf mem _ ih =>
    intro s hs hpath
    have fresh : ∀ q ∈ all, all.length ∉ q.path := fun q hq hi =>
      (hf.lt_of_mem_path hq hi).ne rfl
    rcases List.mem_cons.mp hb with rfl | hb'
    · rcases List.mem_cons.mp hs with rfl | hs'
      · first | exact List.mem_cons_self | cases hkind
      · exact absurd hpath (fresh s hs')
    · rcases List.mem_cons.mp hs with rfl | hs'
      · rcases List.mem_cons.mp hpath with heq | hpath'
        · exact absurd heq (hf.id_lt b hb').ne
        · first
            | exact List.mem_cons_of_mem _ (ih hb' p mem hpath')
            | exact ih hb' p mem hpath'
      · exact ih hb' s hs' hpath

theorem Forest.write_savepoints (h : Forest all) :
    ∀ s ∈ all, s.kind = .write → ∃ post, s.savepoints = s.id :: post := by
  refine h.rec_mem (P := fun _ s => s.kind = .write → ∃ post, s.savepoints = s.id :: post)
    ?_ ?_ ?_ ?_ ?_
  · exact fun h => nomatch h
  · exact fun _ _ _ hs => hs
  · exact fun _ _ _ _ _ _ h => nomatch h
  · exact fun _ p _ _ _ _ _ => ⟨p.savepoints, rfl⟩
  · exact fun _ _ _ _ _ _ _ h => nomatch h

/-- No scope is in a joined write but itself. -/
theorem Forest.write_alone (h : Forest all) (hw : b ∈ all) (hkind : b.kind = .write) :
    ∀ s ∈ all, b.id ∈ s.path → s = b := by
  induction h with
  | start =>
    rw [List.mem_singleton.mp hw] at hkind
    cases hkind
  | @nested all p hf mem kind ih | @joined all p hf mem kind ih | @step all p n hf mem kind ih =>
    intro s hs hpath
    have fresh : ∀ q ∈ all, all.length ∉ q.path := fun q hq hi =>
      (hf.lt_of_mem_path hq hi).ne rfl
    rcases List.mem_cons.mp hw with rfl | hw'
    · rcases List.mem_cons.mp hs with rfl | hs'
      · rfl
      · exact absurd hpath (fresh s hs')
    · rcases List.mem_cons.mp hs with rfl | hs'
      · rcases List.mem_cons.mp hpath with heq | hpath'
        · exact absurd heq (hf.id_lt b hw').ne
        · exact absurd (ih hw' p mem hpath' ▸ hkind) kind
      · exact ih hw' s hs' hpath

/-- A savepoint is that of a scope around, whose savepoints are the rest. -/
theorem Forest.owner (h : Forest all) : ∀ s ∈ all, ∀ o post, (o :: post) <:+ s.savepoints →
    ∃ q ∈ all, q.id = o ∧ q.savepoints = o :: post := by
  have opened : ∀ (all : List Scope) (p s : Scope), s.savepoints = s.id :: p.savepoints →
      (∀ o post, (o :: post) <:+ p.savepoints → ∃ q ∈ all, q.id = o ∧ q.savepoints = o :: post) →
      ∀ o post, (o :: post) <:+ s.savepoints →
        ∃ q ∈ s :: all, q.id = o ∧ q.savepoints = o :: post := by
    intro all p s hsp ih o post hsub
    rw [hsp] at hsub
    rcases List.suffix_cons_iff.mp hsub with heq | hsub
    · obtain ⟨rfl, rfl⟩ := List.cons.inj heq
      exact ⟨s, List.mem_cons_self, rfl, hsp⟩
    · obtain ⟨q, hq, hq'⟩ := ih o post hsub
      exact ⟨q, List.mem_cons_of_mem _ hq, hq'⟩
  refine h.rec_mem (P := fun all s => ∀ o post, (o :: post) <:+ s.savepoints →
    ∃ q ∈ all, q.id = o ∧ q.savepoints = o :: post) ?_ ?_ ?_ ?_ ?_
  · intro o post hsub
    exact absurd hsub.length_le (Nat.not_succ_le_zero _)
  · intro s' all s hs o post hsub
    obtain ⟨q, hq, hq'⟩ := hs o post hsub
    exact ⟨q, List.mem_cons_of_mem _ hq, hq'⟩
  · intro all p _ _ _ ih
    exact opened all p (p.nested all.length) rfl ih
  · intro all p _ _ _ ih
    exact opened all p (p.joined all.length) rfl ih
  · intro all p n _ _ _ ih o post hsub
    obtain ⟨q, hq, hq'⟩ := ih o post hsub
    exact ⟨q, List.mem_cons_of_mem _ hq, hq'⟩

/-- Two blocks with the same savepoints are one block. -/
theorem Forest.block_inj (h : Forest all) (hb : b ∈ all) (hc : c ∈ all)
    (hbk : b.kind = .block) (hck : c.kind = .block) (heq : b.savepoints = c.savepoints) :
    b = c := by
  have head : ∀ q ∈ all, q.kind = .block → q ≠ root → ∃ post, q.savepoints = q.id :: post := by
    intro q hq hkind hroot
    obtain ⟨a, ha⟩ := h.around q hq hkind hroot
    exact ⟨a.savepoints, ha.savepoints⟩
  by_cases hbr : b = root <;> by_cases hcr : c = root
  · rw [hbr, hcr]
  · obtain ⟨post, hpost⟩ := head c hc hck hcr
    rw [hbr, hpost] at heq
    cases heq
  · obtain ⟨post, hpost⟩ := head b hb hbk hbr
    rw [hcr, hpost] at heq
    cases heq
  · obtain ⟨post, hpost⟩ := head b hb hbk hbr
    obtain ⟨post', hpost'⟩ := head c hc hck hcr
    rw [hpost, hpost'] at heq
    exact h.id_inj hb hc (List.cons.inj heq).1

end Rustango.Atomic
