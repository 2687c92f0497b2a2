import Rustango.Migrate.Branches

/-!
# A merge resolves the branch

The chain with the merge file appended: the files before it keep their walks, and the file itself
reaches what the leaves it joins reach.
-/

namespace Rustango.Migrate

open Rustango.Keyed Rustango.Outcome Rustango.Worklist

/-- The name `makemigrations --merge` gives its file. -/
def mergeName (files : List Migration) : String :=
  numbered (nextIndex (highestIndex files)) "merge"

/-- The root whose leaves are merged: the first that has branched. -/
def mergedRoot (files : List Migration) : String :=
  ((branchedLeaves files).head?.bind List.head?).elim "" (rootOf files)

/-- What `mig` is to the leaves of `root` that it merges. -/
structure JoinsLeaves (files : List Migration) (mig : Migration) (root : String) : Prop where
  name : mig.name = mergeName files
  links : ∀ m ∈ files, ∀ p, m.prev = some p → p ∈ files.map (·.name)
  head : ∃ m ∈ leavesOver files root, mig.prev = some m.name
  named : ∀ n, n ∈ mig.prev.toList ++ mig.merges ↔ n ∈ (leavesOver files root).map (·.name)
  merges : mig.merges ≠ []
  replaces : mig.replaces = []

/-- What a merge should leave: the new file is the only leaf over the root, its walk holds the
whole history, and the root is not reported again. -/
structure BranchResolved (files : List Migration) (mig : Migration) (root : String) : Prop where
  single : leavesOver (files ++ [mig]) root = [mig]
  whole : ∀ m ∈ files ++ [mig], rootOf (files ++ [mig]) m = root →
    m.name ∈ chainMembership (files ++ [mig])
  quiet : ∀ branch ∈ branchedLeaves (files ++ [mig]), ∀ m ∈ branch,
    rootOf (files ++ [mig]) m ≠ root

/-- No file is called, replaces or merges `NNNN_merge`, with `NNNN` one above the highest number. -/
def NameFree (files : List Migration) : Prop :=
  ∀ m ∈ files, m.name ≠ mergeName files ∧ mergeName files ∉ m.replaces ∧
    mergeName files ∉ m.merges

/-- Every file of the history is an ancestor of a leaf. A file is cut off from the leaves when all
its ways up end at a file that only a squash replaces or over another root, or run in a circle. -/
def Connected (files : List Migration) (root : String) : Prop :=
  ∀ m ∈ files, rootOf files m = root →
    ∃ leaf ∈ leavesOver files root, Reaches (parents files) leaf.name m.name

private theorem mem_branchedLeaves {chain : List Migration} {branch : List Migration}
    (h : branch ∈ branchedLeaves chain) :
    ∃ root, branch = (leavesOver chain root).insertionSort (·.name ≤ ·.name) ∧
      1 < (leavesOver chain root).length := by
  obtain ⟨group, hgroup, rfl⟩ := List.mem_map.mp h
  obtain ⟨hmem, hlen⟩ := List.mem_filter.mp hgroup
  obtain ⟨root, _, rfl⟩ := List.mem_map.mp hmem
  exact ⟨root, rfl, by simpa using hlen⟩

private theorem mem_leavesOver {chain : List Migration} {root : String} {m : Migration} :
    m ∈ leavesOver chain root ↔ (m ∈ chain ∧ m.name ∉ joined chain) ∧ rootOf chain m = root := by
  simp only [leavesOver, leaves, List.mem_filter, decide_eq_true_eq]

/-- A merge that succeeds joins every leaf of the first root that has branched. -/
theorem joinsLeaves_of_makeMergeMigration {dir : String} {files : List Migration} {mig : Migration}
    (h : makeMergeMigration dir files = .ok (some mig)) :
    JoinsLeaves files mig (mergedRoot files) := by
  obtain ⟨prior, hprior, hmerge⟩ := bind_eq_ok.mp h
  obtain ⟨rfl, hlinks⟩ := prev_mem_of_listDir hprior
  clear h
  split at hmerge
  · cases hmerge
  · split at hmerge
    · rename_i branch rest hbranch
      obtain ⟨root, rfl, hlen⟩ := mem_branchedLeaves (hbranch ▸ List.mem_cons_self)
      let branch := (leavesOver prior root).insertionSort (·.name ≤ ·.name)
      have hperm : branch.Perm (leavesOver prior root) := List.perm_insertionSort _ _
      have hmem (m : Migration) : m ∈ branch ↔ m ∈ leavesOver prior root := hperm.mem_iff
      have hlen' : 1 < branch.length := by
        rw [hperm.length_eq]
        exact hlen
      have hroot : mergedRoot prior = root := by
        obtain ⟨first, others, hcons⟩ : ∃ first others, branch = first :: others :=
          List.exists_cons_of_length_pos (by omega)
        have hfirst : rootOf prior first = root :=
          (mem_leavesOver.mp ((hmem first).mp (hcons ▸ List.mem_cons_self))).2
        have hhead : ((branchedLeaves prior).head?.bind List.head?) = some first := by
          rw [hbranch]
          exact congrArg List.head? hcons
        rw [mergedRoot, hhead]
        exact hfirst
      unfold mergeLeaves at hmerge
      dsimp only at hmerge
      split at hmerge
      · cases hmerge
      · rename_i head hhead
        obtain ⟨snapshot, _, hfile⟩ := bind_eq_ok.mp hmerge
        obtain rfl := Option.some.inj (Except.ok.inj hfile)
        have hsplit : branch.dropLast ++ [head] = branch :=
          List.dropLast_append_getLast? head hhead
        have hhead' : head ∈ leavesOver prior root :=
          (hmem head).mp (List.mem_of_getLast? hhead)
        rw [hroot]
        refine ⟨rfl, hlinks, ⟨head, hhead', rfl⟩, ?_, ?_, rfl⟩
        · intro n
          have hnames : (branch.dropLast.map (·.name) ++ [head.name]) = branch.map (·.name) := by
            rw [← hsplit]
            simp
          rw [← (hperm.map (·.name)).mem_iff, ← hnames]
          simp [or_comm, branch]
        · intro hnil
          have hdrop : branch.dropLast = [] := List.map_eq_nil_iff.mp hnil
          have hone := congrArg List.length hsplit
          simp [hdrop] at hone
          omega
    · dsimp only at hmerge
      split at hmerge
      · cases hmerge
      · cases hmerge

section Append
variable {files : List Migration} {mig : Migration}

private theorem parent_mem {m p : Migration} (h : parent files m = some p) : p ∈ files := by
  obtain ⟨_, _, hlookup⟩ := Option.bind_eq_some_iff.mp h
  exact mem_of_lookup _ hlookup

private theorem lookup_append_of_mem {n : String} (h : n ∈ files.map (·.name)) :
    lookup Migration.name (files ++ [mig]) n = lookup Migration.name files n := by
  rw [lookup_append]
  have hsome := (lookup_isSome Migration.name).mpr h
  obtain ⟨m, hm⟩ := Option.isSome_iff_exists.mp hsome
  rw [hm]
  rfl

variable (hlinks : ∀ m ∈ files, ∀ p, m.prev = some p → p ∈ files.map (·.name))
include hlinks

private theorem parent_append {m : Migration} (hm : m ∈ files) :
    parent (files ++ [mig]) m = parent files m := by
  unfold parent
  cases hp : m.prev with
  | none => rfl
  | some p => exact lookup_append_of_mem (hlinks m hm p hp)

private theorem mergedBranches_append {root : String} (hhead : ∃ m ∈ leavesOver files root,
    mig.prev = some m.name) {c : Migration} (hc : c ∈ files) :
    mergedBranches (files ++ [mig]) c = mergedBranches files c := by
  obtain ⟨leaf, hleaf, hprev⟩ := hhead
  unfold mergedBranches
  rw [parent_append hlinks hc]
  split
  · rfl
  · cases hfilter : (parent files c).filter fun _ => isLegacyMerge c with
    | none => rfl
    | some head =>
      have hhead : head ∈ files := parent_mem (Option.eq_some_of_filter_eq_some hfilter)
      have hnot : mig.prev ≠ head.prev := by
        intro heq
        have hjoined : leaf.name ∈ joined files :=
          List.mem_flatMap.mpr ⟨head, hhead, by simp [← heq, hprev]⟩
        exact (mem_leavesOver.mp hleaf).1.2 hjoined
      simp [List.filter_append, hnot]

private theorem walkBack_append (fuel : Nat) (seen : List String) {m : Migration} (hm : m ∈ files) :
    walkBack (files ++ [mig]) fuel seen m = walkBack files fuel seen m := by
  induction fuel generalizing seen m with
  | zero => rfl
  | succ fuel ih =>
    rw [walkBack, walkBack, parent_append hlinks hm]
    cases hp : parent files m with
    | none => rfl
    | some p =>
      dsimp only
      split
      · rfl
      · rw [ih (p.name :: seen) (parent_mem hp)]

end Append

private theorem walkBack_succ (chain : List Migration) (fuel : Nat) (seen : List String) (m : Migration) :
    walkBack chain (fuel + 1) seen m = match parent chain m with
      | none => [m]
      | some p => if p.name ∈ seen then [m] else m :: walkBack chain fuel (p.name :: seen) p := rfl

/-- Fuel for the names not seen yet is enough. -/
private theorem walkBack_fuel {chain : List Migration} {fuel : Nat} {seen : List String} {m : Migration}
    (h : (chain.filter fun c => c.name ∉ seen).length ≤ fuel) :
    walkBack chain (fuel + 1) seen m = walkBack chain fuel seen m := by
  induction fuel generalizing seen m with
  | zero =>
    have hall : chain.filter (fun c => c.name ∉ seen) = [] :=
      List.eq_nil_of_length_eq_zero (by omega)
    rw [walkBack, walkBack]
    cases hp : parent chain m with
    | none => rfl
    | some p =>
      have hseen : p.name ∈ seen := by
        by_contra hns
        have hmem : p ∈ chain.filter fun c => c.name ∉ seen :=
          List.mem_filter.mpr ⟨parent_mem hp, by simpa using hns⟩
        rw [hall] at hmem
        cases hmem
      dsimp only
      rw [if_pos hseen]
  | succ fuel ih =>
    rw [walkBack_succ, walkBack_succ chain fuel]
    cases hp : parent chain m with
    | none => rfl
    | some p =>
      dsimp only
      by_cases hs : p.name ∈ seen
      · rw [if_pos hs, if_pos hs]
      · -- the parent's name leaves the names still to see
        have hless : (chain.filter fun c => c.name ∉ p.name :: seen).length <
            (chain.filter fun c => c.name ∉ seen).length := by
          have hsub : (chain.filter fun c => c.name ∉ p.name :: seen) =
              (chain.filter fun c => c.name ∉ seen).filter fun c => c.name ≠ p.name := by
            rw [List.filter_filter]
            apply List.filter_congr
            intro c _
            simp [not_or]
          rw [hsub]
          apply List.length_filter_lt_length_iff_exists.mpr
          exact ⟨p, List.mem_filter.mpr ⟨parent_mem hp, by simpa using hs⟩, by simp⟩
        rw [if_neg hs, if_neg hs, ih (by omega)]

private theorem walkBack_seen {chain : List Migration} {n : String} (hn : n ∉ chain.map (·.name))
    (fuel : Nat) (seen : List String) (m : Migration) :
    walkBack chain fuel (seen ++ [n]) m = walkBack chain fuel seen m := by
  induction fuel generalizing seen m with
  | zero => rfl
  | succ fuel ih =>
    rw [walkBack, walkBack]
    cases hp : parent chain m with
    | none => rfl
    | some p =>
      have hne : p.name ≠ n := by
        rintro rfl
        exact hn (List.mem_map_of_mem (parent_mem hp))
      have hiff : p.name ∈ seen ++ [n] ↔ p.name ∈ seen := by simp [hne]
      have hrest := ih (p.name :: seen) p
      dsimp only
      rw [if_congr hiff rfl rfl, ← List.cons_append, hrest]

private theorem walkBack_ne_nil (chain : List Migration) (fuel : Nat) (seen : List String) (m : Migration) :
    walkBack chain fuel seen m ≠ [] := by
  cases fuel with
  | zero => exact List.cons_ne_nil _ _
  | succ fuel =>
    rw [walkBack]
    split
    · exact List.cons_ne_nil _ _
    · split <;> exact List.cons_ne_nil _ _

namespace JoinsLeaves
variable {files : List Migration} {mig : Migration} {root : String} (h : JoinsLeaves files mig root)
include h

theorem ancestry_append {m : Migration} (hm : m ∈ files) :
    ancestry (files ++ [mig]) m = ancestry files m := by
  have hfuel : (files.filter fun c => c.name ∉ [m.name]).length ≤ files.length :=
    List.length_filter_le _ _
  have hlength : (files ++ [mig]).length = files.length + 1 := by simp
  rw [ancestry, ancestry, walkBack_append h.links _ _ hm, hlength, walkBack_fuel hfuel]

theorem rootOf_append {m : Migration} (hm : m ∈ files) :
    rootOf (files ++ [mig]) m = rootOf files m := by
  rw [rootOf, rootOf, h.ancestry_append hm]

/-- The new file has the root of the leaves it joins. -/
theorem rootOf_new (hn : (files.map (·.name)).Nodup) (hfree : mig.name ∉ files.map (·.name)) :
    rootOf (files ++ [mig]) mig = root := by
  obtain ⟨head, hhead, hprev⟩ := h.head
  obtain ⟨⟨hmem, _⟩, hroot⟩ := mem_leavesOver.mp hhead
  have hname : head.name ∈ files.map (·.name) := List.mem_map_of_mem hmem
  have hparent : parent (files ++ [mig]) mig = some head := by
    rw [parent, hprev, Option.bind_some, lookup_append_of_mem hname, lookup_of_mem _ hn hmem]
  have hne : head.name ∉ [mig.name] := by
    intro heq
    rw [List.mem_singleton.mp heq] at hname
    exact hfree hname
  have hwalk : ancestry (files ++ [mig]) mig = mig :: ancestry files head := by
    have hlength : (files ++ [mig]).length = files.length + 1 := by simp
    have hrest : walkBack files files.length [head.name, mig.name] head =
        walkBack files files.length [head.name] head := walkBack_seen hfree _ [head.name] head
    rw [ancestry, hlength, walkBack, hparent]
    dsimp only
    rw [if_neg hne, walkBack_append h.links _ _ hmem, hrest, ancestry]
  have hne' : ancestry files head ≠ [] := walkBack_ne_nil _ _ _ _
  rw [rootOf, hwalk, List.getLast?_cons_of_ne_nil hne', ← hroot, rootOf]

theorem mem_joined_append (n : String) :
    n ∈ joined (files ++ [mig]) ↔ n ∈ joined files ∨ n ∈ (leavesOver files root).map (·.name) := by
  have hold : files.flatMap (fun m => m.prev.toList ++ m.replaces ++
      mergedBranches (files ++ [mig]) m) = joined files := by
    apply List.flatMap_congr
    intro m hm
    rw [mergedBranches_append h.links h.head hm]
  have hnew : mergedBranches (files ++ [mig]) mig = mig.merges := by
    rw [mergedBranches, if_pos h.merges]
  rw [joined, List.flatMap_append, List.mem_append, hold, ← h.named]
  simp [hnew, h.replaces]

theorem parents_append {n : String} (hn : n ≠ mig.name) :
    parents (files ++ [mig]) n = parents files n := by
  have hlookup : lookup Migration.name (files ++ [mig]) n = lookup Migration.name files n := by
    have hlast : lookup Migration.name [mig] n = none := by
      rw [lookup_cons, if_neg (Ne.symm hn), lookup_nil]
    rw [lookup_append, hlast]
    cases lookup Migration.name files n <;> rfl
  unfold parents
  rw [hlookup]
  cases hm : lookup Migration.name files n with
  | none => rfl
  | some m => exact congrArg _ (mergedBranches_append h.links h.head (mem_of_lookup _ hm))

theorem parents_new (hfree : mig.name ∉ files.map (·.name)) (n : String) :
    n ∈ parents (files ++ [mig]) mig.name ↔ n ∈ (leavesOver files root).map (·.name) := by
  have hnone : lookup Migration.name files mig.name = none :=
    (lookup_eq_none Migration.name).mpr fun m hm heq => hfree (List.mem_map.mpr ⟨m, hm, heq⟩)
  have hlookup : lookup Migration.name (files ++ [mig]) mig.name = some mig := by
    rw [lookup_append, hnone, lookup_cons, if_pos rfl]
    rfl
  rw [parents, hlookup, ← h.named]
  simp [mergedBranches, h.merges]

end JoinsLeaves

private theorem parents_joined {files : List Migration} {n p : String} (h : p ∈ parents files n) :
    p ∈ joined files := by
  unfold parents at h
  split at h
  · cases h
  · rename_i m hm
    apply List.mem_flatMap.mpr
    refine ⟨m, mem_of_lookup _ hm, ?_⟩
    rcases List.mem_append.mp h with hp | hp
    · simp [hp]
    · simp [hp]

private theorem mem_reachable {chain : List Migration} {x y : String} :
    y ∈ reachable chain x ↔ Reaches (parents chain) x y := by
  apply mem_reach
  intro n hn
  unfold parents at hn
  split at hn
  · cases hn rfl
  · rename_i m hm
    exact List.mem_map.mpr ⟨m, mem_of_lookup _ hm, lookup_key _ hm⟩

private theorem chainMembership_append {files : List Migration} {mig : Migration} (y : String) :
    y ∈ chainMembership (files ++ [mig]) ↔ Reaches (parents (files ++ [mig])) mig.name y := by
  rw [chainMembership, List.getLast?_concat]
  exact mem_reachable

private theorem joined_of_reaches {files : List Migration} {x y : String}
    (h : Reaches (parents files) x y) : y = x ∨ y ∈ joined files := by
  cases h using Relation.ReflTransGen.casesOn with
  | refl => exact .inl rfl
  | tail _ hstep => exact .inr (parents_joined hstep)

namespace JoinsLeaves
variable {files : List Migration} {mig : Migration} {root : String} (h : JoinsLeaves files mig root)
include h

/-- A free name is mentioned nowhere. -/
theorem not_joined (hfree : NameFree files) : mig.name ∉ joined files := by
  intro hjoined
  obtain ⟨m, hm, hmention⟩ := List.mem_flatMap.mp hjoined
  rw [h.name] at hmention
  obtain ⟨_, hreplaces, hmerges⟩ := hfree m hm
  have hnames : mergeName files ∉ files.map (·.name) := by
    intro hmem
    obtain ⟨c, hc, hname⟩ := List.mem_map.mp hmem
    exact (hfree c hc).1 hname
  rcases List.mem_append.mp hmention with hmention | hmention
  · rcases List.mem_append.mp hmention with hprev | hmention
    · exact hnames (h.links m hm _ (Option.mem_toList.mp hprev))
    · exact hreplaces hmention
  · unfold mergedBranches at hmention
    split at hmention
    · exact hmerges hmention
    · split at hmention
      · cases hmention
      · obtain ⟨c, hc, hname⟩ := List.mem_map.mp hmention
        exact hnames (List.mem_map.mpr ⟨c, (List.mem_filter.mp hc).1, hname⟩)

theorem name_not_mem (hfree : NameFree files) : mig.name ∉ files.map (·.name) := by
  intro hmem
  obtain ⟨c, hc, hname⟩ := List.mem_map.mp hmem
  exact (hfree c hc).1 (hname.trans h.name)

theorem reaches_append (hjoined : mig.name ∉ joined files) {x y : String} (hx : x ≠ mig.name) :
    Reaches (parents (files ++ [mig])) x y ↔ Reaches (parents files) x y := by
  constructor
  · intro hr
    induction hr using Relation.ReflTransGen.head_induction_on with
    | refl => exact .refl
    | @head a b hab _ ih =>
      rw [h.parents_append hx] at hab
      have hb : b ≠ mig.name := fun heq => hjoined (heq ▸ parents_joined hab)
      exact .head hab (ih hb)
  · intro hr
    induction hr using Relation.ReflTransGen.head_induction_on with
    | refl => exact .refl
    | @head a b hab _ ih =>
      have hb : b ≠ mig.name := fun heq => hjoined (heq ▸ parents_joined hab)
      rw [← h.parents_append hx] at hab
      exact .head hab (ih hb)

theorem reaches_new (hfree : NameFree files) (y : String) :
    Reaches (parents (files ++ [mig])) mig.name y ↔
      y = mig.name ∨ ∃ leaf ∈ leavesOver files root, Reaches (parents files) leaf.name y := by
  have hnew := h.name_not_mem hfree
  have hne {leaf : Migration} (hleaf : leaf ∈ leavesOver files root) : leaf.name ≠ mig.name :=
    fun heq => hnew (heq ▸ List.mem_map_of_mem (mem_leavesOver.mp hleaf).1.1)
  rw [Reaches.head_iff]
  apply or_congr Iff.rfl
  constructor
  · intro ⟨z, hz, hr⟩
    obtain ⟨leaf, hleaf, rfl⟩ := List.mem_map.mp ((h.parents_new hnew z).mp hz)
    exact ⟨leaf, hleaf, (h.reaches_append (h.not_joined hfree) (hne hleaf)).mp hr⟩
  · intro ⟨leaf, hleaf, hr⟩
    have hz := (h.parents_new hnew leaf.name).mpr (List.mem_map_of_mem hleaf)
    exact ⟨leaf.name, hz, (h.reaches_append (h.not_joined hfree) (hne hleaf)).mpr hr⟩

theorem not_mem_leavesOver_append {m : Migration} (hm : m ∈ files) :
    m ∉ leavesOver (files ++ [mig]) root := by
  intro hleaf
  obtain ⟨⟨_, hjoined⟩, hroot⟩ := mem_leavesOver.mp hleaf
  rw [h.mem_joined_append, not_or] at hjoined
  rw [h.rootOf_append hm] at hroot
  exact hjoined.2 (List.mem_map_of_mem (mem_leavesOver.mpr ⟨⟨hm, hjoined.1⟩, hroot⟩))

theorem single_of_free (hn : (files.map (·.name)).Nodup) (hfree : NameFree files) :
    leavesOver (files ++ [mig]) root = [mig] := by
  have hnew := h.name_not_mem hfree
  have hleaf : mig.name ∉ joined (files ++ [mig]) := by
    rw [h.mem_joined_append, not_or]
    refine ⟨h.not_joined hfree, ?_⟩
    intro hmem
    obtain ⟨leaf, hleaf, hname⟩ := List.mem_map.mp hmem
    exact hnew (hname ▸ List.mem_map_of_mem (mem_leavesOver.mp hleaf).1.1)
  have hold : files.filter (fun m => decide (m.name ∉ joined (files ++ [mig])) &&
      decide (rootOf (files ++ [mig]) m = root)) = [] := by
    apply List.filter_eq_nil_iff.mpr
    intro m hm hkept
    rw [Bool.and_eq_true, decide_eq_true_eq, decide_eq_true_eq] at hkept
    exact h.not_mem_leavesOver_append hm
      (mem_leavesOver.mpr ⟨⟨List.mem_append_left _ hm, hkept.1⟩, hkept.2⟩)
  rw [leavesOver, leaves, List.filter_filter, List.filter_append]
  simp only [Bool.and_comm] at hold ⊢
  rw [hold]
  simp [hleaf, h.rootOf_new hn hnew]

/-- A chain that is resolved had the name free. -/
theorem free_of_branchResolved (hr : BranchResolved files mig root) : NameFree files := by
  have hmig : mig ∈ leavesOver (files ++ [mig]) root := by
    rw [hr.single]
    exact List.mem_singleton_self mig
  obtain ⟨⟨_, hnot⟩, _⟩ := mem_leavesOver.mp hmig
  rw [h.mem_joined_append, not_or] at hnot
  obtain ⟨hjoined, hleaves⟩ := hnot
  have hmention {m : Migration} (hm : m ∈ files) {n : String}
      (hmem : n ∈ m.prev.toList ++ m.replaces ++ mergedBranches files m) : n ≠ mig.name :=
    fun heq => hjoined (List.mem_flatMap.mpr ⟨m, hm, heq ▸ hmem⟩)
  -- the leaf that `prev` names is reached from the new file's name
  obtain ⟨head, hhead, hprev⟩ := h.head
  obtain ⟨⟨hmem, hleaf⟩, hroot⟩ := mem_leavesOver.mp hhead
  have hreach := (chainMembership_append head.name).mp
    (hr.whole head (List.mem_append_left _ hmem) ((h.rootOf_append hmem).trans hroot))
  intro m hm
  rw [← h.name]
  refine ⟨?_, fun hmem => hmention hm (by simp [hmem]) rfl, ?_⟩
  · -- an older file of that name would be found instead of the new one
    intro hname
    have hfound {n : String} : parents (files ++ [mig]) n = parents files n := by
      by_cases hn : n = mig.name
      · have hname' : n ∈ files.map (·.name) :=
          List.mem_map.mpr ⟨m, hm, hname.trans hn.symm⟩
        unfold parents
        rw [lookup_append_of_mem hname']
        cases hlookup : lookup Migration.name files n with
        | none => rfl
        | some c =>
          exact congrArg _ (mergedBranches_append h.links h.head (mem_of_lookup _ hlookup))
      · exact h.parents_append hn
    have hsame : parents (files ++ [mig]) = parents files := funext fun _ => hfound
    rw [hsame] at hreach
    rcases joined_of_reaches hreach with heq | hin
    · exact hleaves (List.mem_map.mpr ⟨head, hhead, heq⟩)
    · exact hleaf hin
  · intro hmerges
    have hne : m.merges ≠ [] := List.ne_nil_of_mem hmerges
    exact hmention hm (by simp [mergedBranches, hne, hmerges]) rfl

end JoinsLeaves

/-- The merge file resolves the branch of its root exactly when its name is free and every file of
the history is an ancestor of one of the leaves it joins. -/
theorem makeMergeMigration_resolves_iff {dir : String} {files : List Migration} {mig : Migration}
    (hn : (files.map (·.name)).Nodup) (hmerge : makeMergeMigration dir files = .ok (some mig)) :
    BranchResolved files mig (mergedRoot files) ↔
      NameFree files ∧ Connected files (mergedRoot files) := by
  have h := joinsLeaves_of_makeMergeMigration hmerge
  constructor
  · intro hr
    have hfree := h.free_of_branchResolved hr
    refine ⟨hfree, ?_⟩
    intro m hm hroot
    have hmem := hr.whole m (List.mem_append_left _ hm) ((h.rootOf_append hm).trans hroot)
    rcases (h.reaches_new hfree m.name).mp ((chainMembership_append m.name).mp hmem) with heq | hex
    · exact absurd (heq ▸ List.mem_map_of_mem hm) (h.name_not_mem hfree)
    · exact hex
  · intro ⟨hfree, hconnected⟩
    have hsingle := h.single_of_free hn hfree
    refine ⟨hsingle, ?_, ?_⟩
    · intro m hm hroot
      rw [chainMembership_append, h.reaches_new hfree]
      rcases List.mem_append.mp hm with hm | hm
      · rw [h.rootOf_append hm] at hroot
        exact .inr (hconnected m hm hroot)
      · exact .inl (congrArg Migration.name (List.mem_singleton.mp hm))
    · intro branch hbranch m hm hroot
      obtain ⟨other, rfl, hlen⟩ := mem_branchedLeaves hbranch
      have hother : m ∈ leavesOver (files ++ [mig]) other :=
        (List.perm_insertionSort _ _).mem_iff.mp hm
      obtain rfl : other = mergedRoot files := (mem_leavesOver.mp hother).2.symm.trans hroot
      rw [hsingle] at hlen
      simp at hlen

private def filed (name : String) (prev : Option String) (replaces : List String) : Migration where
  name
  prev
  atomic := true
  replaces
  merges := []
  snapshot := SchemaSnapshot.empty
  forward := [.data ⟨"SELECT 1", some "SELECT 1", true⟩]

/-- `0002_auto` squashed a branched chain whose merge file was pending, and a colleague's `0002_tags`
branches off again. -/
private def squashedBranch : List Migration :=
  [filed "0001_initial" none [],
    filed "0002_auto" (some "0001_initial") ["0002_a", "0002_b", "0003_merge"],
    filed "0002_tags" (some "0001_initial") []]

private def squashedMerge : Migration where
  name := "0003_merge"
  prev := some "0002_tags"
  atomic := true
  replaces := []
  merges := ["0002_auto"]
  snapshot := SchemaSnapshot.empty
  forward := []

/-- The merge file takes the name of the one the squash replaces, so it is no leaf. -/
theorem makeMergeMigration_reuses_name :
    (squashedBranch.map (·.name)).Nodup ∧
      (∀ m ∈ squashedBranch, (ancestry squashedBranch m).getLast?.bind (parent squashedBranch) =
        none) ∧
      makeMergeMigration "migrations" squashedBranch = .ok (some squashedMerge) ∧
      ¬ BranchResolved squashedBranch squashedMerge (mergedRoot squashedBranch) := by
  refine ⟨by decide, by decide, by decide, ?_⟩
  intro hr
  have hnone : leavesOver (squashedBranch ++ [squashedMerge]) (mergedRoot squashedBranch) = [] := by
    decide
  exact absurd (hnone.symm.trans hr.single) (by simp)

private def plainBranch : List Migration :=
  [filed "0001_initial" none [], filed "0002_a" (some "0001_initial") [],
    filed "0002_b" (some "0001_initial") []]

private def plainMerge : Migration where
  name := "0003_merge"
  prev := some "0002_b"
  atomic := true
  replaces := []
  merges := ["0002_a"]
  snapshot := SchemaSnapshot.empty
  forward := []

theorem makeMergeMigration_resolves_branch :
    (plainBranch.map (·.name)).Nodup ∧
      makeMergeMigration "migrations" plainBranch = .ok (some plainMerge) ∧
      (BranchResolved plainBranch plainMerge (mergedRoot plainBranch) ↔
        NameFree plainBranch ∧ Connected plainBranch (mergedRoot plainBranch)) := by
  have hn : (plainBranch.map (·.name)).Nodup := by decide
  have hmerge : makeMergeMigration "migrations" plainBranch = .ok (some plainMerge) := by
    decide
  exact ⟨hn, hmerge, makeMergeMigration_resolves_iff hn hmerge⟩

end Rustango.Migrate
