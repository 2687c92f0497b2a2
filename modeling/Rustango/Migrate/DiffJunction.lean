import Rustango.Migrate.Diff
import Rustango.Migrate.Schema

/-!
# Junction renames

The renames that `m2m_renames` writes take a junction from its old columns to its new ones, a swap
included, and no step of them meets a name that is taken.
-/

namespace Rustango.Migrate

open Function hiding swap
open Rustango.Keyed Rustango.Slots

private theorem swapName_injective (a : String) {i j : Nat} (hij : toString i ≠ toString j) :
    swapName a i ≠ swapName a j := by
  intro h
  apply hij
  have hl := congrArg String.toList h
  simp only [swapName, String.toList_append, List.append_cancel_left_eq] at hl
  exact String.toList_inj.mp hl

/-- Two names cannot block three candidates. -/
theorem swapSpare_ne (a b : String) : swapSpare a b ≠ a ∧ swapSpare a b ≠ b := by
  have h01 := swapName_injective a (i := 0) (j := 1) (by decide)
  have h02 := swapName_injective a (i := 0) (j := 2) (by decide)
  have h12 := swapName_injective a (i := 1) (j := 2) (by decide)
  unfold swapSpare
  cases hf : [swapName a 0, swapName a 1, swapName a 2].find? fun s => s ≠ a && s ≠ b with
  | some s =>
    have hs := List.find?_some hf
    simpa using hs
  | none =>
    exfalso
    rw [List.find?_eq_none] at hf
    have h0 := hf (swapName a 0) (by simp)
    have h1 := hf (swapName a 1) (by simp)
    have h2 := hf (swapName a 2) (by simp)
    simp only [Bool.and_eq_true, decide_eq_true_eq, not_and_or, not_not] at h0 h1 h2
    rcases h0 with h0 | h0 <;> rcases h1 with h1 | h1 <;> rcases h2 with h2 | h2 <;> simp_all

section Rename
variable {current : SchemaSnapshot} {ts : String → Option Table} {js : String → Option Junction}
variable {is : String → Option IndexSnapshot} {cs : String → Option CheckSnapshot}
variable {xs : String → Option ExclusionSnapshot} {through A B a b c d : String}

private theorem exec_renameColumn {j : Junction} {old new : String} (hj : js through = some j)
    (hold : old ∈ junctionColumns j) (hnew : new ∉ junctionColumns j) :
    exec current ⟨ts, js, is, cs, xs⟩ (.renameColumn through old new) =
      some ⟨ts, update js through (some (moveEnds old new j)), is, cs, xs⟩ := by
  change Schema.renameColumn _ _ _ _ = _
  simp [Schema.renameColumn, hj, hold, hnew]

private theorem exec_renameFirst (hj : js through = some s((A, a), (B, c))) (hac : a ≠ c)
    (hba : b ≠ a) (hbc : b ≠ c) :
    exec current ⟨ts, js, is, cs, xs⟩ (.renameColumn through a b) =
      some ⟨ts, update js through (some s((A, b), (B, c))), is, cs, xs⟩ := by
  rw [exec_renameColumn hj]
  · simp [moveEnds, swap, Ne.symm hac]
  · simp [junctionColumns]
  · simp [junctionColumns, hba, hbc]

private theorem exec_renameSecond (hj : js through = some s((A, a), (B, c))) (hac : a ≠ c)
    (hda : d ≠ a) (hdc : d ≠ c) :
    exec current ⟨ts, js, is, cs, xs⟩ (.renameColumn through c d) =
      some ⟨ts, update js through (some s((A, a), (B, d))), is, cs, xs⟩ := by
  rw [exec_renameColumn hj]
  · simp [moveEnds, swap, hac]
  · simp [junctionColumns]
  · simp [junctionColumns, hda, hdc]

/-- Both ends move from their old names to their new ones, whichever collide. -/
private theorem run_renamePairs (hj : js through = some s((A, a), (B, c))) (hac : a ≠ c) (hbd : b ≠ d)
    (hne : a ≠ b ∨ c ≠ d) :
    run (exec current) ⟨ts, js, is, cs, xs⟩ (renamePairs through [(a, b), (c, d)]) =
      some ⟨ts, update js through (some s((A, b), (B, d))), is, cs, xs⟩ := by
  let st (j : Junction) : Schema := ⟨ts, update js through (some j), is, cs, xs⟩
  have hst : (⟨ts, js, is, cs, xs⟩ : Schema) = st s((A, a), (B, c)) := by
    simp only [st, ← hj, update_eq_self]
  have hfirst : ∀ {x y z : String}, x ≠ z → y ≠ x → y ≠ z → exec current (st s((A, x), (B, z)))
      (.renameColumn through x y) = some (st s((A, y), (B, z))) := by
    intro x y z hxz hyx hyz
    rw [exec_renameFirst (update_self ..) hxz hyx hyz, update_idem]
  have hsecond : ∀ {x y z : String}, x ≠ y → z ≠ x → z ≠ y → exec current (st s((A, x), (B, y)))
      (.renameColumn through y z) = some (st s((A, x), (B, z))) := by
    intro x y z hxy hzx hzy
    rw [exec_renameSecond (update_self ..) hxy hzx hzy, update_idem]
  rw [hst]
  by_cases hab : a = b
  · have hcd : c ≠ d := hne.resolve_left (not_not_intro hab)
    subst hab
    simpa [renamePairs, hcd, run_singleton] using hsecond hac (Ne.symm hbd) (Ne.symm hcd)
  · by_cases hcd : c = d
    · subst hcd
      simpa [renamePairs, hab, run_singleton] using hfirst hac (Ne.symm hab) hbd
    · by_cases hbc : b = c
      · subst hbc
        by_cases hda : d = a
        · subst hda
          -- The two columns trade names: the first steps aside.
          obtain ⟨hsd, hsb⟩ := swapSpare_ne d b
          have h1 := hfirst hac hsd hsb
          have h2 := hsecond hsb (Ne.symm hsd) hac
          have h3 := hfirst hsd (Ne.symm hsb) hbd
          have hrun := run_cons_of h1 (run_cons_of h2 (run_singleton (exec current) _ _ ▸ h3))
          simpa [renamePairs, hac, Ne.symm hac] using hrun
        · have h1 := hsecond hac hda (Ne.symm hcd)
          have h2 := hfirst (Ne.symm hda) (Ne.symm hac) hbd
          have hrun := run_cons_of h1 (run_singleton (exec current) _ _ ▸ h2)
          simpa [renamePairs, hac, hcd, hda] using hrun
      · have h1 := hfirst hac (Ne.symm hab) hbc
        have h2 := hsecond hbc (Ne.symm hbd) (Ne.symm hcd)
        have hrun := run_cons_of h1 (run_singleton (exec current) _ _ ▸ h2)
        simpa [renamePairs, hab, hcd, hbc] using hrun

theorem gone_of_kept {a b gone : String} {news : List String}
    (hgone : [a, b].find? (· ∉ news) = some gone) (hkept : ([a, b].filter (· ∈ news)).length = 1) :
    (a ∈ news ∧ gone = b) ∨ (b ∈ news ∧ gone = a) := by
  by_cases ha : a ∈ news <;> by_cases hb : b ∈ news
  · simp [ha, hb] at hkept
  · left
    simpa [ha, hb, eq_comm] using hgone
  · right
    simpa [ha, hb, eq_comm] using hgone
  · simp [ha, hb] at hkept

private theorem run_selfRename (mt c : M2MTableSnapshot) (hj : js mt.through = some mt.ends)
    (hmt : mt.srcCol ≠ mt.dstCol) (hself : mt.srcTable = mt.dstTable) (hself' : c.srcTable = c.dstTable)
    (htable : mt.srcTable = c.srcTable) {gone came : String}
    (hgone : [mt.srcCol, mt.dstCol].find? (· ∉ [c.srcCol, c.dstCol]) = some gone)
    (hcame : [c.srcCol, c.dstCol].find? (· ∉ [mt.srcCol, mt.dstCol]) = some came)
    (hkept : ([mt.srcCol, mt.dstCol].filter (· ∈ [c.srcCol, c.dstCol])).length = 1) :
    run (exec current) ⟨ts, js, is, cs, xs⟩ [.renameColumn mt.through gone came] =
      some ⟨ts, update js mt.through (some c.ends), is, cs, xs⟩ := by
  have hends : mt.ends = s((c.srcTable, mt.srcCol), (c.srcTable, mt.dstCol)) := by
    rw [M2MTableSnapshot.ends, ← htable, ← hself]
  have hends' : c.ends = s((c.srcTable, c.srcCol), (c.srcTable, c.dstCol)) := by
    rw [M2MTableSnapshot.ends, ← hself']
  have hcameNot : came ≠ mt.srcCol ∧ came ≠ mt.dstCol := by
    have := List.find?_some hcame
    simpa using this
  have hcameIn : came = c.srcCol ∨ came = c.dstCol := by
    simpa using List.mem_of_find?_eq_some hcame
  rw [run_singleton]
  rw [hends] at hj
  rcases gone_of_kept hgone hkept with ⟨hs, rfl⟩ | ⟨hd, rfl⟩
  · rw [exec_renameSecond hj hmt hcameNot.1 hcameNot.2, hends']
    have hk : mt.srcCol = c.srcCol ∨ mt.srcCol = c.dstCol := by simpa using hs
    rcases hcameIn with rfl | rfl
    · rw [hk.resolve_left (Ne.symm hcameNot.1), Sym2.eq_swap]
    · rw [hk.resolve_right (Ne.symm hcameNot.1)]
  · rw [exec_renameFirst hj hmt hcameNot.1 hcameNot.2, hends']
    have hk : mt.dstCol = c.srcCol ∨ mt.dstCol = c.dstCol := by simpa using hd
    rcases hcameIn with rfl | rfl
    · rw [hk.resolve_left (Ne.symm hcameNot.2)]
    · rw [hk.resolve_right (Ne.symm hcameNot.2), Sym2.eq_swap]

/-- The renames of a junction end in the junction of the current snapshot. -/
theorem run_m2mRenames {mt c : M2MTableSnapshot} {renames : List SchemaChange}
    (hr : m2mRenames mt c = some renames) (hthrough : c.through = mt.through)
    (hne : (c == mt) = false) (hmt : mt.srcCol ≠ mt.dstCol) (hc : c.srcCol ≠ c.dstCol)
    (hj : js mt.through = some mt.ends) :
    run (exec current) ⟨ts, js, is, cs, xs⟩ renames =
      some ⟨ts, update js mt.through (some c.ends), is, cs, xs⟩ := by
  have hnot : ¬ (c = mt ∨ c = ⟨mt.through, mt.dstTable, mt.dstCol, mt.srcTable, mt.srcCol⟩) := by
    rw [← M2MTableSnapshot.beq_iff, hne]
    exact Bool.false_ne_true
  obtain ⟨through, cst, csc, cdt, cdc⟩ := c
  obtain ⟨through', pst, psc, pdt, pdc⟩ := mt
  simp only at hthrough hmt hc hj
  subst hthrough
  unfold m2mRenames at hr
  split at hr
  · rename_i hself
    dsimp only at hr
    simp only [isSelfRef, Bool.and_eq_true, decide_eq_true_eq] at hself
    split at hr
    · rename_i gone came hgone hcame
      split at hr
      · rename_i hkept
        obtain rfl := Option.some.inj hr
        exact run_selfRename ⟨_, _, _, _, _⟩ ⟨_, _, _, _, _⟩ hj hmt hself.1.1 hself.1.2 hself.2 hgone hcame hkept
      · cases hr
    · cases hr
  · simp only at hr
    by_cases hdirect : pst = cst ∧ pdt = cdt
    · obtain ⟨rfl, rfl⟩ := hdirect
      simp only [and_self, if_true, Option.some_or, Option.map_some] at hr
      obtain rfl := Option.some.inj hr
      apply run_renamePairs hj hmt hc
      by_contra hsame
      push Not at hsame
      exact hnot (Or.inl (by simp [← hsame.1, ← hsame.2]))
    · by_cases hmirror : pst = cdt ∧ pdt = cst
      · obtain ⟨rfl, rfl⟩ := hmirror
        rw [if_neg hdirect] at hr
        simp only [and_self, if_true, Option.none_or, Option.map_some] at hr
        obtain rfl := Option.some.inj hr
        rw [M2MTableSnapshot.ends, Sym2.eq_swap]
        apply run_renamePairs hj hmt (Ne.symm hc)
        by_contra hsame
        push Not at hsame
        exact hnot (Or.inr (by simp [← hsame.1, ← hsame.2]))
      · simp [hdirect, hmirror] at hr

end Rename

end Rustango.Migrate
