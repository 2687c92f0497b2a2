import Mathlib
import Rustango.Migrate.DiffJunction

/-!
# The columns of a junction

A junction's table has two physical columns, each of which points at a table. The renames of
`m2m_renames` run over them: no step misses its column or meets a name in use, and each column ends
under the name that the new junction has for it.
-/

namespace Rustango.Migrate

open Rustango.Slots

/-- The physical columns of a junction, each the table it points at and its name. -/
abbrev JunctionColumns := List (String × String)

def M2MTableSnapshot.columns (m : M2MTableSnapshot) : JunctionColumns :=
  [(m.srcTable, m.srcCol), (m.dstTable, m.dstCol)]

/-- A rename on `through`: the old name is in use and the new one is not. The column keeps its place
and the table it points at. -/
def renameJunctionColumn (through : String) (cols : JunctionColumns) : SchemaChange →
    Option JunctionColumns
  | .renameColumn table old new =>
    if table = through ∧ old ∈ cols.map Prod.snd ∧ new ∉ cols.map Prod.snd then
      some (cols.map fun c => (c.1, if c.2 = old then new else c.2))
    else none
  | _ => none

private theorem utf8ByteSize_ofList (cs : List Char) :
    (String.ofList cs).utf8ByteSize = (cs.map Char.utf8Size).sum := by
  induction cs using List.reverseRecOn with
  | nil => rfl
  | append_singleton cs c ih =>
    have hpush : String.ofList (cs ++ [c]) = (String.ofList cs).push c := by
      apply String.toList_inj.mp
      simp
    rw [hpush, String.utf8ByteSize_push, ih]
    simp

private theorem utf8Prefix_size (bytes : Nat) (cs : List Char) :
    ((utf8Prefix bytes cs).map Char.utf8Size).sum ≤ bytes := by
  induction cs generalizing bytes with
  | nil => exact Nat.zero_le bytes
  | cons c cs ih =>
    unfold utf8Prefix
    split
    · have hrest := ih (bytes - c.utf8Size)
      simp only [List.map_cons, List.sum_cons]
      omega
    · exact Nat.zero_le bytes

private theorem swapName_size (a : String) {i : Nat} (hi : i < 10) : (swapName a i).utf8ByteSize ≤ 63 := by
  have hbase : (String.ofList (utf8Prefix 56 a.toList)).utf8ByteSize ≤ 56 := by
    rw [utf8ByteSize_ofList]
    exact utf8Prefix_size 56 a.toList
  have hdigit : ∀ j < 10, (toString j).utf8ByteSize = 1 := by decide
  have hlabel : "_swp".utf8ByteSize = 4 := by decide
  have hone := hdigit i hi
  simp only [swapName, String.utf8ByteSize_append]
  omega

private theorem swapSpare_size (a b : String) : (swapSpare a b).utf8ByteSize ≤ 63 := by
  unfold swapSpare
  cases hf : [swapName a 0, swapName a 1, swapName a 2].find? fun s => s ≠ a && s ≠ b with
  | none => exact Nat.zero_le 63
  | some s =>
    have hmem := List.mem_of_find?_eq_some hf
    simp only [List.mem_cons, List.not_mem_nil, or_false] at hmem
    rcases hmem with rfl | rfl | rfl
    · exact swapName_size a (by decide)
    · exact swapName_size a (by decide)
    · exact swapName_size a (by decide)

section Rename
variable {through A B a b c d : String}

variable (through A B) in
private theorem renameJunction_first (hac : a ≠ c) (hba : b ≠ a) (hbc : b ≠ c) :
    renameJunctionColumn through [(A, a), (B, c)] (.renameColumn through a b) =
      some [(A, b), (B, c)] := by
  simp [renameJunctionColumn, hba, hbc, hac.symm]

variable (through A B) in
private theorem renameJunction_second (hac : a ≠ c) (hda : d ≠ a) (hdc : d ≠ c) :
    renameJunctionColumn through [(A, a), (B, c)] (.renameColumn through c d) =
      some [(A, a), (B, d)] := by
  simp [renameJunctionColumn, hda, hdc, hac]

private theorem run_renameJunction (hac : a ≠ c) (hbd : b ≠ d) :
    run (renameJunctionColumn through) [(A, a), (B, c)] (renamePairs through [(a, b), (c, d)]) =
      some [(A, b), (B, d)] := by
  by_cases hab : a = b
  · subst hab
    by_cases hcd : c = d
    · subst hcd
      simp [renamePairs]
    · have hstep := renameJunction_second through A B hac hbd.symm
        (Ne.symm hcd)
      simpa [renamePairs, hcd, run_singleton] using hstep
  · by_cases hcd : c = d
    · subst hcd
      have hstep := renameJunction_first through A B hac (Ne.symm hab) hbd
      simpa [renamePairs, hab, run_singleton] using hstep
    · by_cases hbc : b = c
      · subst hbc
        by_cases hda : d = a
        · subst hda
          -- The two columns trade names: the first steps aside.
          obtain ⟨hsd, hsb⟩ := swapSpare_ne d b
          have h1 := renameJunction_first through A B hac hsd hsb
          have h2 := renameJunction_second through A B hsb hsd.symm hac
          have h3 := renameJunction_first through A B hsd hsb.symm hbd
          have hrun := run_cons_of h1 (run_cons_of h2 (run_cons_of h3 (run_nil _ _)))
          simpa [renamePairs, hac, hac.symm] using hrun
        · have h1 := renameJunction_second through A B hac hda
            (Ne.symm hcd)
          have h2 := renameJunction_first through A B (Ne.symm hda)
            hac.symm hbd
          have hrun := run_cons_of h1 (run_cons_of h2 (run_nil _ _))
          simpa [renamePairs, hac, hcd, hda] using hrun
      · have h1 := renameJunction_first through A B hac (Ne.symm hab) hbc
        have h2 := renameJunction_second through A B hbc hbd.symm
          (Ne.symm hcd)
        have hrun := run_cons_of h1 (run_cons_of h2 (run_nil _ _))
        simpa [renamePairs, hab, hcd, hbc] using hrun

private theorem renamePairs_target {table old new : String}
    (h : .renameColumn table old new ∈ renamePairs through [(a, b), (c, d)]) :
    new = b ∨ new = d ∨ new.utf8ByteSize ≤ 63 := by
  have hnew : ∀ {x y : String}, (x, y) ∈ [(a, b), (c, d)].filter (fun p => p.1 ≠ p.2) →
      y = b ∨ y = d := by
    intro x y hxy
    have hmem := (List.mem_filter.mp hxy).1
    simp only [List.mem_cons, Prod.mk.injEq, List.not_mem_nil, or_false] at hmem
    exact hmem.imp And.right And.right
  unfold renamePairs at h
  split at h
  · rename_i x y hpairs
    have hy := hnew (x := x) (y := y) (by rw [hpairs]; exact List.mem_singleton_self _)
    simp only [List.mem_singleton, SchemaChange.renameColumn.injEq] at h
    rw [h.2.2]
    exact hy.imp_right .inl
  · rename_i x y z w hpairs
    have hy := hnew (x := x) (y := y) (by rw [hpairs]; simp)
    have hw := hnew (x := z) (y := w) (by rw [hpairs]; simp)
    have hspare := swapSpare_size x y
    split_ifs at h <;>
      simp only [List.mem_cons, List.not_mem_nil, or_false, SchemaChange.renameColumn.injEq] at h
    · rcases h with ⟨-, -, rfl⟩ | ⟨-, -, rfl⟩ | ⟨-, -, rfl⟩
      · exact .inr (.inr hspare)
      · exact hw.imp_right .inl
      · exact hy.imp_right .inl
    · rcases h with ⟨-, -, rfl⟩ | ⟨-, -, rfl⟩
      · exact hw.imp_right .inl
      · exact hy.imp_right .inl
    · rcases h with ⟨-, -, rfl⟩ | ⟨-, -, rfl⟩
      · exact hy.imp_right .inl
      · exact hw.imp_right .inl
  · cases h

end Rename

/-- Columns that end as those of the new junction, each over the table it pointed at. -/
def EndsAs (old new : M2MTableSnapshot) (ops : List SchemaChange) : Prop :=
  ∃ cols, run (renameJunctionColumn old.through) old.columns ops = some cols ∧
    cols.map Prod.fst = old.columns.map Prod.fst ∧ cols.Perm new.columns

private theorem endsAs_selfRename {old new : M2MTableSnapshot} (hold : old.srcCol ≠ old.dstCol)
    (hself : old.srcTable = old.dstTable) (hself' : new.srcTable = new.dstTable)
    (htable : old.srcTable = new.srcTable) {gone came : String}
    (hgone : [old.srcCol, old.dstCol].find? (· ∉ [new.srcCol, new.dstCol]) = some gone)
    (hcame : [new.srcCol, new.dstCol].find? (· ∉ [old.srcCol, old.dstCol]) = some came)
    (hkept : ([old.srcCol, old.dstCol].filter (· ∈ [new.srcCol, new.dstCol])).length = 1) :
    EndsAs old new [.renameColumn old.through gone came] := by
  have hcameNot : came ≠ old.srcCol ∧ came ≠ old.dstCol := by
    have hnot := List.find?_some hcame
    simpa using hnot
  have hcameIn : came = new.srcCol ∨ came = new.dstCol := by
    simpa using List.mem_of_find?_eq_some hcame
  have hdst : old.dstTable = new.dstTable := by rw [← hself, htable, hself']
  rcases gone_of_kept hgone hkept with ⟨hs, rfl⟩ | ⟨hd, rfl⟩
  · refine ⟨[(old.srcTable, old.srcCol), (old.dstTable, came)], ?_, rfl, ?_⟩
    · rw [run_singleton]
      exact renameJunction_second _ _ _ hold hcameNot.1 hcameNot.2
    · have hk : old.srcCol = new.srcCol ∨ old.srcCol = new.dstCol := by simpa using hs
      simp only [M2MTableSnapshot.columns]
      rcases hcameIn with rfl | rfl
      · rw [hk.resolve_left hcameNot.1.symm, hdst, htable, ← hself']
        exact List.Perm.swap ..
      · rw [hk.resolve_right hcameNot.1.symm, hdst, htable]
  · refine ⟨[(old.srcTable, came), (old.dstTable, old.dstCol)], ?_, rfl, ?_⟩
    · rw [run_singleton]
      exact renameJunction_first _ _ _ hold hcameNot.1 hcameNot.2
    · have hk : old.dstCol = new.srcCol ∨ old.dstCol = new.dstCol := by simpa using hd
      simp only [M2MTableSnapshot.columns]
      rcases hcameIn with rfl | rfl
      · rw [hk.resolve_left hcameNot.2.symm, hdst, htable]
      · rw [hk.resolve_right hcameNot.2.symm, hdst, htable, ← hself']
        exact List.Perm.swap ..

/-- No rename of a junction meets a missing or a taken name, and they end in the new junction. -/
theorem m2mRenames_exact (old new : M2MTableSnapshot) (ops : List SchemaChange)
    (hr : m2mRenames old new = some ops) (hold : old.srcCol ≠ old.dstCol)
    (hnew : new.srcCol ≠ new.dstCol) :
    EndsAs old new ops ∧ ∀ table was now, .renameColumn table was now ∈ ops →
      now = new.srcCol ∨ now = new.dstCol ∨ now.utf8ByteSize ≤ 63 := by
  unfold m2mRenames at hr
  split at hr
  · rename_i hself
    dsimp only at hr
    simp only [isSelfRef, Bool.and_eq_true, decide_eq_true_eq] at hself
    split at hr
    · rename_i gone came hgone hcame
      split at hr
      · rename_i hkept
        obtain rfl := Option.some.inj hr
        refine ⟨endsAs_selfRename hold hself.1.1 hself.1.2 hself.2 hgone hcame hkept, ?_⟩
        intro table was now hmem
        simp only [List.mem_singleton, SchemaChange.renameColumn.injEq] at hmem
        have hcameIn : came = new.srcCol ∨ came = new.dstCol := by
          simpa using List.mem_of_find?_eq_some hcame
        rw [hmem.2.2]
        exact hcameIn.imp_right .inl
      · cases hr
    · cases hr
  · simp only at hr
    by_cases hdirect : old.srcTable = new.srcTable ∧ old.dstTable = new.dstTable
    · simp only [hdirect, and_self, if_true, Option.some_or, Option.map_some] at hr
      obtain rfl := Option.some.inj hr
      refine ⟨⟨_, run_renameJunction hold hnew, rfl, ?_⟩, ?_⟩
      · rw [hdirect.1, hdirect.2]
        exact List.Perm.refl _
      · intro table was now hmem
        exact renamePairs_target hmem
    · by_cases hmirror : old.srcTable = new.dstTable ∧ old.dstTable = new.srcTable
      · rw [if_neg hdirect, if_pos hmirror] at hr
        simp only [Option.none_or, Option.map_some] at hr
        obtain rfl := Option.some.inj hr
        refine ⟨⟨_, run_renameJunction hold hnew.symm, rfl, ?_⟩, ?_⟩
        · rw [hmirror.1, hmirror.2]
          exact List.Perm.swap ..
        · intro table was now hmem
          exact or_left_comm.mp (renamePairs_target hmem)
      · simp [hdirect, hmirror] at hr

private def tagged : M2MTableSnapshot := ⟨"post_tags", "posts", "left_id", "tags", "right_id"⟩

private def taggedSwapped : M2MTableSnapshot := ⟨"post_tags", "posts", "right_id", "tags", "left_id"⟩

/-- Two columns that trade names go through the spare one, and the rows keep their sides. -/
theorem m2mRenames_swap : ∃ ops, m2mRenames tagged taggedSwapped = some ops ∧
    EndsAs tagged taggedSwapped ops ∧ ∀ table was now, .renameColumn table was now ∈ ops →
      now = "right_id" ∨ now = "left_id" ∨ now.utf8ByteSize ≤ 63 :=
  ⟨_, rfl, m2mRenames_exact tagged taggedSwapped _ rfl (by decide) (by decide)⟩

end Rustango.Migrate
