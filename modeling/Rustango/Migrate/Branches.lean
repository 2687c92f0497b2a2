import Rustango.Lib.Worklist
import Rustango.Migrate.Files
import Rustango.Migrate.Merge

/-!
# Branched chains

Two people who run `makemigrations` on their own branches leave two files with one parent. The walks
over a chain that has branched, and the file that joins the branches again.
-/

namespace Rustango.Migrate

open Rustango.Keyed Rustango.Numeral Rustango.Outcome Rustango.Worklist

section Walks
variable (chain : List Migration)

/-- A merge file written before `merges` existed. -/
def isLegacyMerge (m : Migration) : Bool :=
  m.forward.isEmpty && "_merge".toList.isSuffixOf m.name.toList && m.replaces.isEmpty

/-- The branch leaves `m` merges. A merge file without `merges` joined every sibling of its `prev`
named before it. -/
def mergedBranches (m : Migration) : List String :=
  if m.merges ≠ [] then m.merges
  else
    match (parent chain m).filter fun _ => isLegacyMerge m with
    | none => []
    | some head =>
      (chain.filter fun c => c.name ≠ head.name ∧ c.name < m.name ∧ c.prev = head.prev).map (·.name)

/-- `m` and the parents before it, up to one whose name is in `seen`. -/
def walkBack : Nat → List String → Migration → List Migration
  | 0, _, m => [m]
  | fuel + 1, seen, m =>
    match parent chain m with
    | none => [m]
    | some p => if p.name ∈ seen then [m] else m :: walkBack fuel (p.name :: seen) p

/-- `m` and its `prev` ancestors, newest first. -/
def ancestry (m : Migration) : List Migration := walkBack chain chain.length [m.name] m

/-- Every parent of the file called `name`: its `prev` and the branches it merges. -/
def parents (name : String) : List String :=
  match lookup Migration.name chain name with
  | none => []
  | some m => m.prev.toList ++ mergedBranches chain m

/-- Names reachable from `name` through every parent. -/
def reachable (name : String) : List String := reach (parents chain) (chain.map (·.name)) name

/-- Names reachable from the last file. -/
def chainMembership : List String :=
  match chain.getLast? with
  | none => []
  | some m => reachable chain m.name

/-- The names some `prev`, `replaces` or merged branch mentions. -/
def joined : List String :=
  chain.flatMap fun m => m.prev.toList ++ m.replaces ++ mergedBranches chain m

def leaves : List Migration := chain.filter fun m => m.name ∉ joined chain

/-- The name of the oldest ancestor. -/
def rootOf (m : Migration) : String := (ancestry chain m).getLast?.elim "" (·.name)

/-- The leaves over one root. -/
def leavesOver (root : String) : List Migration :=
  (leaves chain).filter fun m => rootOf chain m = root

/-- Leaves that branch from one history, grouped by root in name order, each group sorted. -/
def branchedLeaves : List (List Migration) :=
  let roots := ((leaves chain).map (rootOf chain)).dedup.insertionSort (· ≤ ·)
  ((roots.map (leavesOver chain)).filter fun g => 1 < g.length).map
    (·.insertionSort (·.name ≤ ·.name))

end Walks

/-- Refuses to diff a branched chain, whose last file holds one branch only. -/
def refuseBranched (chain : List Migration) : Except MigrateError Unit :=
  match branchedLeaves chain with
  | [] => .ok ()
  | branch :: _ =>
    .error (.validation ("makemigrations: the chain has branched (" ++
      ", ".intercalate (branch.map (·.name)) ++ "); run `makemigrations --merge` first"))

/-- The highest number a file is called by. -/
def highestIndex (prior : List Migration) : Option UInt32 :=
  (prior.filterMap fun m => extractIndex m.name).max?

/-- One after `last`; a chain without numbers starts at 1. The counter wraps. -/
def nextIndex (last : Option UInt32) : UInt32 := last.elim 1 (· + 1)

/-- The newest migration every path goes through. -/
def newestShared : List (List Migration) → Option Migration
  | [] => none
  | path :: paths => path.find? fun a => paths.all fun p => p.any fun m => m.name = a.name

/-- `leaf`'s branch joined into `snapshot`. -/
def joinBranch (chain : List Migration) (base : SchemaSnapshot) (head : Migration)
    (snapshot : SchemaSnapshot) (leaf : Migration) : Except MigrateError SchemaSnapshot :=
  match mergeBranch snapshot base (effectiveSnapshot chain leaf) with
  | .ok joined => .ok joined
  | .error conflicts =>
    .error (.validation ("makemigrations --merge: `" ++ head.name ++ "` and `" ++ leaf.name ++
      "` both changed: " ++ "; ".intercalate conflicts ++
      ". Reconcile the branches by hand, then merge again"))

/-- The file that joins the leaves of one root. -/
def mergeLeaves (prior branch : List Migration) : Except MigrateError (Option Migration) := do
  let base := (newestShared (branch.map (ancestry prior))).elim SchemaSnapshot.empty
    (effectiveSnapshot prior)
  match branch.getLast? with
  | none => .ok none
  | some head =>
    let others := branch.dropLast
    let snapshot ← others.foldlM (joinBranch prior base head) (effectiveSnapshot prior head)
    .ok <| some
      { name := numbered (nextIndex (highestIndex prior)) "merge"
        prev := some head.name
        atomic := true
        replaces := []
        merges := others.map (·.name)
        snapshot
        forward := []
        scope := head.scope }

/-- The merge file `makemigrations --merge` writes into `dir`, which holds `files`. -/
def makeMergeMigration (dir : String) (files : List Migration) :
    Except MigrateError (Option Migration) := do
  let prior ← listDir dir files
  if prior = [] then
    .error (.validation
      "makemigrations --merge: no migrations in directory — nothing to merge")
  else
    match branchedLeaves prior with
    | branch :: _ => mergeLeaves prior branch
    | [] =>
      let heads := (leaves prior).map (·.name)
      if heads.length < 2 then .ok none
      else .error (.validation ("makemigrations --merge: leaves don't share a common parent — " ++
        "can't auto-reconcile. Leaves: " ++ ", ".intercalate heads))

end Rustango.Migrate
