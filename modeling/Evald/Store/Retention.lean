import Evald.Store.Cold

/-! # Retention and the sweep of unreferenced files

Retention drops whole blocks, index first; the sweep unlinks files the index does
not name once they are old enough.  Neither changes a file that stays.
-/

namespace Evald.Store

open Evald.Lib

/-- The outcome of a retention sweep. -/
structure ReclaimReport where
  cutoffUnixNano : Nat
  blocksDropped : Nat
  blocksKept : Nat
  oldestKeptUnixNano : Option Nat
  dryRun : Bool
  deriving DecidableEq, Repr

/-- Drop every block whose newest span predates the cutoff. -/
def reclaimBefore (cutoff : Nat) (dryRun : Bool) (cold : ColdState) : ColdState × ReclaimReport :=
  let scan := cold.index.blocksWithMaxStart
  let dropPaths := (scan.filter (fun b => b.2 < cutoff)).map Prod.fst
  let kept := (scan.filter (fun b => ¬ b.2 < cutoff)).map Prod.snd
  let report : ReclaimReport :=
    { cutoffUnixNano := cutoff
      blocksDropped := dropPaths.length
      blocksKept := kept.length
      oldestKeptUnixNano := kept.min?
      dryRun := dryRun }
  if !dryRun && !dropPaths.isEmpty then
    ({ index := cold.index.dropBlocks dropPaths, files := eraseAll cold.files dropPaths }, report)
  else (cold, report)

/-- Whether a file was last written `olderThan` ago or longer. -/
def oldEnough (now olderThan : Nat) (file : BlockFile) : Bool :=
  match file.modified with
  | some m => m ≤ now && olderThan ≤ now - m
  | none => false

/-- The files one sweep unlinks. -/
def swept (now olderThan : Nat) (cold : ColdState) : List BlockPath :=
  (cold.files.toList.filter
    (fun e => decide (e.1 ∉ cold.index.allBlockPaths) && oldEnough now olderThan e.2)).map Prod.fst

def sweepUnindexed (now olderThan : Nat) (cold : ColdState) : ColdState × Nat :=
  ({ cold with files := eraseAll cold.files (swept now olderThan cold) },
    (swept now olderThan cold).length)

/-- Everything a retention sweep can do: nothing, or drop some indexed blocks with
their files. -/
theorem reclaimBefore_cases (cutoff : Nat) (dryRun : Bool) (cold : ColdState) :
    (reclaimBefore cutoff dryRun cold).1 = cold ∨
      ∃ paths, (reclaimBefore cutoff dryRun cold).1 =
        { index := cold.index.dropBlocks paths, files := eraseAll cold.files paths } := by
  unfold reclaimBefore
  dsimp only
  split
  · exact .inr ⟨_, rfl⟩
  · exact .inl rfl

/-- A sweep unlinks no block the index names. -/
theorem not_names_of_mem_swept {now olderThan : Nat} {cold : ColdState} {p : BlockPath}
    (gone : p ∈ swept now olderThan cold) : ¬ cold.index.Names p := by
  obtain ⟨e, member, rfl⟩ := List.mem_map.mp gone
  have unindexed := (List.mem_filter.mp member).2
  simp only [Bool.and_eq_true, decide_eq_true_eq, Index.mem_allBlockPaths] at unindexed
  exact unindexed.1

theorem getElem?_sweepUnindexed {now olderThan : Nat} {cold : ColdState} {p : BlockPath}
    (named : cold.index.Names p) :
    (sweepUnindexed now olderThan cold).1.files[p]? = cold.files[p]? :=
  getElem?_eraseAll_not_mem (fun gone => not_names_of_mem_swept gone named)

end Evald.Store
