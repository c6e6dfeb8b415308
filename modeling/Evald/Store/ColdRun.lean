import Evald.Store.MergePass

/-! # Runs of the cold tier, chunk by chunk

A merge pass seen as the chunks it executes.  `ColdRun allowed` are the states that
flushes, executed chunks, retention drops and sweeps reach when every one of them is
`allowed` where it is made; with nothing forbidden they include every state a run of
whole passes reaches (`ColdReachable.run`).
-/

namespace Evald.Store

open Evald.Lib

inductive ColdMove where
  | flush (seqno : Nat) (spans : List NormalizedSpan)
  | merge (dir : Slot) (chunk : List Candidate)
  | reclaim (cutoff : Nat)
  | sweep

inductive MoveStep : ColdMove → ColdState → ColdState → Prop where
  | flush {cold : ColdState} {seqno : Nat} (priceTable : String) (now : Nat)
      (spans : List NormalizedSpan) (pending : cold.index.watermark < seqno) :
      MoveStep (.flush seqno spans) cold (flushOne priceTable now cold seqno spans)
  | merge {before after : ColdState} {dir : Slot} {chunk : List Candidate}
      (merge : ChunkMerge dir chunk before after) : MoveStep (.merge dir chunk) before after
  | reclaim {cold : ColdState} (cutoff : Nat) (dryRun : Bool) :
      MoveStep (.reclaim cutoff) cold (reclaimBefore cutoff dryRun cold).1
  | sweep {cold : ColdState} (now olderThan : Nat) :
      MoveStep .sweep cold (sweepUnindexed now olderThan cold).1

/-- The states reached by moves that are all allowed in the state they start from. -/
abbrev ColdRun (allowed : ColdMove → ColdState → Prop) : ColdState → Prop :=
  Reachable (fun cold => cold = {})
    (fun before after => ∃ move, MoveStep move before after ∧ allowed move before)

theorem ChunkMerge.invariant {dir : Slot} {chunk : List Candidate} {before after : ColdState}
    (merge : ChunkMerge dir chunk before after) (invariant : ColdInvariant before) :
    ColdInvariant after := by
  obtain ⟨stamp, run, run', rfl, rfl, swaps⟩ := merge.swaps invariant.stored
  apply swaps.invariant invariant merge.ready
  intro empty
  have two := merge.executes.1
  simp [empty] at two

theorem MoveStep.invariant {move : ColdMove} {before after : ColdState}
    (stepped : MoveStep move before after) (invariant : ColdInvariant before) :
    ColdInvariant after := by
  cases stepped with
  | flush priceTable now spans pending => exact invariant.flush pending priceTable now spans
  | merge merge => exact merge.invariant invariant
  | reclaim cutoff dryRun => exact invariant.reclaim cutoff dryRun
  | sweep now olderThan => exact invariant.sweep now olderThan

theorem ColdRun.invariant {allowed : ColdMove → ColdState → Prop} {cold : ColdState}
    (reached : ColdRun allowed cold) : ColdInvariant cold := by
  apply Reachable.invariant _ _ reached
  · intro cold begins
    exact begins ▸ coldInvariant_empty
  · intro before after invariant stepped
    obtain ⟨move, moved, -⟩ := stepped
    exact moved.invariant invariant

/-- A whole pass is a sequence of moves. -/
theorem ColdStep.moves {cold cold' : ColdState} (invariant : ColdInvariant cold)
    (stepped : ColdStep cold cold') :
    Relation.ReflTransGen (fun before after => ∃ move, MoveStep move before after) cold cold' := by
  cases stepped with
  | flush priceTable now spans pending => exact .single ⟨_, .flush priceTable now spans pending⟩
  | merge policy scope dryRun clock ran =>
    obtain ⟨run', ran', -, steps⟩ := mergeCold_spec policy scope dryRun clock invariant
    rw [ran] at ran'
    cases ran'
    apply Relation.ReflTransGen.mono _ _ _ steps
    intro before after chunkMerge
    obtain ⟨dir, chunk, merge⟩ := chunkMerge
    exact ⟨_, .merge merge⟩
  | reclaim cutoff dryRun => exact .single ⟨_, .reclaim cutoff dryRun⟩
  | sweep now olderThan => exact .single ⟨_, .sweep now olderThan⟩

/-- Every state reached by whole passes is reached by their chunks. -/
theorem ColdReachable.run {cold : ColdState} (reached : ColdReachable cold) :
    ColdRun (fun _ _ => True) cold := by
  induction reached with
  | start begins => exact .start begins
  | next before stepped inductionHypothesis =>
    apply inductionHypothesis.steps
    apply Relation.ReflTransGen.mono _ _ _ (stepped.moves (ColdReachable.invariant before))
    intro before after moved
    obtain ⟨move, moved⟩ := moved
    exact ⟨move, moved, trivial⟩

end Evald.Store
