import Evald.Store.MergeStep
import Evald.Store.Retention
import Evald.Lib.Run

/-! # Merging keeps the keys

`ColdInvariant` is what every run of flushes, merge passes, retention drops and
sweeps keeps: each indexed block is on disk under a name that agrees with its
provenance, and two blocks of one hour never start at the same seqno.  The last
clause is why an hour merge cannot write over an indexed block.  A day has no
such clause (one segment may leave a block in each of its hours), so whether a
day merge writes over one depends on how the row cap cuts the day: `ChunksApart`
is the condition on the chunks of one directory, and `mergeChunks_merged` says that it
decides.
-/

namespace Evald.Store

open Evald.Lib

structure ColdInvariant (cold : ColdState) : Prop where
  stored : ∀ p, cold.index.Names p → ∃ file, cold.files[p]? = some file
  agrees : ∀ p file, cold.index.Names p → cold.files[p]? = some file →
    file.provenance.seqnoLo = p.seqnoLo ∧ file.provenance.seqnoHi = p.seqnoHi
  bounded : ∀ p, cold.index.Names p → p.seqnoLo ≤ cold.index.watermark
  apart : ∀ p q h, cold.index.Names p → cold.index.Names q → slotOf p = .hour h →
    slotOf q = .hour h → p.seqnoLo = q.seqnoLo → p = q

/-- One operation on the cold tier.  A flush is of a segment above the watermark. -/
inductive ColdStep : ColdState → ColdState → Prop where
  | flush {cold : ColdState} {seqno : Nat} (priceTable : String) (now : Nat)
      (spans : List NormalizedSpan) (pending : cold.index.watermark < seqno) :
      ColdStep cold (flushOne priceTable now cold seqno spans)
  | merge {cold : ColdState} {run : MergeRun} (policy : MergePolicy) (scope : MergeScope)
      (dryRun : Bool) (clock : Clock) (ran : mergeCold policy scope dryRun clock cold = some run) :
      ColdStep cold run.cold
  | reclaim {cold : ColdState} (cutoff : Nat) (dryRun : Bool) :
      ColdStep cold (reclaimBefore cutoff dryRun cold).1
  | sweep {cold : ColdState} (now olderThan : Nat) :
      ColdStep cold (sweepUnindexed now olderThan cold).1

/-- The cold states some run of operations reaches from an empty store. -/
abbrev ColdReachable : ColdState → Prop := Reachable (fun cold => cold = {}) ColdStep

/-! ## One chunk -/

/-- What the planner promises of a chunk at the time it executes. -/
structure Ready (dir : Slot) (cold : ColdState) (chunk : List Candidate) : Prop where
  named : ∀ c ∈ chunk, cold.index.Names c.rel
  range : ∀ c ∈ chunk, c.seqnoLo = c.rel.seqnoLo ∧ c.seqnoHi = c.rel.seqnoHi
  placed : ∀ c ∈ chunk, InDir dir c.rel

/-- One executed chunk, as the cold tier sees it. -/
structure ChunkMerge (dir : Slot) (chunk : List Candidate) (before after : ColdState) : Prop where
  ready : Ready dir before chunk
  executes : Executes dir chunk
  ran : ∃ stamp run run', run.cold = before ∧ run'.cold = after ∧
    mergeChunk stamp dir false run chunk = some run'

/-- A merge pass is nothing but executed chunks. -/
abbrev ChunkMerges : ColdState → ColdState → Prop :=
  Relation.ReflTransGen (fun before after => ∃ dir chunk, ChunkMerge dir chunk before after)

theorem ChunkMerge.swaps {dir : Slot} {chunk : List Candidate} {before after : ColdState}
    (merge : ChunkMerge dir chunk before after)
    (stored : ∀ p, before.index.Names p → ∃ file, before.files[p]? = some file) :
    ∃ stamp run run', run.cold = before ∧ run'.cold = after ∧
      Swaps stamp dir chunk run run' := by
  obtain ⟨stamp, run, run', rfl, rfl, ran⟩ := merge.ran
  have swapped : ∃ run'', mergeChunk stamp dir false run chunk = some run'' ∧
      Swaps stamp dir chunk run run'' :=
    mergeChunk_swaps stamp (fun c member => stored _ (merge.ready.named c member))
      merge.executes.2
  obtain ⟨run'', ran', swaps⟩ := swapped
  rw [ran] at ran'
  cases ran'
  exact ⟨stamp, run, run', rfl, rfl, swaps⟩

theorem exists_rel_seqnoLo {dir : Slot} {cold : ColdState} {chunk : List Candidate}
    (ready : Ready dir cold chunk) (nonempty : chunk ≠ []) :
    ∃ c ∈ chunk, c.rel.seqnoLo = (outRel dir chunk).seqnoLo := by
  obtain ⟨c, member, same⟩ := exists_seqnoLo_eq_chunkLo nonempty
  exact ⟨c, member, by rw [seqnoLo_outRel, ← same, (ready.range c member).1]⟩

theorem Swaps.invariant {stamp : Nat} {dir : Slot} {chunk : List Candidate}
    {before after : MergeRun} (swaps : Swaps stamp dir chunk before after)
    (invariant : ColdInvariant before.cold) (ready : Ready dir before.cold chunk)
    (nonempty : chunk ≠ []) : ColdInvariant after.cold := by
  obtain ⟨first, firstMember, firstLo⟩ := exists_rel_seqnoLo ready nonempty
  -- besides the output every file is one from before
  have contentOf : ∀ p, p ≠ outRel dir chunk → ∀ file, after.cold.files[p]? = some file →
      ∃ old, before.cold.files[p]? = some old ∧ old.provenance = file.provenance := by
    intro p other file found
    have same := swaps.contents p other
    rw [found] at same
    cases old : before.cold.files[p]? with
    | none => rw [old] at same; cases same
    | some oldFile =>
      rw [old] at same
      refine ⟨oldFile, rfl, ?_⟩
      simp only [Option.map_some, Option.some.injEq, BlockFile.content, Prod.mk.injEq] at same
      exact same.2.symm
  refine ⟨?_, ?_, ?_, ?_⟩
  · intro p named
    by_cases isOut : p = outRel dir chunk
    · exact ⟨_, isOut ▸ swaps.output⟩
    · rcases (swaps.names p).mp named with same | ⟨-, old⟩
      · exact absurd same isOut
      · obtain ⟨file, found⟩ := invariant.stored p old
        have same := swaps.contents p isOut
        rw [found] at same
        obtain ⟨file', found', -⟩ := Option.map_eq_some_iff.mp same
        exact ⟨file', found'⟩
  · intro p file named found
    by_cases isOut : p = outRel dir chunk
    · subst isOut
      rw [swaps.output] at found
      cases found
      exact ⟨(seqnoLo_outRel dir chunk).symm, (seqnoHi_outRel dir chunk).symm⟩
    · rcases (swaps.names p).mp named with same | ⟨-, old⟩
      · exact absurd same isOut
      · obtain ⟨oldFile, oldFound, same⟩ := contentOf p isOut file found
        rw [← same]
        exact invariant.agrees p oldFile old oldFound
  · intro p named
    rw [swaps.watermark]
    rcases (swaps.names p).mp named with rfl | ⟨-, old⟩
    · rw [← firstLo]
      exact invariant.bounded _ (ready.named first firstMember)
    · exact invariant.bounded p old
  · -- a block of the hour that starts where the output does would be one of the inputs
    have clash : ∀ q h, slotOf (outRel dir chunk) = .hour h → slotOf q = .hour h →
        (∀ c ∈ chunk, q ≠ c.rel) → before.cold.index.Names q →
        (outRel dir chunk).seqnoLo = q.seqnoLo → False := by
      intro q h outSlot qSlot notInput old sameLo
      have firstSlot : slotOf first.rel = .hour h := by
        have placed := ready.placed first firstMember
        cases dir with
        | hour hour => exact placed.trans outSlot
        | day day => cases outSlot
      exact notInput first firstMember (invariant.apart q first.rel h old
        (ready.named first firstMember) qSlot firstSlot (by rw [firstLo, sameLo]))
    intro p q h pNamed qNamed pSlot qSlot sameLo
    rcases (swaps.names p).mp pNamed with rfl | ⟨pOther, pOld⟩
    · rcases (swaps.names q).mp qNamed with rfl | ⟨qOther, qOld⟩
      · rfl
      · exact (clash q h pSlot qSlot qOther qOld sameLo).elim
    · rcases (swaps.names q).mp qNamed with rfl | ⟨qOther, qOld⟩
      · exact (clash p h qSlot pSlot pOther pOld sameLo.symm).elim
      · exact invariant.apart p q h pOld qOld pSlot qSlot sameLo

/-- An output at a path the index does not name moves keys, it loses none. -/
theorem Swaps.holds_iff {stamp : Nat} {dir : Slot} {chunk : List Candidate}
    {before after : MergeRun} (swaps : Swaps stamp dir chunk before after)
    (named : ∀ c ∈ chunk, before.cold.index.Names c.rel)
    (fresh : ¬ before.cold.index.Names (outRel dir chunk)) (k : SpanKey) :
    after.cold.Holds k ↔ before.cold.Holds k := by
  have outputKeys : k ∈ (rowsAt after.cold.files (outRel dir chunk)).map spanKey ↔
      ∃ c ∈ chunk, k ∈ (rowsAt before.cold.files c.rel).map spanKey := by
    rw [swaps.rowsAt_output, mem_keys_firstCopies_nil, inputRows, List.map_flatMap]
    exact List.mem_flatMap
  constructor
  · rintro ⟨p, pNamed, held⟩
    by_cases isOut : p = outRel dir chunk
    · subst isOut
      obtain ⟨c, member, inInput⟩ := outputKeys.mp held
      exact ⟨c.rel, named c member, inInput⟩
    · rw [swaps.rowsAt_other isOut] at held
      rcases (swaps.names p).mp pNamed with same | ⟨-, old⟩
      · exact absurd same isOut
      · exact ⟨p, old, held⟩
  · rintro ⟨p, pNamed, held⟩
    by_cases isInput : ∃ c ∈ chunk, p = c.rel
    · obtain ⟨c, member, rfl⟩ := isInput
      exact ⟨outRel dir chunk, (swaps.names _).mpr (.inl rfl), outputKeys.mpr ⟨c, member, held⟩⟩
    · push Not at isInput
      have isOut : p ≠ outRel dir chunk := fun same => fresh (same ▸ pNamed)
      refine ⟨p, (swaps.names p).mpr (.inr ⟨isInput, pNamed⟩), ?_⟩
      rw [swaps.rowsAt_other isOut]
      exact held

/-! ## The chunks of one directory -/

/-- No executed chunk is written over another one: not over its output, and not
over one of its inputs that is still there when the writing happens. -/
def ChunksApart (dir : Slot) (planned : List (List Candidate)) : Prop :=
  planned.Pairwise (fun earlier later =>
    (Executes dir earlier → ∀ c ∈ later, c.rel ≠ outRel dir earlier) ∧
    (Executes dir earlier → Executes dir later → outRel dir earlier ≠ outRel dir later) ∧
    (Executes dir later → ¬ Executes dir earlier → ∀ c ∈ earlier, c.rel ≠ outRel dir later))

instance (dir : Slot) (planned : List (List Candidate)) : Decidable (ChunksApart dir planned) := by
  unfold ChunksApart
  infer_instance

/-- `ChunksApart`, and no output is at the path of an indexed block that is in none
of the chunks. -/
structure Clear (dir : Slot) (cold : ColdState) (planned : List (List Candidate)) : Prop where
  apart : ChunksApart dir planned
  inside : ∀ chunk ∈ planned, Executes dir chunk → cold.index.Names (outRel dir chunk) →
    ∃ c ∈ planned.flatten, c.rel = outRel dir chunk

theorem clear_nil (dir : Slot) (cold : ColdState) : Clear dir cold [] :=
  ⟨List.Pairwise.nil, fun chunk member => by cases member⟩

theorem clear_cons_skipped {dir : Slot} {cold : ColdState} {chunk : List Candidate}
    {planned : List (List Candidate)} (skipped : ¬ Executes dir chunk)
    (named : ∀ c ∈ chunk, cold.index.Names c.rel)
    (disjoint : ∀ c ∈ chunk, ∀ c' ∈ planned.flatten, c.rel ≠ c'.rel) :
    Clear dir cold (chunk :: planned) ↔ Clear dir cold planned := by
  constructor
  · rintro ⟨apart, inside⟩
    obtain ⟨first, rest⟩ := List.pairwise_cons.mp apart
    refine ⟨rest, fun later member executes outNamed => ?_⟩
    obtain ⟨c, listed, same⟩ := inside later (List.mem_cons_of_mem _ member) executes outNamed
    rcases List.mem_append.mp (List.flatten_cons ▸ listed) with here | there
    · exact absurd same ((first later member).2.2 executes skipped c here)
    · exact ⟨c, there, same⟩
  · rintro ⟨apart, inside⟩
    refine ⟨List.pairwise_cons.mpr ⟨fun later member => ⟨?_, ?_, ?_⟩, apart⟩, ?_⟩
    · exact fun executes => absurd executes skipped
    · exact fun executes => absurd executes skipped
    · intro executes _ c here same
      obtain ⟨c', listed, same'⟩ := inside later member executes (same ▸ named c here)
      exact disjoint c here c' listed (same.trans same'.symm)
    · intro later member executes outNamed
      rcases List.mem_cons.mp member with rfl | member
      · exact absurd executes skipped
      · obtain ⟨c, listed, same⟩ := inside later member executes outNamed
        exact ⟨c, List.mem_append_right _ listed, same⟩

theorem clear_cons_executed {stamp : Nat} {dir : Slot} {before after : MergeRun}
    {chunk : List Candidate} {planned : List (List Candidate)} (executes : Executes dir chunk)
    (swaps : Swaps stamp dir chunk before after)
    (named : ∀ c ∈ planned.flatten, before.cold.index.Names c.rel) :
    Clear dir before.cold (chunk :: planned) ↔
      ¬ before.cold.index.Names (outRel dir chunk) ∧ Clear dir after.cold planned := by
  constructor
  -- a block that bears the output's name would be an input, of this chunk or of a later one
  · rintro ⟨apart, inside⟩
    obtain ⟨first, rest⟩ := List.pairwise_cons.mp apart
    have fresh : ¬ before.cold.index.Names (outRel dir chunk) := by
      intro outNamed
      obtain ⟨c, listed, same⟩ := inside chunk List.mem_cons_self executes outNamed
      rcases List.mem_append.mp (List.flatten_cons ▸ listed) with here | there
      · exact executes.2 c here same
      · obtain ⟨later, member, inLater⟩ := List.mem_flatten.mp there
        exact (first later member).1 executes c inLater same
    refine ⟨fresh, rest, fun later member laterExecutes outNamed => ?_⟩
    rcases (swaps.names _).mp outNamed with same | ⟨notInput, old⟩
    · exact absurd same.symm ((first later member).2.1 executes laterExecutes)
    · obtain ⟨c, listed, same⟩ :=
        inside later (List.mem_cons_of_mem _ member) laterExecutes old
      rcases List.mem_append.mp (List.flatten_cons ▸ listed) with here | there
      · exact absurd same.symm (notInput c here)
      · exact ⟨c, there, same⟩
  · rintro ⟨fresh, apart, inside⟩
    refine ⟨List.pairwise_cons.mpr ⟨fun later member => ⟨?_, ?_, ?_⟩, apart⟩, ?_⟩
    · intro _ c inLater same
      exact fresh (same ▸ named c (List.mem_flatten.mpr ⟨later, member, inLater⟩))
    · intro _ laterExecutes same
      have outNamed : after.cold.index.Names (outRel dir later) :=
        (swaps.names _).mpr (.inl same.symm)
      obtain ⟨c, listed, atOut⟩ := inside later member laterExecutes outNamed
      exact fresh (same ▸ atOut ▸ named c listed)
    · exact fun _ skipped => absurd executes skipped
    · intro later member laterExecutes outNamed
      rcases List.mem_cons.mp member with rfl | member
      · exact absurd outNamed fresh
      · by_cases isInput : ∃ c ∈ chunk, outRel dir later = c.rel
        · obtain ⟨c, here, same⟩ := isInput
          exact ⟨c, List.mem_append_left _ here, same.symm⟩
        · push Not at isInput
          obtain ⟨c, listed, same⟩ := inside later member laterExecutes
            ((swaps.names _).mpr (.inr ⟨isInput, outNamed⟩))
          exact ⟨c, List.mem_append_right _ listed, same⟩

/-- What merging the chunks `planned` of one directory does to the cold tier. -/
structure Merged (dir : Slot) (planned : List (List Candidate)) (before after : MergeRun) :
    Prop where
  invariant : ColdInvariant after.cold
  watermark : after.cold.index.watermark = before.cold.index.watermark
  elsewhere : ∀ p, ¬ InDir dir p →
    (after.cold.index.Names p ↔ before.cold.index.Names p) ∧
      after.cold.files[p]? = before.cold.files[p]?
  consumed : after.consumed = before.consumed
  clobbered : ∃ added, after.clobbered = added ++ before.clobbered ∧
    (added = [] ↔ Clear dir before.cold planned)
  keys : Clear dir before.cold planned → ∀ k, after.cold.Holds k ↔ before.cold.Holds k
  steps : ChunkMerges before.cold after.cold

theorem Ready.after_swap {stamp : Nat} {dir : Slot} {before after : MergeRun}
    {chunk later : List Candidate} (ready : Ready dir before.cold later)
    (swaps : Swaps stamp dir chunk before after)
    (disjoint : ∀ c ∈ chunk, ∀ c' ∈ later, c.rel ≠ c'.rel) : Ready dir after.cold later where
  named := fun c member => (swaps.names _).mpr (.inr
    ⟨fun c' here => (disjoint c' here c member).symm, ready.named c member⟩)
  range := ready.range
  placed := ready.placed

/-- The chunks of one directory merge without error, and write over an indexed
block only where they are not `Clear`. -/
theorem mergeChunks_merged (stamp : Nat) {dir : Slot} {planned : List (List Candidate)}
    {run : MergeRun} (invariant : ColdInvariant run.cold)
    (ready : ∀ chunk ∈ planned, Ready dir run.cold chunk)
    (distinct : (planned.flatten.map Candidate.rel).Nodup) :
    ∃ after, mergeChunks stamp dir false run planned = some after ∧
      Merged dir planned run after := by
  -- on the chunks that are left; a later one shares no input with this one
  induction planned generalizing run with
  | nil =>
    refine ⟨run, rfl, invariant, rfl, fun p _ => ⟨.rfl, rfl⟩, rfl, ⟨[], rfl, ?_⟩,
      fun _ _ => .rfl, .refl⟩
    exact ⟨fun _ => clear_nil dir run.cold, fun _ => rfl⟩
  | cons chunk planned inductionHypothesis =>
    have readyHere := ready chunk List.mem_cons_self
    have readyLater : ∀ later ∈ planned, Ready dir run.cold later :=
      fun later member => ready later (List.mem_cons_of_mem _ member)
    rw [List.flatten_cons, List.map_append, List.nodup_append] at distinct
    obtain ⟨-, distinctLater, apart⟩ := distinct
    have disjoint : ∀ c ∈ chunk, ∀ c' ∈ planned.flatten, c.rel ≠ c'.rel :=
      fun c here c' there => apart _ (List.mem_map_of_mem here) _ (List.mem_map_of_mem there)
    have namedLater : ∀ c ∈ planned.flatten, run.cold.index.Names c.rel := by
      intro c there
      obtain ⟨later, member, inLater⟩ := List.mem_flatten.mp there
      exact (readyLater later member).named c inLater
    by_cases executes : Executes dir chunk
    · have nonempty : chunk ≠ [] := by
        rintro rfl
        exact absurd executes.1 (by simp)
      obtain ⟨middle, stepped, swaps⟩ := mergeOrSkip_swaps stamp
        (fun c here => invariant.stored _ (readyHere.named c here)) executes
      have readyMiddle : ∀ later ∈ planned, Ready dir middle.cold later :=
        fun later member => (readyLater later member).after_swap swaps
          (fun c here c' inLater => disjoint c here c' (List.mem_flatten.mpr
            ⟨later, member, inLater⟩))
      obtain ⟨after, ran, merged⟩ := inductionHypothesis
        (swaps.invariant invariant readyHere nonempty) readyMiddle distinctLater
      have split := clear_cons_executed executes swaps namedLater
      refine ⟨after, ?_, merged.invariant, merged.watermark.trans swaps.watermark, ?_,
        merged.consumed.trans swaps.consumed, ?_, ?_, ?_⟩
      · rw [mergeChunks, List.foldlM_cons, stepped]
        exact ran
      · intro p outside
        obtain ⟨names, files⟩ := merged.elsewhere p outside
        have notOut : p ≠ outRel dir chunk := fun same => outside (same ▸ inDir_outRel dir chunk)
        have notInput : ∀ c ∈ chunk, p ≠ c.rel :=
          fun c here same => outside (same ▸ readyHere.placed c here)
        rw [names, files, swaps.names, swaps.untouched p notOut notInput]
        refine ⟨⟨?_, fun old => .inr ⟨notInput, old⟩⟩, rfl⟩
        rintro (same | ⟨-, old⟩)
        · exact absurd same notOut
        · exact old
      · obtain ⟨added, grown, addedIff⟩ := merged.clobbered
        rw [swaps.clobbered] at grown
        by_cases outNamed : run.cold.index.Names (outRel dir chunk)
        · rw [if_pos outNamed] at grown
          refine ⟨added ++ [outRel dir chunk], by rw [grown]; simp, ?_⟩
          constructor
          · intro empty
            exact absurd empty (by simp)
          · exact fun clear => absurd outNamed (split.mp clear).1
        · rw [if_neg outNamed] at grown
          refine ⟨added, grown, addedIff.trans ?_⟩
          rw [split]
          exact ⟨fun clear => ⟨outNamed, clear⟩, And.right⟩
      · intro clear k
        obtain ⟨fresh, clearLater⟩ := split.mp clear
        exact (merged.keys clearLater k).trans (swaps.holds_iff readyHere.named fresh k)
      · have executed : mergeChunk stamp dir false run chunk = some middle := by
          rw [← stepped, mergeOrSkip, if_neg (not_lt.mpr executes.1)]
        exact .head ⟨dir, chunk, readyHere, executes, stamp, run, middle, rfl, rfl, executed⟩
          merged.steps
    · obtain ⟨after, ran, merged⟩ := inductionHypothesis invariant readyLater distinctLater
      have split := clear_cons_skipped executes readyHere.named disjoint
      refine ⟨after, ?_, merged.invariant, merged.watermark, merged.elsewhere, merged.consumed,
        ?_, fun clear => merged.keys (split.mp clear), merged.steps⟩
      · rw [mergeChunks, List.foldlM_cons, mergeOrSkip_skips executes]
        exact ran
      · obtain ⟨added, grown, addedIff⟩ := merged.clobbered
        exact ⟨added, grown, addedIff.trans split.symm⟩

end Evald.Store
