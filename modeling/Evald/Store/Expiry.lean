import Evald.Store.ColdRun

/-! # Retention and the newest start of a block

Retention decides by the newest start the index recorded for a block.  It is never
below the newest start in the file, in any run, so no row at or after the cutoff is
lost.  A merge records the newest start among the rows it read, copies it leaves out
included, so the two differ when such a copy started last: `reclaim_exact` is about the
runs in which no merge leaves out its newest row.
-/

namespace Evald.Store

open Evald.Lib

/-- Every row of the block starts before the cutoff. -/
def Expired (cold : ColdState) (cutoff : Nat) (p : BlockPath) : Prop :=
  ∀ s ∈ rowsAt cold.files p, s.startUnixNano < cutoff

instance (cold : ColdState) (cutoff : Nat) (p : BlockPath) : Decidable (Expired cold cutoff p) :=
  inferInstanceAs (Decidable (∀ s ∈ rowsAt cold.files p, s.startUnixNano < cutoff))

/-- A sweep at the cutoff drops exactly the expired blocks with exactly their trace
mappings, and a dry run changes nothing and counts the same. -/
structure DropsExpired (cold : ColdState) (cutoff : Nat) : Prop where
  names : ∀ p, (reclaimBefore cutoff false cold).1.index.Names p ↔
    cold.index.Names p ∧ ¬ Expired cold cutoff p
  maps : ∀ t p, (reclaimBefore cutoff false cold).1.index.Maps t p ↔
    cold.index.Maps t p ∧ ¬ (cold.index.Names p ∧ Expired cold cutoff p)
  preview : reclaimBefore cutoff true cold =
    (cold, { (reclaimBefore cutoff false cold).2 with dryRun := true })

/-! ## What a sweep drops -/

/-- The index recorded a newest start before the cutoff. -/
def RecordedBefore (index : Index) (cutoff : Nat) (p : BlockPath) : Prop :=
  ∃ start, index.blocks[p]? = some start ∧ start < cutoff

theorem mem_dropPaths {index : Index} {cutoff : Nat} {p : BlockPath} :
    p ∈ (index.blocksWithMaxStart.filter (fun b => b.2 < cutoff)).map Prod.fst ↔
      RecordedBefore index cutoff p := by
  simp only [List.mem_map, List.mem_filter, decide_eq_true_eq, Prod.exists]
  constructor
  · intro ⟨q, start, ⟨listed, before⟩, same⟩
    exact ⟨start, same ▸ Index.mem_blocksWithMaxStart.mp listed, before⟩
  · intro ⟨start, recorded, before⟩
    exact ⟨p, start, ⟨Index.mem_blocksWithMaxStart.mpr recorded, before⟩, rfl⟩

theorem index_reclaimBefore (cutoff : Nat) (cold : ColdState) :
    (reclaimBefore cutoff false cold).1.index = cold.index.dropBlocks
      ((cold.index.blocksWithMaxStart.filter (fun b => b.2 < cutoff)).map Prod.fst) := by
  unfold reclaimBefore
  dsimp only
  split
  · rfl
  · next nothing =>
    have none : (cold.index.blocksWithMaxStart.filter (fun b => b.2 < cutoff)).map Prod.fst =
        [] := by
      simpa using nothing
    rw [none]
    rfl

theorem names_reclaimBefore {cutoff : Nat} {cold : ColdState} {p : BlockPath} :
    (reclaimBefore cutoff false cold).1.index.Names p ↔
      cold.index.Names p ∧ ¬ RecordedBefore cold.index cutoff p := by
  rw [index_reclaimBefore, Index.names_dropBlocks, mem_dropPaths]
  exact and_comm

theorem maps_reclaimBefore {cutoff : Nat} {cold : ColdState} {t : String} {p : BlockPath} :
    (reclaimBefore cutoff false cold).1.index.Maps t p ↔
      cold.index.Maps t p ∧ ¬ RecordedBefore cold.index cutoff p := by
  rw [index_reclaimBefore, Index.maps_dropBlocks, mem_dropPaths]
  exact and_comm

theorem reclaimBefore_preview (cutoff : Nat) (cold : ColdState) :
    reclaimBefore cutoff true cold =
      (cold, { (reclaimBefore cutoff false cold).2 with dryRun := true }) := by
  unfold reclaimBefore
  dsimp only
  rw [Bool.not_true, Bool.false_and, if_neg Bool.false_ne_true]
  apply congrArg (Prod.mk cold)
  split <;> rfl

/-! ## The recorded start against the rows -/

theorem maxStart_lt_iff {rows : List NormalizedSpan} (nonempty : rows ≠ []) {cutoff : Nat} :
    maxStart rows < cutoff ↔ ∀ s ∈ rows, s.startUnixNano < cutoff := by
  obtain ⟨first, member⟩ := List.exists_mem_of_ne_nil rows nonempty
  constructor
  · intro below s inRows
    exact (le_maxStart inRows).trans_lt below
  · intro below
    have positive := below first member
    have bounded : maxStart rows ≤ cutoff - 1 := maxStart_le_iff.mpr (fun s inRows => by
      have := below s inRows
      omega)
    omega

/-- Leaving rows out moves the newest start down, if at all. -/
theorem maxStart_firstCopies_le (rows : List NormalizedSpan) :
    maxStart (firstCopies spanKey [] rows) ≤ maxStart rows :=
  maxStart_le_iff.mpr (fun _ member => le_maxStart (mem_of_mem_firstCopies member))

theorem firstCopies_ne_nil {rows : List NormalizedSpan} (nonempty : rows ≠ []) :
    firstCopies spanKey [] rows ≠ [] := by
  obtain ⟨first, member⟩ := List.exists_mem_of_ne_nil rows nonempty
  have key := (mem_keys_firstCopies_nil spanKey rows (spanKey first)).mpr
    (List.mem_map_of_mem member)
  intro empty
  rw [empty] at key
  cases key

/-- Every indexed block has rows, and their newest start is `close` to the recorded one. -/
structure StartsRecorded (close : Nat → Nat → Prop) (cold : ColdState) : Prop where
  nonempty : ∀ p, cold.index.Names p → rowsAt cold.files p ≠ []
  recorded : ∀ p start, cold.index.blocks[p]? = some start →
    close (maxStart (rowsAt cold.files p)) start

theorem Index.names_of_recorded {index : Index} {p : BlockPath} {start : Nat}
    (recorded : index.blocks[p]? = some start) : index.Names p := by
  rw [Index.Names, Std.ExtTreeMap.mem_iff_isSome_getElem?, recorded]
  rfl

theorem startsRecorded_empty (close : Nat → Nat → Prop) : StartsRecorded close {} where
  nonempty := fun p named => absurd named (Index.names_empty p)
  recorded := fun p start recorded => by
    exact absurd (Index.names_of_recorded recorded) (Index.names_empty p)

section
variable {close : Nat → Nat → Prop} {cold cold' : ColdState}

/-- Dropping blocks, or files that are not indexed, changes no start. -/
theorem StartsRecorded.shrink (starts : StartsRecorded close cold)
    (fewer : ∀ (p : BlockPath) (start : Nat), cold'.index.blocks[p]? = some start →
      cold.index.blocks[p]? = some start)
    (kept : ∀ p, cold'.index.Names p → cold'.files[p]? = cold.files[p]?) :
    StartsRecorded close cold' := by
  refine ⟨fun p named => ?_, fun p start recorded => ?_⟩
  · obtain ⟨start, listed⟩ := Index.names_iff_exists_start.mp named
    have old := fewer p start (Index.mem_blocksWithMaxStart.mp listed)
    rw [rowsAt_eq_of_getElem? (kept p named)]
    exact starts.nonempty p (Index.names_of_recorded old)
  · rw [rowsAt_eq_of_getElem? (kept p (Index.names_of_recorded recorded))]
    exact starts.recorded p start (fewer p start recorded)

theorem StartsRecorded.flush (starts : StartsRecorded close cold) (same : ∀ n, close n n)
    (priceTable : String) (now seqno : Nat) (spans : List NormalizedSpan) :
    StartsRecorded close (flushOne priceTable now cold seqno spans) := by
  have distinct := nodup_paths_flushPlan seqno spans
  have metas : ((flushPlan seqno spans).map (fun b => blockMeta b.1 b.2)).map BlockMeta.relPath =
      (flushPlan seqno spans).map Prod.fst := by
    rw [List.map_map]
    rfl
  -- a flushed block: its rows are in the file and their newest start in the index
  have fresh : ∀ block ∈ flushPlan seqno spans,
      rowsAt (flushOne priceTable now cold seqno spans).files block.1 = block.2 ∧
        (flushOne priceTable now cold seqno spans).index.blocks[block.1]? =
          some (maxStart block.2) := by
    intro block member
    constructor
    · rw [rowsAt, flushOne, getElem?_foldl_writePlanned distinct member]
    · exact Index.getElem?_blocks_commitFlush (metas ▸ distinct)
        (List.mem_map_of_mem (f := fun b => blockMeta b.1 b.2) member)
  -- any other block is as it was
  have old : ∀ p, (∀ block ∈ flushPlan seqno spans, block.1 ≠ p) →
      (flushOne priceTable now cold seqno spans).files[p]? = cold.files[p]? ∧
        (flushOne priceTable now cold seqno spans).index.blocks[p]? = cold.index.blocks[p]? := by
    intro p other
    refine ⟨getElem?_foldl_writePlanned_other other, ?_⟩
    apply Index.getElem?_blocks_commitFlush_other
    intro b listed
    obtain ⟨block, member, rfl⟩ := List.mem_map.mp listed
    exact other block member
  refine ⟨fun p named => ?_, fun p start recorded => ?_⟩
  -- a name is one of the flushed blocks or was there before
  · by_cases planned : ∃ block ∈ flushPlan seqno spans, block.1 = p
    · obtain ⟨block, member, rfl⟩ := planned
      obtain ⟨hour, idx, path, rows, nonempty⟩ := mem_flushPlan member
      rw [(fresh block member).1]
      exact nonempty
    · push Not at planned
      rw [rowsAt_eq_of_getElem? (old p planned).1]
      apply starts.nonempty
      cases names_flushOne.mp named with
      | inl inPlan =>
        obtain ⟨block, member, same⟩ := inPlan
        exact absurd same.symm (planned block member)
      | inr named => exact named
  · by_cases planned : ∃ block ∈ flushPlan seqno spans, block.1 = p
    · obtain ⟨block, member, rfl⟩ := planned
      obtain ⟨rows, metadata⟩ := fresh block member
      rw [metadata] at recorded
      rw [rows, Option.some.inj recorded]
      exact same _
    · push Not at planned
      obtain ⟨file, metadata⟩ := old p planned
      rw [rowsAt_eq_of_getElem? file]
      exact starts.recorded p start (metadata ▸ recorded)

theorem StartsRecorded.merge (starts : StartsRecorded close cold)
    (invariant : ColdInvariant cold) {dir : Slot} {chunk : List Candidate}
    (merge : ChunkMerge dir chunk cold cold')
    (newest : close (maxStart (firstCopies spanKey [] (inputRows cold.files chunk)))
      (maxStart (inputRows cold.files chunk))) :
    StartsRecorded close cold' := by
  obtain ⟨stamp, run, run', rfl, rfl, swaps⟩ := merge.swaps invariant.stored
  have someInput : inputRows run.cold.files chunk ≠ [] := by
    obtain ⟨c, member⟩ : ∃ c, c ∈ chunk :=
      List.exists_mem_of_length_pos (lt_of_lt_of_le (by decide) merge.executes.1)
    obtain ⟨row, inRows⟩ := List.exists_mem_of_ne_nil _
      (starts.nonempty c.rel (merge.ready.named c member))
    exact List.ne_nil_of_mem (List.mem_flatMap.mpr ⟨c, member, inRows⟩)
  refine ⟨fun p named => ?_, fun p start recorded => ?_⟩
  · by_cases isOut : p = outRel dir chunk
    · rw [isOut, swaps.rowsAt_output]
      exact firstCopies_ne_nil someInput
    · rw [swaps.rowsAt_other isOut]
      exact starts.nonempty p (((swaps.names p).mp named).resolve_left isOut).2
  · rw [swaps.starts] at recorded
    split at recorded
    · next isOut =>
      rw [← isOut, swaps.rowsAt_output, ← Option.some.inj recorded]
      exact newest
    · next notOut =>
      rw [swaps.rowsAt_other (Ne.symm notOut)]
      split at recorded
      · cases recorded
      · exact starts.recorded p start recorded

end

/-- The moves that leave every newest start as `close` to the rows as it was. -/
def KeepsClose (close : Nat → Nat → Prop) : ColdMove → ColdState → Prop
  | .merge _ chunk, cold => close (maxStart (firstCopies spanKey [] (inputRows cold.files chunk)))
      (maxStart (inputRows cold.files chunk))
  | _, _ => True

theorem StartsRecorded.step {close : Nat → Nat → Prop} {cold cold' : ColdState} {move : ColdMove}
    (starts : StartsRecorded close cold) (same : ∀ n, close n n) (invariant : ColdInvariant cold)
    (moved : MoveStep move cold cold') (keeps : KeepsClose close move cold) :
    StartsRecorded close cold' := by
  cases moved with
  | flush priceTable now spans pending =>
    exact starts.flush same priceTable now _ spans
  | merge merge => exact starts.merge invariant merge keeps
  | reclaim cutoff dryRun =>
    cases reclaimBefore_cases cutoff dryRun cold with
    | inl unchanged =>
      rw [unchanged]
      exact starts
    | inr dropped =>
      obtain ⟨paths, dropped⟩ := dropped
      rw [dropped]
      apply starts.shrink
      · intro p start recorded
        rw [Index.getElem?_blocks_dropBlocks] at recorded
        split at recorded
        · cases recorded
        · exact recorded
      · intro p named
        exact getElem?_eraseAll_not_mem (Index.names_dropBlocks.mp named).1
  | sweep now olderThan =>
    exact starts.shrink (fun _ _ recorded => recorded)
      (fun p named => getElem?_sweepUnindexed named)

theorem ColdRun.starts {close : Nat → Nat → Prop} (same : ∀ n, close n n)
    {allowed : ColdMove → ColdState → Prop}
    (keeps : ∀ move cold, allowed move cold → KeepsClose close move cold) {cold : ColdState}
    (reached : ColdRun allowed cold) : StartsRecorded close cold := by
  refine Reachable.strengthen (fun _ => ColdRun.invariant) ?_ ?_ reached
  · intro cold begins
    exact begins ▸ startsRecorded_empty close
  · intro before after invariant starts stepped
    obtain ⟨move, moved, fine⟩ := stepped
    exact starts.step same invariant moved (keeps move before fine)

/-! ## Exactly the expired blocks -/

/-- In every run a sweep drops only blocks all of whose rows are before the cutoff. -/
theorem expired_of_dropped {cold : ColdState} (reached : ColdReachable cold) {cutoff : Nat}
    {p : BlockPath} (named : cold.index.Names p)
    (dropped : ¬ (reclaimBefore cutoff false cold).1.index.Names p) : Expired cold cutoff p := by
  have starts : StartsRecorded (· ≤ ·) cold := by
    apply ColdRun.starts (fun _ => le_rfl) _ reached.run
    intro move cold _
    cases move with
    | merge dir chunk => exact maxStart_firstCopies_le _
    | flush seqno spans => trivial
    | reclaim cutoff => trivial
    | sweep => trivial
  have recordedBefore : RecordedBefore cold.index cutoff p := by
    by_contra kept
    exact dropped (names_reclaimBefore.mpr ⟨named, kept⟩)
  obtain ⟨start, recorded, before⟩ := recordedBefore
  intro s member
  exact ((le_maxStart member).trans (starts.recorded p start recorded)).trans_lt before

/-- A merge that writes a newest row of its inputs. -/
def KeepsNewest : ColdMove → ColdState → Prop := KeepsClose (· = ·)

/-- In every run whose merges all write a newest row of their inputs, retention drops
exactly the expired blocks, at every cutoff and in every state. -/
theorem reclaim_exact {cold : ColdState} (reached : ColdRun KeepsNewest cold) (cutoff : Nat) :
    DropsExpired cold cutoff := by
  have starts : StartsRecorded (· = ·) cold :=
    reached.starts (fun _ => rfl) (fun _ _ keeps => keeps)
  have decides : ∀ p, RecordedBefore cold.index cutoff p ↔
      cold.index.Names p ∧ Expired cold cutoff p := by
    intro p
    constructor
    · intro ⟨start, recorded, before⟩
      have named := Index.names_of_recorded recorded
      rw [← starts.recorded p start recorded] at before
      exact ⟨named, (maxStart_lt_iff (starts.nonempty p named)).mp before⟩
    · intro ⟨named, expired⟩
      obtain ⟨start, listed⟩ := Index.names_iff_exists_start.mp named
      have recorded := Index.mem_blocksWithMaxStart.mp listed
      refine ⟨start, recorded, ?_⟩
      rw [← starts.recorded p start recorded]
      exact (maxStart_lt_iff (starts.nonempty p named)).mpr expired
  refine ⟨fun p => ?_, fun t p => ?_, reclaimBefore_preview cutoff cold⟩
  · rw [names_reclaimBefore, decides]
    tauto
  · rw [maps_reclaimBefore, decides]

/-- A span flushed twice, the second copy with an earlier start. -/
def startedBefore : ColdState :=
  flushOne "t" 0 (flushOne "t" 0 {} 1 [spanAt "a" 20]) 2 [spanAt "a" 10]

def startedHour : Hour := { day := { year := 1970, month := 1, day := 1 }, hour := 0 }

def startedBlocks : List Candidate :=
  candidates startedBefore.files startedBefore.index.allBlockPaths

theorem startedBefore_run : ColdRun KeepsNewest startedBefore :=
  .next (.next (.start rfl) ⟨_, .flush "t" 0 [spanAt "a" 20] (by decide), trivial⟩)
    ⟨_, .flush "t" 0 [spanAt "a" 10] (by decide), trivial⟩

/-- The merge of the two keeps the copy that started last. -/
theorem startedBefore_merge : ∃ after,
    MoveStep (.merge (.hour startedHour) startedBlocks) startedBefore after ∧
      KeepsNewest (.merge (.hour startedHour) startedBlocks) startedBefore := by
  have ready : Ready (.hour startedHour) startedBefore startedBlocks := by
    refine ⟨by decide, by decide, ?_⟩
    change ∀ c ∈ startedBlocks, slotOf c.rel = .hour startedHour
    decide +kernel
  have runs : (mergeChunk 0 (.hour startedHour) false
      { cold := startedBefore, report := { dryRun := false } } startedBlocks).isSome = true := by
    decide
  obtain ⟨run, ran⟩ := Option.isSome_iff_exists.mp runs
  refine ⟨run.cold, .merge ⟨ready, by decide, 0, _, run, rfl, rfl, ran⟩, ?_⟩
  change maxStart (firstCopies spanKey [] (inputRows startedBefore.files startedBlocks)) =
    maxStart (inputRows startedBefore.files startedBlocks)
  decide

theorem reclaim_exact_startedBefore : ∃ after,
    MoveStep (.merge (.hour startedHour) startedBlocks) startedBefore after ∧
      DropsExpired after 15 ∧ DropsExpired after 21 := by
  obtain ⟨after, merged, keeps⟩ := startedBefore_merge
  have reached : ColdRun KeepsNewest after := .next startedBefore_run ⟨_, merged, keeps⟩
  exact ⟨after, merged, reclaim_exact reached 15, reclaim_exact reached 21⟩

/-! ### A copy that started last -/

/-- A span flushed twice, the second copy with a later start. -/
def restarted : ColdState :=
  flushOne "t" 0 (flushOne "t" 0 {} 1 [spanAt "a" 10]) 2 [spanAt "a" 20]

theorem restarted_reachable : ColdReachable restarted :=
  .next (.next (.start rfl) (.flush "t" 0 [spanAt "a" 10] (by decide)))
    (.flush "t" 0 [spanAt "a" 20] (by decide))

/-- The hour's one block after a merge of the two. -/
def restartedMerged : BlockPath :=
  .merged { day := { year := 1970, month := 1, day := 1 }, hour := 0 } 1 2

/-- The merge keeps the copy that started at 10 and records 20: at the cutoff 15 the
block is expired and is kept. -/
theorem reclaim_keeps_expired : ∃ run, ColdReachable run.cold ∧
    mergeCold {} .full false nextYear restarted = some run ∧
    run.cold.index.Names restartedMerged ∧ Expired run.cold 15 restartedMerged ∧
    (reclaimBefore 15 false run.cold).1.index.Names restartedMerged := by
  have after : (mergeCold {} .full false nextYear restarted).any (fun run =>
      decide (run.cold.index.Names restartedMerged) &&
        decide (Expired run.cold 15 restartedMerged) &&
        decide ((reclaimBefore 15 false run.cold).1.index.Names restartedMerged)) = true := by
    decide
  cases ran : mergeCold {} .full false nextYear restarted with
  | none =>
    rw [ran] at after
    cases after
  | some run =>
    rw [ran] at after
    simp only [Option.any_some, Bool.and_eq_true, decide_eq_true_eq] at after
    obtain ⟨⟨named, expired⟩, kept⟩ := after
    exact ⟨run, .next restarted_reachable (.merge _ _ _ _ ran), rfl, named, expired, kept⟩

end Evald.Store
