import Evald.Store.CrashSafety
import Evald.Store.Expiry

/-! # Blocks that are put away

The invariants of the running store say that no key is ever lost, so they are not kept by
retention, which drops blocks.  They are carried over by following a store with a second cold
tier, in which a dropped block is not gone but put away under a name that no flush and no
merge ever gives (`WithAttic`).  Each step on the cold tier has its counterpart here.
-/

namespace Evald.Store

open Evald.Lib

/-! ## The attic -/

/-- A name for a block that is put away: segments count from 1, so no flush gives it. -/
def InAttic (p : BlockPath) : Prop := ∃ hour idx, p = .flush hour 0 idx

theorem not_inAttic_flush {hour : Hour} {seqno idx : Nat} (positive : 0 < seqno) :
    ¬ InAttic (.flush hour seqno idx) := by
  rintro ⟨hour', idx', same⟩
  injection same with _ zero
  omega

theorem not_inAttic_outRel (dir : Slot) (chunk : List Candidate) :
    ¬ InAttic (outRel dir chunk) := by
  rintro ⟨hour, idx, same⟩
  cases dir <;> cases same

/-- There is always room in the attic. -/
theorem exists_inAttic (index : Index) : ∃ p, InAttic p ∧ ¬ index.Names p := by
  have inj : Function.Injective (fun n => BlockPath.flush (partitionOf 0) 0 n) := by
    intro m n same
    injection same
  obtain ⟨p, ⟨n, rfl⟩, free⟩ :=
    (Set.infinite_range_of_injective inj).exists_notMem_finset index.allBlockPaths.toFinset
  refine ⟨.flush (partitionOf 0) 0 n, ⟨_, n, rfl⟩, fun named => free ?_⟩
  rw [List.mem_toFinset, Index.mem_allBlockPaths]
  exact named

/-- `full` is `cold` with an attic: the blocks in it are old, and elsewhere the two agree. -/
structure WithAttic (newest : Nat) (cold full : ColdState) : Prop where
  watermark : full.index.watermark = cold.index.watermark
  starts : ∀ p, ¬ InAttic p → full.index.blocks[p]? = cold.index.blocks[p]?
  files : ∀ p, ¬ InAttic p →
    (full.files[p]?).map BlockFile.content = (cold.files[p]?).map BlockFile.content
  unnamed : ∀ p, InAttic p → ¬ cold.index.Names p
  unstored : ∀ p, InAttic p → cold.files[p]? = none
  indexed : ∀ p, InAttic p → ¬ full.index.Names p → full.files[p]? = none
  old : ∀ p, InAttic p → full.index.Names p →
    ∀ span ∈ rowsAt full.files p, span.startUnixNano < newest

theorem rowsAt_eq_of_content {files files' : Files} {p : BlockPath}
    (same : (files'[p]?).map BlockFile.content = (files[p]?).map BlockFile.content) :
    rowsAt files' p = rowsAt files p := by
  unfold rowsAt
  cases left : files'[p]? <;> cases right : files[p]? <;> simp_all [BlockFile.content]

theorem Index.names_congr {index index' : Index} {p : BlockPath}
    (same : index'.blocks[p]? = index.blocks[p]?) : index'.Names p ↔ index.Names p := by
  rw [Names, Names, Std.ExtTreeMap.mem_iff_isSome_getElem?, same,
    ← Std.ExtTreeMap.mem_iff_isSome_getElem?]

namespace WithAttic

variable {newest : Nat} {cold full : ColdState}

theorem names (attic : WithAttic newest cold full) {p : BlockPath} (outside : ¬ InAttic p) :
    full.index.Names p ↔ cold.index.Names p :=
  Index.names_congr (attic.starts p outside)

theorem names_of_names (attic : WithAttic newest cold full) {p : BlockPath}
    (named : cold.index.Names p) : ¬ InAttic p ∧ full.index.Names p := by
  have outside : ¬ InAttic p := fun inside => attic.unnamed p inside named
  exact ⟨outside, (attic.names outside).mpr named⟩

theorem rows (attic : WithAttic newest cold full) {p : BlockPath} (outside : ¬ InAttic p) :
    rowsAt full.files p = rowsAt cold.files p :=
  rowsAt_eq_of_content (attic.files p outside)

theorem empty : WithAttic 0 {} {} where
  watermark := rfl
  starts := fun _ _ => rfl
  files := fun _ _ => rfl
  unnamed := fun p _ => Index.names_empty p
  unstored := fun _ _ => Std.ExtTreeMap.getElem?_empty
  indexed := fun _ _ _ => Std.ExtTreeMap.getElem?_empty
  old := fun p _ named => absurd named (Index.names_empty p)

/-- The files change alike, and none in the attic that is indexed. -/
theorem refile (attic : WithAttic newest cold full) {files files' : Files}
    (alike : ∀ p, ¬ InAttic p →
      (files'[p]?).map BlockFile.content = (files[p]?).map BlockFile.content)
    (unstored : ∀ p, InAttic p → files[p]? = none)
    (kept : ∀ p, InAttic p → full.index.Names p → files'[p]? = full.files[p]?)
    (gone : ∀ p, InAttic p → ¬ full.index.Names p → files'[p]? = none) :
    WithAttic newest { cold with files := files } { full with files := files' } where
  watermark := attic.watermark
  starts := attic.starts
  files := alike
  unnamed := attic.unnamed
  unstored := unstored
  indexed := gone
  old := fun p inside named span member => by
    rw [rowsAt_eq_of_getElem? (kept p inside named)] at member
    exact attic.old p inside named span member

/-- One file is written in both. -/
theorem insert (attic : WithAttic newest cold full) {p : BlockPath} (outside : ¬ InAttic p)
    (file : BlockFile) :
    WithAttic newest { cold with files := cold.files.insert p file }
      { full with files := full.files.insert p file } := by
  have other : ∀ (files : Files) (q : BlockPath), InAttic q →
      (files.insert p file)[q]? = files[q]? := by
    intro files q inside
    rw [Std.ExtTreeMap.getElem?_insert, if_neg]
    intro same
    rw [Std.LawfulEqOrd.compare_eq_iff_eq] at same
    exact outside (same ▸ inside)
  refine attic.refile (fun q out => ?_) (fun q inside => ?_) (fun q inside _ => other _ q inside)
    (fun q inside free => ?_)
  · rw [Std.ExtTreeMap.getElem?_insert, Std.ExtTreeMap.getElem?_insert]
    split
    · rfl
    · exact attic.files q out
  · rw [other _ q inside]
    exact attic.unstored q inside
  · rw [other _ q inside]
    exact attic.indexed q inside free

/-- Files that `full` does not name are unlinked in both. -/
theorem erase (attic : WithAttic newest cold full) {files files' : Files}
    (gone : BlockPath → Prop) (unindexed : ∀ p, gone p → ¬ full.index.Names p)
    (erased : ∀ p, gone p → files[p]? = none ∧ files'[p]? = none)
    (kept : ∀ p, ¬ gone p → files[p]? = cold.files[p]? ∧ files'[p]? = full.files[p]?) :
    WithAttic newest { cold with files := files } { full with files := files' } := by
  refine attic.refile (fun p outside => ?_) (fun p inside => ?_) (fun p _ named => ?_)
    (fun p inside free => ?_)
  · by_cases away : gone p
    · rw [(erased p away).1, (erased p away).2]
    · rw [(kept p away).1, (kept p away).2]
      exact attic.files p outside
  · by_cases away : gone p
    · exact (erased p away).1
    · rw [(kept p away).1]
      exact attic.unstored p inside
  · exact (kept p (fun away => unindexed p away named)).2
  · by_cases away : gone p
    · exact (erased p away).2
    · rw [(kept p away).2]
      exact attic.indexed p inside free

end WithAttic

/-! ## Flushes and merges -/

/-- A flush is recorded in both. -/
theorem WithAttic.commit {newest : Nat} {cold full : ColdState}
    (attic : WithAttic newest cold full) {seqno : Nat} (positive : 0 < seqno)
    (spans : List NormalizedSpan) :
    WithAttic newest
      { cold with
        index := cold.index.commitFlush seqno
          ((flushPlan seqno spans).map (fun b => blockMeta b.1 b.2)) }
      { full with
        index := full.index.commitFlush seqno
          ((flushPlan seqno spans).map (fun b => blockMeta b.1 b.2)) } := by
  -- a flush has a positive sequence number, so its blocks are not in the attic
  have outside : ∀ block ∈ flushPlan seqno spans, ¬ InAttic block.1 := by
    intro block member
    obtain ⟨hour, idx, path, -⟩ := mem_flushPlan member
    rw [path]
    exact not_inAttic_flush positive
  have named : ∀ (index : Index) (p : BlockPath), InAttic p →
      ((index.commitFlush seqno
        ((flushPlan seqno spans).map (fun b => blockMeta b.1 b.2))).Names p ↔ index.Names p) := by
    intro index p inside
    rw [names_commitPlan]
    refine or_iff_right ?_
    rintro ⟨block, member, rfl⟩
    exact outside block member inside
  have starts : ∀ (blocks : List BlockMeta) {index index' : Index} (p : BlockPath),
      index'.blocks[p]? = index.blocks[p]? →
        (index'.commitFlush seqno blocks).blocks[p]? =
          (index.commitFlush seqno blocks).blocks[p]? := by
    intro blocks
    change ∀ {index index' : Index} (p : BlockPath), index'.blocks[p]? = index.blocks[p]? →
      (blocks.foldl Index.recordBlock index').blocks[p]? =
        (blocks.foldl Index.recordBlock index).blocks[p]?
    induction blocks with
    | nil => exact fun p same => same
    | cons b blocks inductionHypothesis =>
      intro index index' p same
      apply inductionHypothesis
      rw [Index.getElem?_blocks_recordBlock, Index.getElem?_blocks_recordBlock, same]
  exact {
    watermark := rfl
    starts := fun p out => starts _ p (attic.starts p out)
    files := attic.files
    unnamed := fun p inside named' => attic.unnamed p inside ((named _ p inside).mp named')
    unstored := attic.unstored
    indexed := fun p inside unnamed =>
      attic.indexed p inside (fun old => unnamed ((named _ p inside).mpr old))
    old := fun p inside named' => attic.old p inside ((named _ p inside).mp named') }

/-- A chunk is merged in both. -/
theorem WithAttic.swap {newest stamp : Nat} {dir : Slot} {chunk : List Candidate}
    {before after before' after' : MergeRun} (attic : WithAttic newest before.cold before'.cold)
    (named : ∀ c ∈ chunk, before.cold.index.Names c.rel)
    (swaps : Swaps stamp dir chunk before after) (swaps' : Swaps stamp dir chunk before' after') :
    WithAttic newest after.cold after'.cold := by
  have outside : ∀ c ∈ chunk, ¬ InAttic c.rel :=
    fun c member => (attic.names_of_names (named c member)).1
  have notOutput : ∀ p, InAttic p → p ≠ outRel dir chunk :=
    fun p inside same => not_inAttic_outRel dir chunk (same ▸ inside)
  have inputs : inputRows before'.cold.files chunk = inputRows before.cold.files chunk :=
    List.flatMap_congr (fun c member => attic.rows (outside c member))
  refine ⟨?_, fun p out => ?_, fun p out => ?_, fun p inside named' => ?_, fun p inside => ?_,
    fun p inside unnamed => ?_, fun p inside named' span member => ?_⟩
  · rw [swaps.watermark, swaps'.watermark, attic.watermark]
  · rw [swaps.starts, swaps'.starts, inputs, attic.starts p out]
  · by_cases isOutput : p = outRel dir chunk
    · rw [isOutput, swaps.output, swaps'.output, inputs]
    · rw [swaps.contents p isOutput, swaps'.contents p isOutput, attic.files p out]
  · exact attic.unnamed p inside
      (((swaps.names p).mp named').resolve_left (notOutput p inside)).2
  · have same := swaps.contents p (notOutput p inside)
    rw [attic.unstored p inside] at same
    exact Option.map_eq_none_iff.mp same
  · have free : ¬ before'.cold.index.Names p := by
      intro old
      refine unnamed ((swaps'.names p).mpr (.inr ⟨fun c member same => ?_, old⟩))
      exact outside c member (same ▸ inside)
    have same := swaps'.contents p (notOutput p inside)
    rw [attic.indexed p inside free] at same
    exact Option.map_eq_none_iff.mp same
  · rw [swaps'.rowsAt_other (notOutput p inside)] at member
    have old := ((swaps'.names p).mp named').resolve_left (notOutput p inside)
    exact attic.old p inside old.2 span member

/-! ## The rows of the blocks -/

/-- What the rows of the indexed blocks are known to be. -/
structure RowsOk (known : NormalizedSpan → Prop) (cold : ColdState) : Prop where
  known : ∀ p, cold.index.Names p → ∀ span ∈ rowsAt cold.files p, known span
  recorded : ∀ (p : BlockPath) (start : Nat), cold.index.blocks[p]? = some start →
    ∀ span ∈ rowsAt cold.files p, span.startUnixNano ≤ start

theorem RowsOk.mono {known known' : NormalizedSpan → Prop} {cold : ColdState}
    (ok : RowsOk known cold) (more : ∀ span, known span → known' span) : RowsOk known' cold where
  known := fun p named span member => more span (ok.known p named span member)
  recorded := ok.recorded

theorem RowsOk.refile {known : NormalizedSpan → Prop} {cold : ColdState} {files : Files}
    (ok : RowsOk known cold)
    (kept : ∀ p, cold.index.Names p → rowsAt files p = rowsAt cold.files p) :
    RowsOk known { cold with files := files } where
  known := fun p named span member => ok.known p named span (kept p named ▸ member)
  recorded := fun p start recorded span member =>
    ok.recorded p start recorded span (kept p (Index.names_of_recorded recorded) ▸ member)

theorem RowsOk.commit {known : NormalizedSpan → Prop} {cold : ColdState} (ok : RowsOk known cold)
    {seqno : Nat} {spans : List NormalizedSpan}
    (written : Written cold.files (flushPlan seqno spans)) (genuine : ∀ span ∈ spans, known span) :
    RowsOk known { cold with
      index := cold.index.commitFlush seqno
        ((flushPlan seqno spans).map (fun b => blockMeta b.1 b.2)) } := by
  have rows : ∀ block ∈ flushPlan seqno spans, rowsAt cold.files block.1 = block.2 := by
    intro block member
    obtain ⟨file, found, same⟩ := written block member
    rw [rowsAt, found]
    exact same
  have metas : ((flushPlan seqno spans).map (fun b => blockMeta b.1 b.2)).map BlockMeta.relPath =
      (flushPlan seqno spans).map Prod.fst := by
    rw [List.map_map]
    rfl
  refine ⟨fun p named span member => ?_, fun p start recorded span member => ?_⟩
  · cases names_commitPlan.mp named with
    | inl planned =>
      obtain ⟨block, inPlan, rfl⟩ := planned
      obtain ⟨hour, idx, -, kept, -⟩ := mem_flushPlan inPlan
      change span ∈ rowsAt cold.files block.1 at member
      rw [rows block inPlan, kept] at member
      exact genuine span (mem_of_mem_firstCopies (List.mem_filter.mp member).1)
    | inr old => exact ok.known p old span member
  -- the start that is recorded is that of the block, or it was there before
  · by_cases planned : ∃ block ∈ flushPlan seqno spans, block.1 = p
    · obtain ⟨block, inPlan, rfl⟩ := planned
      have newest : (cold.index.commitFlush seqno
          ((flushPlan seqno spans).map (fun b => blockMeta b.1 b.2))).blocks[block.1]? =
            some (maxStart block.2) :=
        Index.getElem?_blocks_commitFlush (metas ▸ nodup_paths_flushPlan seqno spans)
          (List.mem_map_of_mem (f := fun b => blockMeta b.1 b.2) inPlan)
      change span ∈ rowsAt cold.files block.1 at member
      rw [rows block inPlan] at member
      have same : maxStart block.2 = start := Option.some.inj (newest.symm.trans recorded)
      exact same ▸ le_maxStart member
    · push Not at planned
      have old : (cold.index.commitFlush seqno
          ((flushPlan seqno spans).map (fun b => blockMeta b.1 b.2))).blocks[p]? =
            cold.index.blocks[p]? := by
        apply Index.getElem?_blocks_commitFlush_other
        intro b listed
        obtain ⟨block, inPlan, rfl⟩ := List.mem_map.mp listed
        exact planned block inPlan
      exact ok.recorded p start (old ▸ recorded) span member

theorem RowsOk.swap {known : NormalizedSpan → Prop} {stamp : Nat} {dir : Slot}
    {chunk : List Candidate} {before after : MergeRun} (ok : RowsOk known before.cold)
    (named : ∀ c ∈ chunk, before.cold.index.Names c.rel)
    (swaps : Swaps stamp dir chunk before after) : RowsOk known after.cold := by
  refine ⟨fun p named' span member => ?_, fun p start recorded span member => ?_⟩
  · by_cases isOutput : p = outRel dir chunk
    · rw [isOutput, swaps.rowsAt_output] at member
      obtain ⟨c, inChunk, inBlock⟩ := List.mem_flatMap.mp (mem_of_mem_firstCopies member)
      exact ok.known c.rel (named c inChunk) span inBlock
    · rw [swaps.rowsAt_other isOutput] at member
      exact ok.known p (((swaps.names p).mp named').resolve_left isOutput).2 span member
  · rw [swaps.starts] at recorded
    by_cases isOutput : p = outRel dir chunk
    · rw [if_pos isOutput.symm, Option.some.injEq] at recorded
      rw [isOutput, swaps.rowsAt_output] at member
      exact recorded ▸ le_maxStart (mem_of_mem_firstCopies member)
    · rw [if_neg (Ne.symm isOutput)] at recorded
      rw [swaps.rowsAt_other isOutput] at member
      split at recorded
      · cases recorded
      · exact ok.recorded p start recorded span member

/-! ## Putting a block away -/

/-- Recording a block that is on disk at a path that has no name yet. -/
theorem TraceInvariant.record {cold : ColdState} (invariant : TraceInvariant cold)
    {b : BlockMeta} {rows : List NormalizedSpan} {file : BlockFile}
    (traces : ∀ t, t ∈ b.traceIds ↔ ∃ s ∈ rows, s.traceId = t)
    (fresh : ¬ cold.index.Names b.relPath) (found : cold.files[b.relPath]? = some file)
    (holds : file.rows = rows)
    (flushed : ∀ hour seqno idx, b.relPath = .flush hour seqno idx →
      seqno ≤ cold.index.watermark) :
    TraceInvariant { cold with index := cold.index.recordBlock b } := by
  have here : rowsAt cold.files b.relPath = rows := by rw [rowsAt, found, ← holds]
  refine ⟨fun t p => ?_, fun p named => ?_, fun hour seqno idx named => ?_⟩
  · rw [Index.maps_recordBlock, Index.names_recordBlock, invariant.exact]
    change _ ↔ _ ∧ HoldsTrace cold t p
    by_cases isNew : p = b.relPath
    · subst isNew
      rw [HoldsTrace, here]
      simp only [true_and, fresh, false_and, or_false, traces]
    · simp only [isNew, false_and, false_or]
  · cases Index.names_recordBlock.mp named with
    | inl isNew => exact ⟨file, isNew ▸ found⟩
    | inr old => exact invariant.stored p old
  · change seqno ≤ cold.index.watermark
    cases Index.names_recordBlock.mp named with
    | inl isNew => exact flushed hour seqno idx isNew.symm
    | inr old => exact invariant.flushed hour seqno idx old

/-- `full'` is `full` with the blocks at `paths` in the attic. -/
structure PutsAway (paths : List BlockPath) (full full' : ColdState) : Prop where
  watermark : full'.index.watermark = full.index.watermark
  starts : ∀ p, ¬ InAttic p →
    full'.index.blocks[p]? = if p ∈ paths then none else full.index.blocks[p]?
  files : ∀ p, ¬ InAttic p → full'.files[p]? = full.files[p]?
  indexed : (∀ p, InAttic p → ¬ full.index.Names p → full.files[p]? = none) →
    ∀ p, InAttic p → ¬ full'.index.Names p → full'.files[p]? = none
  attic : ∀ p, InAttic p → full'.index.Names p →
    (full.index.Names p ∧ rowsAt full'.files p = rowsAt full.files p) ∨
      ∃ q ∈ paths, full.index.Names q ∧ rowsAt full'.files p = rowsAt full.files q
  holds : ∀ k, full'.Holds k ↔ full.Holds k

/-- Nothing to put away. -/
theorem PutsAway.refl (full : ColdState) : PutsAway [] full full where
  watermark := rfl
  starts := fun _ _ => by simp
  files := fun _ _ => rfl
  indexed := fun stored => stored
  attic := fun _ _ named => .inl ⟨named, rfl⟩
  holds := fun _ => .rfl

/-- Put the block at `p` away as `g`. -/
def putAway (full : ColdState) (p g : BlockPath) (file : BlockFile) (start : Nat) : ColdState where
  index := (full.index.dropBlocks [p]).recordBlock
    { relPath := g, maxStartUnixNano := start, traceIds := traceSet file.rows }
  files := full.files.insert g file

section

variable {known : NormalizedSpan → Prop} {full : ColdState} {p g : BlockPath} {file : BlockFile}
  {start : Nat}

theorem names_putAway {q : BlockPath} :
    (putAway full p g file start).index.Names q ↔ q = g ∨ q ≠ p ∧ full.index.Names q := by
  rw [putAway, Index.names_recordBlock, Index.names_dropBlocks, List.mem_singleton]

theorem starts_putAway (q : BlockPath) : (putAway full p g file start).index.blocks[q]? =
    if g = q then some start else if q ∈ [p] then none else full.index.blocks[q]? := by
  rw [putAway, Index.getElem?_blocks_recordBlock, Index.getElem?_blocks_dropBlocks]

theorem files_putAway (q : BlockPath) : (putAway full p g file start).files[q]? =
    if g = q then some file else full.files[q]? := by
  rw [putAway, Std.ExtTreeMap.getElem?_insert]
  simp only [Std.LawfulEqOrd.compare_eq_iff_eq]

theorem rows_putAway (q : BlockPath) : rowsAt (putAway full p g file start).files q =
    if g = q then file.rows else rowsAt full.files q := by
  by_cases isNew : g = q
  · rw [rowsAt, files_putAway, if_pos isNew, if_pos isNew]
  · rw [rowsAt, files_putAway, if_neg isNew, if_neg isNew]
    rfl

theorem TraceInvariant.putAway (trace : TraceInvariant full) (inside : InAttic g)
    (free : ¬ full.index.Names g) : TraceInvariant (putAway full p g file start) := by
  have dropped : TraceInvariant { full with index := full.index.dropBlocks [p] } :=
    trace.step (.drop [p])
  have unnamed : ¬ (full.index.dropBlocks [p]).Names g :=
    fun named => free (Index.names_dropBlocks.mp named).2
  have written : TraceInvariant
      { index := full.index.dropBlocks [p], files := full.files.insert g file } := by
    refine dropped.refile rfl (fun q named => ?_)
    change (full.files.insert g file)[q]? = full.files[q]?
    rw [Std.ExtTreeMap.getElem?_insert, if_neg]
    intro same
    rw [Std.LawfulEqOrd.compare_eq_iff_eq] at same
    exact unnamed (same ▸ named)
  refine written.record (fun t => mem_traceSet) unnamed ?_ rfl ?_
  · change (full.files.insert g file)[g]? = some file
    rw [Std.ExtTreeMap.getElem?_insert_self]
  · intro hour seqno idx path
    obtain ⟨hour', idx', attic⟩ := inside
    rw [attic] at path
    injection path with _ zero
    exact zero ▸ Nat.zero_le _

theorem RowsOk.putAway (ok : RowsOk known full) (found : full.files[p]? = some file)
    (recorded : full.index.blocks[p]? = some start) :
    RowsOk known (putAway full p g file start) := by
  have named : full.index.Names p := Index.names_of_recorded recorded
  have here : rowsAt full.files p = file.rows := by rw [rowsAt, found]
  refine ⟨fun q named' span member => ?_, fun q start' recorded' span member => ?_⟩
  · rw [rows_putAway] at member
    split at member
    · exact ok.known p named span (here ▸ member)
    · next other =>
      have old := (names_putAway.mp named').resolve_left (Ne.symm other)
      exact ok.known q old.2 span member
  · rw [rows_putAway] at member
    rw [starts_putAway] at recorded'
    split at member
    · next isNew =>
      rw [if_pos isNew, Option.some.injEq] at recorded'
      exact recorded' ▸ ok.recorded p start recorded span (here ▸ member)
    · next other =>
      rw [if_neg other] at recorded'
      split at recorded'
      · cases recorded'
      · exact ok.recorded q start' recorded' span member

theorem putsAway_one (outside : ¬ InAttic p) (inside : InAttic g) (free : ¬ full.index.Names g)
    (found : full.files[p]? = some file) (recorded : full.index.blocks[p]? = some start) :
    PutsAway [p] full (putAway full p g file start) := by
  have named : full.index.Names p := Index.names_of_recorded recorded
  have here : rowsAt full.files p = file.rows := by rw [rowsAt, found]
  have notAttic : ∀ q, ¬ InAttic q → g ≠ q := fun q out same => out (same ▸ inside)
  refine ⟨rfl, fun q out => ?_, fun q out => ?_, fun stored q _ unnamed => ?_,
    fun q _ named' => ?_, fun k => ?_⟩
  · rw [starts_putAway, if_neg (notAttic q out)]
  · rw [files_putAway, if_neg (notAttic q out)]
  · rw [names_putAway, not_or] at unnamed
    rw [files_putAway, if_neg (Ne.symm unnamed.1)]
    refine stored q ‹_› (fun old => unnamed.2 ⟨?_, old⟩)
    exact fun same => outside (same ▸ ‹InAttic q›)
  · rw [rows_putAway]
    split
    · exact .inr ⟨p, List.mem_singleton_self p, named, here.symm⟩
    · next other =>
      exact .inl ⟨((names_putAway.mp named').resolve_left (Ne.symm other)).2, rfl⟩
  · constructor
    · rintro ⟨q, named', held⟩
      rw [rows_putAway] at held
      split at held
      · exact ⟨p, named, here ▸ held⟩
      · next other =>
        exact ⟨q, ((names_putAway.mp named').resolve_left (Ne.symm other)).2, held⟩
    · rintro ⟨q, named', held⟩
      by_cases same : q = p
      · refine ⟨g, names_putAway.mpr (.inl rfl), ?_⟩
        rw [rows_putAway, if_pos rfl, ← here, ← same]
        exact held
      · refine ⟨q, names_putAway.mpr (.inr ⟨same, named'⟩), ?_⟩
        rw [rows_putAway, if_neg]
        · exact held
        · exact fun isNew => free (isNew ▸ named')

end

theorem PutsAway.cons {p : BlockPath} {paths : List BlockPath} {full middle full' : ColdState}
    (first : PutsAway [p] full middle) (rest : PutsAway paths middle full')
    (outside : ∀ q ∈ p :: paths, ¬ InAttic q) : PutsAway (p :: paths) full full' where
  watermark := rest.watermark.trans first.watermark
  starts := fun q out => by
    rw [rest.starts q out, first.starts q out]
    by_cases here : q = p <;> by_cases later : q ∈ paths <;> simp [here, later]
  files := fun q out => (rest.files q out).trans (first.files q out)
  indexed := fun stored => rest.indexed (first.indexed stored)
  attic := fun q inside named => by
    -- where a block of the middle state was at first
    have before : ∀ r, ¬ InAttic r → middle.index.Names r →
        full.index.Names r ∧ rowsAt middle.files r = rowsAt full.files r := by
      intro r out named'
      refine ⟨?_, rowsAt_eq_of_getElem? (first.files r out)⟩
      obtain ⟨start, listed⟩ := Index.names_iff_exists_start.mp named'
      have recorded := Index.mem_blocksWithMaxStart.mp listed
      rw [first.starts r out] at recorded
      split at recorded
      · cases recorded
      · exact Index.names_of_recorded recorded
    rcases rest.attic q inside named with ⟨named', same⟩ | ⟨r, member, named', same⟩
    · rcases first.attic q inside named' with ⟨named'', same'⟩ | ⟨r, member, named'', same'⟩
      · exact .inl ⟨named'', same.trans same'⟩
      · rw [List.mem_singleton.mp member] at named'' same'
        exact .inr ⟨p, List.mem_cons_self, named'', same.trans same'⟩
    · obtain ⟨old, same'⟩ := before r (outside r (List.mem_cons_of_mem p member)) named'
      exact .inr ⟨r, List.mem_cons_of_mem p member, old, same.trans same'⟩
  holds := fun k => (rest.holds k).trans (first.holds k)

/-- Any blocks can be put away. -/
theorem exists_putsAway {known : NormalizedSpan → Prop} (paths : List BlockPath)
    (outside : ∀ p ∈ paths, ¬ InAttic p) {full : ColdState} (trace : TraceInvariant full)
    (ok : RowsOk known full) :
    ∃ full', TraceInvariant full' ∧ RowsOk known full' ∧ PutsAway paths full full' := by
  induction paths generalizing full with
  | nil => exact ⟨full, trace, ok, .refl full⟩
  | cons p paths inductionHypothesis =>
    obtain ⟨here, later⟩ := List.forall_mem_cons.mp outside
    -- put the first one away, if it is there
    obtain ⟨middle, trace', ok', first⟩ : ∃ middle, TraceInvariant middle ∧ RowsOk known middle ∧
        PutsAway [p] full middle := by
      by_cases named : full.index.Names p
      · obtain ⟨file, found⟩ := trace.stored p named
        obtain ⟨start, listed⟩ := Index.names_iff_exists_start.mp named
        have recorded := Index.mem_blocksWithMaxStart.mp listed
        obtain ⟨g, inside, free⟩ := exists_inAttic full.index
        exact ⟨putAway full p g file start, trace.putAway inside free, ok.putAway found recorded,
          putsAway_one here inside free found recorded⟩
      · have absent : full.index.blocks[p]? = none := by
          rw [Index.Names, Std.ExtTreeMap.mem_iff_isSome_getElem?, Bool.not_eq_true,
            Option.isSome_eq_false_iff, Option.isNone_iff_eq_none] at named
          exact named
        refine ⟨full, trace, ok, { PutsAway.refl full with
          starts := fun q _ => ?_, attic := fun q _ named' => .inl ⟨named', rfl⟩ }⟩
        split
        · next same => rw [List.mem_singleton.mp same, absent]
        · rfl
    obtain ⟨full', trace'', ok'', rest⟩ := inductionHypothesis later trace' ok'
    exact ⟨full', trace'', ok'', first.cons rest outside⟩

/-! ## What retention drops -/

/-- The blocks that a retention sweep at the cutoff drops. -/
def dropPaths (cutoff : Nat) (index : Index) : List BlockPath :=
  (index.blocksWithMaxStart.filter (fun b => b.2 < cutoff)).map Prod.fst

theorem reclaimBefore_eq (cutoff : Nat) (cold : ColdState) :
    (reclaimBefore cutoff false cold).1 =
      { index := cold.index.dropBlocks (dropPaths cutoff cold.index)
        files := eraseAll cold.files (dropPaths cutoff cold.index) } := by
  unfold reclaimBefore
  dsimp only
  split
  · rfl
  · next nothing =>
    have none : dropPaths cutoff cold.index = [] := by simpa [dropPaths] using nothing
    rw [none]
    rfl

/-- Dropping the blocks before the cutoff from the index is putting them away. -/
theorem WithAttic.drop {newest : Nat} {cold full full' : ColdState} {cutoff : Nat}
    {known : NormalizedSpan → Prop} (attic : WithAttic newest cold full)
    (ok : RowsOk known full) (away : PutsAway (dropPaths cutoff cold.index) full full') :
    WithAttic (max newest cutoff)
      { cold with index := cold.index.dropBlocks (dropPaths cutoff cold.index) } full' where
  watermark := by
    change _ = (cold.index.dropBlocks _).watermark
    rw [away.watermark, attic.watermark, Index.watermark_dropBlocks]
  starts := fun p outside => by
    rw [away.starts p outside, Index.getElem?_blocks_dropBlocks, attic.starts p outside]
  files := fun p outside => by
    rw [away.files p outside]
    exact attic.files p outside
  unnamed := fun p inside named => attic.unnamed p inside (Index.names_dropBlocks.mp named).2
  unstored := attic.unstored
  indexed := away.indexed attic.indexed
  old := fun p inside named span member => by
    rcases away.attic p inside named with ⟨named', same⟩ | ⟨q, dropped, named', same⟩
    · exact (attic.old p inside named' span (same ▸ member)).trans_le (le_max_left _ _)
    · obtain ⟨start, recorded, before⟩ := mem_dropPaths.mp dropped
      have outside := (attic.names_of_names (Index.names_of_recorded recorded)).1
      rw [← attic.starts q outside] at recorded
      have bounded := ok.recorded q start recorded span (same ▸ member)
      exact (bounded.trans_lt before).trans_le (le_max_right _ _)

end Evald.Store
