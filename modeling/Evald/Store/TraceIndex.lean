import Evald.Store.MergeKeys
import Evald.Store.Query

/-! # The trace index is exact

Over every sequence of flush, merge and drop commits the index maps a trace to the
blocks it names that hold a row of it, and to no other (`TraceInvariant`).  The
read path then sees the same spans through the trace listing as through the
listing of all blocks, which is `query_trace_eq_filter`.
-/

namespace Evald.Store

open Evald.Lib

/-- Some row of the block is of trace `t`. -/
def HoldsTrace (cold : ColdState) (t : String) (p : BlockPath) : Prop :=
  ∃ s ∈ rowsAt cold.files p, s.traceId = t

structure TraceInvariant (cold : ColdState) : Prop where
  exact : ∀ t p, cold.index.Maps t p ↔ cold.index.Names p ∧ HoldsTrace cold t p
  stored : ∀ p, cold.index.Names p → ∃ file, cold.files[p]? = some file
  flushed : ∀ hour seqno idx, cold.index.Names (.flush hour seqno idx) →
    seqno ≤ cold.index.watermark

/-- One commit on the index, with the files it is about, or the unlinking of a file
the index does not name.  A flush is of a segment above the watermark; a merge may
take any chunk, and does not reuse the path of an indexed block. -/
inductive TraceStep : ColdState → ColdState → Prop where
  | flush {cold : ColdState} {seqno : Nat} (priceTable : String) (now : Nat)
      (spans : List NormalizedSpan) (pending : cold.index.watermark < seqno) :
      TraceStep cold (flushOne priceTable now cold seqno spans)
  | merge {run after : MergeRun} (stamp : Nat) (dir : Slot) (dryRun : Bool)
      (chunk : List Candidate) (fresh : ¬ run.cold.index.Names (outRel dir chunk))
      (ran : mergeChunk stamp dir dryRun run chunk = some after) : TraceStep run.cold after.cold
  | drop {cold : ColdState} (paths : List BlockPath) :
      TraceStep cold { cold with index := cold.index.dropBlocks paths }
  | unlink {cold : ColdState} (paths : List BlockPath)
      (unindexed : ∀ p ∈ paths, ¬ cold.index.Names p) :
      TraceStep cold { cold with files := eraseAll cold.files paths }

abbrev TraceReachable : ColdState → Prop := Reachable (fun cold => cold = {}) TraceStep

/-! ## Each commit keeps it exact -/

theorem traceInvariant_empty : TraceInvariant {} where
  exact := fun t p => ⟨fun mapped => absurd mapped (Index.maps_empty t p),
    fun named => absurd named.1 (Index.names_empty p)⟩
  stored := fun p named => absurd named (Index.names_empty p)
  flushed := fun _ _ _ named => absurd named (Index.names_empty _)

/-- Only the files of indexed blocks matter. -/
theorem TraceInvariant.refile {cold cold' : ColdState} (invariant : TraceInvariant cold)
    (index : cold'.index = cold.index)
    (kept : ∀ p, cold.index.Names p → cold'.files[p]? = cold.files[p]?) :
    TraceInvariant cold' where
  exact := fun t p => by
    rw [index, invariant.exact]
    refine and_congr_right (fun named => ?_)
    rw [HoldsTrace, HoldsTrace, rowsAt_eq_of_getElem? (kept p named)]
  stored := fun p named => by
    rw [index] at named
    rw [kept p named]
    exact invariant.stored p named
  flushed := fun hour seqno idx named => by
    rw [index] at named ⊢
    exact invariant.flushed hour seqno idx named

/-- A plan for a segment above the watermark is for paths the index does not name. -/
theorem TraceInvariant.flush_fresh {cold : ColdState} (invariant : TraceInvariant cold)
    {seqno : Nat} (pending : cold.index.watermark < seqno) {spans : List NormalizedSpan}
    {block : BlockPath × List NormalizedSpan} (member : block ∈ flushPlan seqno spans) :
    ¬ cold.index.Names block.1 := by
  intro named
  obtain ⟨hour, idx, path, -⟩ := mem_flushPlan member
  rw [path] at named
  exact absurd (invariant.flushed hour seqno idx named) (not_le.mpr pending)

/-- The blocks of a plan are on disk as planned. -/
def Written (files : Files) (plan : List (BlockPath × List NormalizedSpan)) : Prop :=
  ∀ block ∈ plan, ∃ file, files[block.1]? = some file ∧ file.rows = block.2

/-- One more block of a plan is written. -/
theorem Written.next {files : Files} {written : List (BlockPath × List NormalizedSpan)}
    {block : BlockPath × List NormalizedSpan} (onDisk : Written files written)
    (distinct : ((written ++ [block]).map Prod.fst).Nodup) (priceTable : String)
    (now seqno : Nat) :
    Written (writePlanned priceTable now seqno files block) (written ++ [block]) := by
  intro b member
  rw [writePlanned, getElem?_writeBlock]
  cases List.mem_append.mp member with
  | inl old =>
    rw [if_neg]
    · exact onDisk b old
    · intro same
      rw [List.map_append, List.nodup_append] at distinct
      exact distinct.2.2 _ (List.mem_map_of_mem old) _ (by simp) same.symm
  | inr new =>
    rw [List.mem_singleton.mp new, if_pos rfl]
    exact ⟨_, rfl, rfl⟩

theorem names_commitPlan {index : Index} {seqno : Nat}
    {plan : List (BlockPath × List NormalizedSpan)} {p : BlockPath} :
    (index.commitFlush seqno (plan.map (fun b => blockMeta b.1 b.2))).Names p ↔
      (∃ block ∈ plan, p = block.1) ∨ index.Names p := by
  rw [Index.names_commitFlush]
  simp only [List.mem_map, exists_exists_and_eq_and, blockMeta]

/-- Committing a written plan. -/
theorem TraceInvariant.commit {cold : ColdState} (invariant : TraceInvariant cold) {seqno : Nat}
    (pending : cold.index.watermark < seqno) {spans : List NormalizedSpan}
    (written : Written cold.files (flushPlan seqno spans)) :
    TraceInvariant
      { cold with
        index := cold.index.commitFlush seqno
          ((flushPlan seqno spans).map (fun b => blockMeta b.1 b.2)) } := by
  refine ⟨fun t p => ?_, fun p named => ?_, fun hour seqno' idx named => ?_⟩
  · rw [Index.maps_commitFlush]
    change _ ↔ (cold.index.commitFlush seqno _).Names p ∧ HoldsTrace cold t p
    rw [names_commitPlan]
    -- a block of the flush is mapped by its meta only, any other as before
    by_cases planned : ∃ block ∈ flushPlan seqno spans, p = block.1
    · obtain ⟨block, member, rfl⟩ := planned
      obtain ⟨file, found, rows⟩ := written block member
      have rowsHere : rowsAt cold.files block.1 = block.2 := by
        rw [rowsAt, found]
        exact rows
      have unmapped : ¬ cold.index.Maps t block.1 :=
        fun mapped => invariant.flush_fresh pending member ((invariant.exact t block.1).mp mapped).1
      rw [or_iff_left unmapped, HoldsTrace, rowsHere]
      constructor
      · rintro ⟨b, bMember, path, holds⟩
        obtain ⟨other, otherMember, rfl⟩ := List.mem_map.mp bMember
        have same := List.inj_on_of_nodup_map (nodup_paths_flushPlan seqno spans) member
          otherMember path
        exact ⟨.inl ⟨block, member, rfl⟩, same ▸ mem_traceSet.mp holds⟩
      · rintro ⟨-, holds⟩
        exact ⟨_, List.mem_map_of_mem member, rfl, mem_traceSet.mpr holds⟩
    · have unplanned : ¬ ∃ b ∈ (flushPlan seqno spans).map (fun b => blockMeta b.1 b.2),
          p = b.relPath ∧ t ∈ b.traceIds := by
        rintro ⟨b, bMember, path, -⟩
        obtain ⟨block, member, rfl⟩ := List.mem_map.mp bMember
        exact planned ⟨block, member, path⟩
      rw [or_iff_right unplanned, or_iff_right planned, invariant.exact]
  · rcases names_commitPlan.mp named with ⟨block, member, rfl⟩ | old
    · obtain ⟨file, found, -⟩ := written block member
      exact ⟨file, found⟩
    · exact invariant.stored p old
  · change seqno' ≤ seqno
    rcases names_commitPlan.mp named with ⟨block, member, path⟩ | old
    · obtain ⟨_, _, ownPath, -⟩ := mem_flushPlan member
      rw [ownPath] at path
      injection path with _ same
      exact same.le
    · exact (invariant.flushed hour seqno' idx old).trans pending.le

theorem TraceInvariant.flush {cold : ColdState} (invariant : TraceInvariant cold) {seqno : Nat}
    (pending : cold.index.watermark < seqno) (priceTable : String) (now : Nat)
    (spans : List NormalizedSpan) : TraceInvariant (flushOne priceTable now cold seqno spans) := by
  have afterWrites : TraceInvariant
      { cold with
        files := (flushPlan seqno spans).foldl (writePlanned priceTable now seqno)
          cold.files } := by
    refine invariant.refile rfl (fun p named => getElem?_foldl_writePlanned_other ?_)
    exact fun block member same => invariant.flush_fresh pending member (same ▸ named)
  exact afterWrites.commit pending (fun block member =>
    ⟨_, getElem?_foldl_writePlanned (nodup_paths_flushPlan seqno spans) member, rfl⟩)

/-- A chunk that runs had all its inputs on disk. -/
theorem stored_of_mergeChunk {stamp : Nat} {dir : Slot} {run after : MergeRun}
    {chunk : List Candidate} (apart : ∀ c ∈ chunk, c.rel ≠ outRel dir chunk)
    (ran : mergeChunk stamp dir false run chunk = some after) :
    ∀ c ∈ chunk, ∃ file, run.cold.files[c.rel]? = some file := by
  have noSelf : chunk.any (fun c => c.rel = outRel dir chunk) = false := by
    simpa using apart
  simp only [mergeChunk, noSelf, Bool.false_eq_true, if_false, Option.bind_eq_bind,
    Option.bind_eq_some_iff] at ran
  obtain ⟨inputs, opened, -⟩ := ran
  clear apart noSelf
  induction chunk generalizing inputs with
  | nil => exact fun c member => by cases member
  | cons c chunk inductionHypothesis =>
    simp only [List.mapM_cons, Option.bind_eq_bind, Option.bind_eq_some_iff] at opened
    obtain ⟨file, found, rest, restOpened, -⟩ := opened
    exact List.forall_mem_cons.mpr ⟨⟨file, found⟩, inductionHypothesis rest restOpened⟩

theorem TraceInvariant.swap {stamp : Nat} {dir : Slot} {chunk : List Candidate}
    {before after : MergeRun} (invariant : TraceInvariant before.cold)
    (fresh : ¬ before.cold.index.Names (outRel dir chunk))
    (swaps : Swaps stamp dir chunk before after) : TraceInvariant after.cold := by
  refine ⟨fun t p => ?_, fun p named => ?_, fun hour seqno idx named => ?_⟩
  · rw [swaps.maps, swaps.names]
    by_cases isOut : p = outRel dir chunk
    · subst isOut
      have unmapped : ¬ before.cold.index.Maps t (outRel dir chunk) :=
        fun mapped => fresh ((invariant.exact t _).mp mapped).1
      -- the output drops copies, but no trace
      have rows : HoldsTrace after.cold t (outRel dir chunk) ↔
          ∃ s ∈ inputRows before.cold.files chunk, s.traceId = t := by
        rw [HoldsTrace, swaps.rowsAt_output]
        constructor
        · rintro ⟨s, member, same⟩
          exact ⟨s, mem_of_mem_firstCopies member, same⟩
        · rintro ⟨s, member, same⟩
          have key : spanKey s ∈ (firstCopies spanKey [] (inputRows before.cold.files chunk)).map
              spanKey := (mem_keys_firstCopies_nil _ _ _).mpr (List.mem_map_of_mem member)
          obtain ⟨copy, copyMember, sameKey⟩ := List.mem_map.mp key
          exact ⟨copy, copyMember, (spanKey_eq_iff.mp sameKey).1.trans same⟩
      rw [rows]
      constructor
      · rintro (⟨-, holds⟩ | ⟨-, mapped⟩)
        · exact ⟨.inl rfl, holds⟩
        · exact absurd mapped unmapped
      · rintro ⟨-, holds⟩
        exact .inl ⟨rfl, holds⟩
    · rw [or_iff_right (fun out => isOut out.1), or_iff_right isOut, invariant.exact,
        HoldsTrace, HoldsTrace, swaps.rowsAt_other isOut]
      constructor
      · rintro ⟨unretired, named, holds⟩
        refine ⟨⟨fun c member same => ?_, named⟩, holds⟩
        exact unretired c member ⟨same, same ▸ holds⟩
      · rintro ⟨⟨notInput, named⟩, holds⟩
        exact ⟨fun c member retired => notInput c member retired.1, named, holds⟩
  · by_cases isOut : p = outRel dir chunk
    · exact ⟨_, isOut ▸ swaps.output⟩
    · rcases (swaps.names p).mp named with same | ⟨-, old⟩
      · exact absurd same isOut
      · obtain ⟨file, found⟩ := invariant.stored p old
        have same := swaps.contents p isOut
        rw [found] at same
        obtain ⟨file', found', -⟩ := Option.map_eq_some_iff.mp same
        exact ⟨file', found'⟩
  · rw [swaps.watermark]
    rcases (swaps.names _).mp named with out | ⟨-, old⟩
    · cases dir <;> cases out
    · exact invariant.flushed hour seqno idx old

theorem TraceInvariant.step {cold cold' : ColdState} (invariant : TraceInvariant cold)
    (stepped : TraceStep cold cold') : TraceInvariant cold' := by
  cases stepped with
  | flush priceTable now spans pending => exact invariant.flush pending priceTable now spans
  | @merge run after stamp dir dryRun chunk fresh ran =>
    by_cases self : chunk.any (fun c => c.rel = outRel dir chunk) = true
    · have skipped : mergeChunk stamp dir dryRun run chunk = some run := if_pos self
      rw [skipped] at ran
      cases ran
      exact invariant
    · have apart : ∀ c ∈ chunk, c.rel ≠ outRel dir chunk := by simpa using self
      cases dryRun with
      | true =>
        obtain ⟨after', ran', same, -⟩ := mergeChunk_dryRun stamp dir run chunk
        rw [ran] at ran'
        cases ran'
        rw [same]
        exact invariant
      | false =>
        obtain ⟨after', ran', swaps⟩ :=
          mergeChunk_swaps stamp (stored_of_mergeChunk apart ran) apart
        rw [ran] at ran'
        cases ran'
        exact invariant.swap fresh swaps
  | drop paths =>
    refine ⟨fun t p => ?_, fun p named => ?_, fun hour seqno idx named => ?_⟩
    · rw [Index.maps_dropBlocks, Index.names_dropBlocks, invariant.exact, and_assoc]
      rfl
    · exact invariant.stored p (Index.names_dropBlocks.mp named).2
    · rw [Index.watermark_dropBlocks]
      exact invariant.flushed hour seqno idx (Index.names_dropBlocks.mp named).2
  | unlink paths unindexed =>
    have kept : ∀ p, cold.index.Names p → (eraseAll cold.files paths)[p]? = cold.files[p]? :=
      fun p named => getElem?_eraseAll_not_mem (fun gone => unindexed p gone named)
    exact invariant.refile rfl kept

theorem TraceReachable.invariant {cold : ColdState} (reached : TraceReachable cold) :
    TraceInvariant cold :=
  Reachable.invariant (fun _ begins => begins ▸ traceInvariant_empty)
    (fun _ _ kept stepped => kept.step stepped) reached

/-! ## Reading through the index -/

/-- The blocks listed for a trace are those of the full listing that hold a row of it. -/
theorem blockPathsForTrace_eq {cold : ColdState} (invariant : TraceInvariant cold) (t : String) :
    cold.index.blockPathsForTrace t =
      cold.index.allBlockPaths.filter (fun p => (rowsAt cold.files p).any (·.traceId = t)) := by
  refine ordered_ext Std.ExtTreeSet.ordered_toList
    (Std.ExtTreeMap.ordered_keys.sublist List.filter_sublist) (fun p => ?_)
  rw [Index.mem_blockPathsForTrace, invariant.exact, List.mem_filter, Index.mem_allBlockPaths]
  simp [HoldsTrace]

theorem filter_listedRows_trace {cold : ColdState} (invariant : TraceInvariant cold)
    (t : String) :
    (listedRows cold.files (cold.index.blockPathsForTrace t)).filter (traceMatches (some t)) =
      (listedRows cold.files cold.index.allBlockPaths).filter (traceMatches (some t)) := by
  rw [blockPathsForTrace_eq invariant]
  induction cold.index.allBlockPaths with
  | nil => rfl
  | cons p paths inductionHypothesis =>
    rw [List.filter_cons]
    split
    · simp only [listedRows, List.flatMap_cons, List.filter_append] at inductionHypothesis ⊢
      rw [inductionHypothesis]
    · next none =>
      have nothing : (rowsAt cold.files p).filter (traceMatches (some t)) = [] := by
        simpa [List.filter_eq_nil_iff, traceMatches] using none
      simp only [listedRows, List.flatMap_cons, List.filter_append] at inductionHypothesis ⊢
      rw [inductionHypothesis, nothing, List.nil_append]

theorem firstCopies_filter_trace (t : Option String) (spans : List NormalizedSpan) :
    firstCopies spanKey [] (spans.filter (traceMatches t)) =
      (firstCopies spanKey [] spans).filter (traceMatches t) := by
  obtain ⟨keepKey, byKey⟩ := exists_traceMatches_byKey t
  exact firstCopies_filter byKey [] spans

/-- What a read of one trace takes is what a read of everything takes of that trace. -/
theorem readSpans_trace {cold : ColdState} (invariant : TraceInvariant cold) (hot : HotTier)
    (t : String) :
    readSpans hot cold (some t) =
      (readSpans hot cold none).filter (traceMatches (some t)) := by
  have everything : ∀ spans : List NormalizedSpan, spans.filter (traceMatches none) = spans :=
    fun spans => List.filter_eq_self.mpr (fun _ _ => rfl)
  have sameHidden : ∀ s : NormalizedSpan, traceMatches (some t) s = true →
      (spanKey s ∈ (hot.allSpans.filter (traceMatches (some t))).map spanKey ↔
        spanKey s ∈ hot.allSpans.map spanKey) := by
    intro s wanted
    simp only [List.mem_map, List.mem_filter]
    constructor
    · rintro ⟨s', ⟨member, -⟩, sameKey⟩
      exact ⟨s', member, sameKey⟩
    · rintro ⟨s', member, sameKey⟩
      refine ⟨s', ⟨member, ?_⟩, sameKey⟩
      rw [traceMatches] at wanted ⊢
      rw [(spanKey_eq_iff.mp sameKey).1]
      exact wanted
  simp only [readSpans, combine, List.filter_append, everything, listBlocks, coldWanted]
  rw [filter_listedRows_trace invariant, ← firstCopies_filter_trace, ← firstCopies_filter_trace,
    List.filter_filter, List.filter_filter]
  congr 2
  refine List.filter_congr (fun s _ => ?_)
  by_cases wanted : traceMatches (some t) s = true
  · simp only [wanted, Bool.and_true, Bool.true_and]
    exact decide_eq_decide.mpr (not_congr (sameHidden s wanted))
  · simp [wanted]

/-- The trace index is exact in every reachable state, and so a read through it is the
full read filtered to the trace. -/
theorem traceIndex_exact {cold : ColdState} (reached : TraceReachable cold) :
    (∀ t p, p ∈ cold.index.blockPathsForTrace t ↔
      p ∈ cold.index.allBlockPaths ∧ ∃ s ∈ rowsAt cold.files p, s.traceId = t) ∧
    ∀ (hot : HotTier) (t : String) (n : Nat), ∃ all, query hot cold none usizeMax = some all ∧
      query hot cold (some t) n = some (upTo n (all.filter (traceMatches (some t)))) := by
  have invariant := TraceReachable.invariant reached
  refine ⟨fun t p => ?_, fun hot t n => ?_⟩
  · rw [Index.mem_blockPathsForTrace, Index.mem_allBlockPaths]
    exact invariant.exact t p
  · have storedAll : ∀ p ∈ listBlocks cold.index none, ∃ file, cold.files[p]? = some file :=
      fun p listed => invariant.stored p (Index.mem_allBlockPaths.mp listed)
    have storedTrace : ∀ p ∈ listBlocks cold.index (some t),
        ∃ file, cold.files[p]? = some file :=
      fun p listed => invariant.stored p
        ((invariant.exact t p).mp (Index.mem_blockPathsForTrace.mp listed)).1
    refine ⟨_, query_eq storedAll (by decide), ?_⟩
    have whole : ∀ spans, upTo usizeMax spans = spans := fun spans => if_pos rfl
    rw [whole]
    by_cases none : n = 0
    · subst none
      rfl
    · rw [query_eq storedTrace none, readSpans_trace invariant, newestFirst_filter]

/-- A segment with spans of two traces, flushed to an empty store. -/
def twoTraces : ColdState :=
  flushOne "t" 0 {} 1
    [{ traceId := "a", spanId := "1", startUnixNano := 0 },
      { traceId := "b", spanId := "2", startUnixNano := 3600000000000 }]

theorem traceIndex_exact_twoTraces :
    (∀ t p, p ∈ twoTraces.index.blockPathsForTrace t ↔
      p ∈ twoTraces.index.allBlockPaths ∧ ∃ s ∈ rowsAt twoTraces.files p, s.traceId = t) ∧
    ∀ (hot : HotTier) (t : String) (n : Nat), ∃ all, query hot twoTraces none usizeMax = some all ∧
      query hot twoTraces (some t) n = some (upTo n (all.filter (traceMatches (some t)))) :=
  traceIndex_exact (.next (.start rfl) (.flush "t" 0 _ (by decide)))

end Evald.Store
