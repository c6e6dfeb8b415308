import Evald.Store.ColdRun
import Evald.Store.Collapse
import Evald.Store.Query

/-! # Which copy of a span a reader sees

A span may have been flushed from several segments, each time with other contents.  A
read shows the first copy in the order of the block paths; a merge keeps the first in
the order of its chunk, and writes it to a path that sorts behind the flush blocks of
the hour.  `shown_eq` says which block a read takes a span from, and
`shown_of_inOrder` that it is the copy of the lowest seqno, before and after every
merge, in the runs whose steps keep the two orders together.
-/

namespace Evald.Store

open Evald.Lib

/-- `p` is listed before `q`. -/
def Precedes (p q : BlockPath) : Prop := compare p q = .lt

instance : DecidableRel Precedes := fun p q => inferInstanceAs (Decidable (compare p q = .lt))

instance : Std.Asymm Precedes where
  asymm p q before after := by
    have reversed : compare q p = .gt := Std.OrientedCmp.gt_of_lt before
    rw [Precedes, reversed] at after
    cases after

/-- The first block, in listing order, that holds the key. -/
def front (files : Files) (k : SpanKey) (paths : List BlockPath) : Option BlockPath :=
  paths.find? (fun p => k ∈ (rowsAt files p).map spanKey)

/-- The block a read takes the span from. -/
def ColdState.frontOf (cold : ColdState) (k : SpanKey) : Option BlockPath :=
  front cold.files k cold.index.allBlockPaths

/-- The copy of a span that a read of everything shows, with an empty hot tier. -/
def ColdState.shown (cold : ColdState) (k : SpanKey) : Option NormalizedSpan :=
  (query ∅ cold none usizeMax).bind (copyOf spanKey k)

/-! ## The block a copy comes from -/

theorem copyOf_flatMap_rowsAt (files : Files) (k : SpanKey) (paths : List BlockPath) :
    copyOf spanKey k (paths.flatMap (rowsAt files)) =
      (front files k paths).bind (fun p => copyOf spanKey k (rowsAt files p)) := by
  rw [copyOf_flatMap]
  induction paths with
  | nil => rfl
  | cons p paths inductionHypothesis =>
    rw [List.findSome?_cons, front, List.find?_cons]
    cases found : copyOf spanKey k (rowsAt files p) with
    | none =>
      have absent := copyOf_eq_none_iff.mp found
      simp only [absent, decide_false]
      exact inductionHypothesis
    | some s =>
      have held : k ∈ (rowsAt files p).map spanKey := by
        by_contra absent
        rw [copyOf_eq_none_iff.mpr absent] at found
        cases found
      simp only [held, decide_true]
      exact found.symm

/-- A read shows the copy in the first block that holds the span. -/
theorem shown_eq {cold : ColdState}
    (stored : ∀ p, cold.index.Names p → ∃ file, cold.files[p]? = some file) (k : SpanKey) :
    cold.shown k = (cold.frontOf k).bind (fun p => copyOf spanKey k (rowsAt cold.files p)) := by
  have read : query ∅ cold none usizeMax = some (upTo usizeMax
      (newestFirst NormalizedSpan.startUnixNano (readSpans ∅ cold none))) :=
    query_eq (fun p listed => stored p (Index.mem_allBlockPaths.mp listed)) (by decide)
  have onlyCold : readSpans ∅ cold none =
      firstCopies spanKey [] (listedRows cold.files cold.index.allBlockPaths) := by
    have noHot : (∅ : HotTier).allSpans = [] := by decide
    simp [readSpans, combine, noHot, coldWanted, traceMatches, listBlocks]
  have distinct := nodup_keys_combine ∅ none
    (listedRows cold.files (listBlocks cold.index none))
  have perm := newestFirst_perm NormalizedSpan.startUnixNano (readSpans ∅ cold none)
  rw [ColdState.shown, read, upTo, if_pos rfl, Option.bind_some,
    copyOf_perm ((perm.map spanKey).nodup_iff.mpr distinct) perm, onlyCold, copyOf_firstCopies]
  exact copyOf_flatMap_rowsAt cold.files k cold.index.allBlockPaths

theorem frontOf_eq_some_iff {cold : ColdState} {k : SpanKey} {p : BlockPath} :
    cold.frontOf k = some p ↔ cold.index.Names p ∧ k ∈ (rowsAt cold.files p).map spanKey ∧
      ∀ q, cold.index.Names q → k ∈ (rowsAt cold.files q).map spanKey → q = p ∨ Precedes p q := by
  have ordered : cold.index.allBlockPaths.Pairwise Precedes := Std.ExtTreeMap.ordered_keys
  rw [ColdState.frontOf, front, find?_eq_some_iff_least ordered]
  simp only [Index.mem_allBlockPaths, decide_eq_true_eq]

theorem frontOf_eq_none_iff {cold : ColdState} {k : SpanKey} :
    cold.frontOf k = none ↔ ¬ cold.Holds k := by
  simp [ColdState.frontOf, front, ColdState.Holds]

theorem frontOf_congr {cold cold' : ColdState} {k : SpanKey}
    (same : ∀ p, (cold.index.Names p ∧ k ∈ (rowsAt cold.files p).map spanKey) ↔
      (cold'.index.Names p ∧ k ∈ (rowsAt cold'.files p).map spanKey)) :
    cold.frontOf k = cold'.frontOf k := by
  apply Option.ext
  intro p
  rw [frontOf_eq_some_iff, frontOf_eq_some_iff, ← and_assoc, ← and_assoc, same p]
  refine and_congr_right (fun _ => forall_congr' (fun q => ?_))
  rw [← and_imp, ← and_imp, same q]

/-! ## A flush -/

/-- No copy of a stored span is flushed to a path that is listed before the block it is
shown from. -/
def FlushInOrder (cold : ColdState) (seqno : Nat) (spans : List NormalizedSpan) : Prop :=
  ∀ block ∈ flushPlan seqno spans, ∀ k ∈ block.2.map spanKey, ∀ p ∈ cold.frontOf k,
    Precedes p block.1

instance (cold : ColdState) (seqno : Nat) (spans : List NormalizedSpan) :
    Decidable (FlushInOrder cold seqno spans) := by
  unfold FlushInOrder
  infer_instance

theorem rowsAt_flushOne {priceTable : String} {now seqno : Nat} {cold : ColdState}
    {spans : List NormalizedSpan} {block : BlockPath × List NormalizedSpan}
    (member : block ∈ flushPlan seqno spans) :
    rowsAt (flushOne priceTable now cold seqno spans).files block.1 = block.2 := by
  rw [rowsAt, flushOne, getElem?_foldl_writePlanned (nodup_paths_flushPlan seqno spans) member]

theorem rowsAt_flushOne_other {priceTable : String} {now seqno : Nat} {cold : ColdState}
    {spans : List NormalizedSpan} {p : BlockPath}
    (other : ∀ block ∈ flushPlan seqno spans, block.1 ≠ p) :
    rowsAt (flushOne priceTable now cold seqno spans).files p = rowsAt cold.files p :=
  rowsAt_eq_of_getElem? (getElem?_foldl_writePlanned_other other)

/-- A span of the segment is in one block of the plan, and there it is the segment's
first copy. -/
theorem copyOf_flushPlan {seqno : Nat} {spans : List NormalizedSpan} {k : SpanKey}
    {block : BlockPath × List NormalizedSpan} (member : block ∈ flushPlan seqno spans)
    (held : k ∈ block.2.map spanKey) :
    copyOf spanKey k block.2 = copyOf spanKey k spans ∧
      ∀ other ∈ flushPlan seqno spans, k ∈ other.2.map spanKey → other = block := by
  obtain ⟨hour, idx, path, rows, -⟩ := mem_flushPlan member
  obtain ⟨s, inBlock, rfl⟩ := List.mem_map.mp held
  have kept : s ∈ firstCopies spanKey [] spans ∧ spanPartition s = hour := by
    rw [rows] at inBlock
    simpa using inBlock
  have distinct := nodup_keys_firstCopies spanKey [] spans
  constructor
  · rw [copyOf_of_mem (nodup_keys_flushPlan member) inBlock, ← copyOf_firstCopies,
      copyOf_of_mem distinct kept.1]
  · intro other otherMember otherHeld
    obtain ⟨hour', idx', path', rows', -⟩ := mem_flushPlan otherMember
    obtain ⟨s', inOther, sameKey⟩ := List.mem_map.mp otherHeld
    have kept' : s' ∈ firstCopies spanKey [] spans ∧ spanPartition s' = hour' := by
      rw [rows'] at inOther
      simpa using inOther
    have sameSpan : s' = s := List.inj_on_of_nodup_map distinct kept'.1 kept.1 sameKey
    have sameSlot : slotOf other.1 = slotOf block.1 := by
      rw [path, path', ← kept.2, ← kept'.2, sameSpan]
      rfl
    exact List.inj_on_of_nodup_map (nodup_slots_flushPlan seqno spans) otherMember member sameSlot

/-- After a flush in order a stored span is shown as before, and another one as the
segment's first copy. -/
theorem shown_flush {cold : ColdState} (invariant : ColdInvariant cold) {seqno : Nat}
    (pending : cold.index.watermark < seqno) (priceTable : String) (now : Nat)
    {spans : List NormalizedSpan} (inOrder : FlushInOrder cold seqno spans) (k : SpanKey) :
    (flushOne priceTable now cold seqno spans).shown k =
      (cold.shown k).or (copyOf spanKey k spans) := by
  have after := invariant.flush pending priceTable now spans
  rw [shown_eq invariant.stored, shown_eq after.stored]
  have oldRows : ∀ p, cold.index.Names p →
      rowsAt (flushOne priceTable now cold seqno spans).files p = rowsAt cold.files p := by
    intro p named
    apply rowsAt_flushOne_other
    intro block member same
    exact invariant.flush_fresh pending member (same ▸ named)
  -- the front block stays in front of what is flushed, or the flush brings the key
  cases before : cold.frontOf k with
  | some p =>
    obtain ⟨named, held, least⟩ := frontOf_eq_some_iff.mp before
    have still : (flushOne priceTable now cold seqno spans).frontOf k = some p := by
      rw [frontOf_eq_some_iff]
      refine ⟨names_flushOne.mpr (.inr named), by rw [oldRows p named]; exact held, ?_⟩
      intro q qNamed qHeld
      cases names_flushOne.mp qNamed with
      | inl planned =>
        obtain ⟨block, member, rfl⟩ := planned
        rw [rowsAt_flushOne member] at qHeld
        exact .inr (inOrder block member k qHeld p before)
      | inr old =>
        rw [oldRows q old] at qHeld
        exact least q old qHeld
    rw [still, Option.bind_some, Option.bind_some, oldRows p named]
    cases found : copyOf spanKey k (rowsAt cold.files p) with
    | none => exact absurd held (copyOf_eq_none_iff.mp found)
    | some s => rfl
  | none =>
    have absent := frontOf_eq_none_iff.mp before
    rw [Option.bind_none, Option.none_or]
    by_cases inSegment : k ∈ spans.map spanKey
    · obtain ⟨block, member, held⟩ := (mem_keys_flushPlan seqno).mpr inSegment
      obtain ⟨first, only⟩ := copyOf_flushPlan member held
      have newFront : (flushOne priceTable now cold seqno spans).frontOf k = some block.1 := by
        rw [frontOf_eq_some_iff]
        refine ⟨names_flushOne.mpr (.inl ⟨block, member, rfl⟩),
          by rw [rowsAt_flushOne member]; exact held, ?_⟩
        intro q qNamed qHeld
        cases names_flushOne.mp qNamed with
        | inl planned =>
          obtain ⟨other, otherMember, rfl⟩ := planned
          rw [rowsAt_flushOne otherMember] at qHeld
          exact .inl (congrArg Prod.fst (only other otherMember qHeld))
        | inr old =>
          rw [oldRows q old] at qHeld
          exact absurd ⟨q, old, qHeld⟩ absent
      rw [newFront, Option.bind_some, rowsAt_flushOne member, first]
    · have nowhere : (flushOne priceTable now cold seqno spans).frontOf k = none := by
        rw [frontOf_eq_none_iff]
        intro ⟨q, qNamed, qHeld⟩
        cases names_flushOne.mp qNamed with
        | inl planned =>
          obtain ⟨other, otherMember, rfl⟩ := planned
          rw [rowsAt_flushOne otherMember] at qHeld
          exact inSegment ((mem_keys_flushPlan seqno).mp ⟨other, otherMember, qHeld⟩)
        | inr old =>
          rw [oldRows q old] at qHeld
          exact absent ⟨q, old, qHeld⟩
      rw [nowhere, Option.bind_none, copyOf_eq_none_iff.mpr inSegment]

/-! ## A merge -/

/-- The output is at a new path, and takes its inputs' place in the listing as far as
their spans can tell: where a span is shown from an input, that input is the first of
the chunk to hold it and every block outside the chunk that holds it is listed behind
the output; where it is shown from another block, that block is listed before the
output. -/
structure MergeInOrder (cold : ColdState) (dir : Slot) (chunk : List Candidate) : Prop where
  fresh : ¬ cold.index.Names (outRel dir chunk)
  order : ∀ c ∈ chunk, ∀ k ∈ (rowsAt cold.files c.rel).map spanKey, ∀ p ∈ cold.frontOf k,
    (p ∈ chunk.map Candidate.rel → front cold.files k (chunk.map Candidate.rel) = some p ∧
      ∀ q ∈ cold.index.allBlockPaths, q ∉ chunk.map Candidate.rel →
        k ∈ (rowsAt cold.files q).map spanKey → Precedes (outRel dir chunk) q) ∧
    (p ∉ chunk.map Candidate.rel → Precedes p (outRel dir chunk))

/-- After a merge in order every span is shown as before. -/
theorem shown_merge {before after : ColdState} (invariant : ColdInvariant before) {dir : Slot}
    {chunk : List Candidate} (merge : ChunkMerge dir chunk before after)
    (inOrder : MergeInOrder before dir chunk) (k : SpanKey) : after.shown k = before.shown k := by
  have invariantAfter := merge.invariant invariant
  rw [shown_eq invariant.stored, shown_eq invariantAfter.stored]
  obtain ⟨stamp, run, run', rfl, rfl, swaps⟩ := merge.swaps invariant.stored
  have notOut : ∀ q, run.cold.index.Names q → q ≠ outRel dir chunk :=
    fun q named same => inOrder.fresh (same ▸ named)
  have notInput : ∀ q, (∀ c ∈ chunk, q ≠ c.rel) ↔ q ∉ chunk.map Candidate.rel := by
    intro q
    simp [eq_comm]
  have outHolds : k ∈ (rowsAt run'.cold.files (outRel dir chunk)).map spanKey ↔
      ∃ c ∈ chunk, k ∈ (rowsAt run.cold.files c.rel).map spanKey := by
    rw [swaps.rowsAt_output, mem_keys_firstCopies_nil, inputRows, List.map_flatMap]
    exact List.mem_flatMap
  -- the output stands where the front input stood, or the front block is none of them
  by_cases inChunk : ∃ c ∈ chunk, k ∈ (rowsAt run.cold.files c.rel).map spanKey
  · obtain ⟨c, member, held⟩ := inChunk
    cases shownFrom : run.cold.frontOf k with
    | none =>
      exact absurd ⟨c.rel, merge.ready.named c member, held⟩ (frontOf_eq_none_iff.mp shownFrom)
    | some p =>
      obtain ⟨named, heldThere, least⟩ := frontOf_eq_some_iff.mp shownFrom
      obtain ⟨fromInput, fromOther⟩ := inOrder.order c member k held p shownFrom
      by_cases input : p ∈ chunk.map Candidate.rel
      · obtain ⟨firstOfChunk, behind⟩ := fromInput input
        have moved : run'.cold.frontOf k = some (outRel dir chunk) := by
          rw [frontOf_eq_some_iff]
          refine ⟨(swaps.names _).mpr (.inl rfl), outHolds.mpr ⟨c, member, held⟩, ?_⟩
          intro q qNamed qHeld
          cases (swaps.names q).mp qNamed with
          | inl same => exact .inl same
          | inr old =>
            rw [swaps.rowsAt_other (notOut q old.2)] at qHeld
            exact .inr (behind q (Index.mem_allBlockPaths.mpr old.2) ((notInput q).mp old.1) qHeld)
        have inputs : inputRows run.cold.files chunk =
            (chunk.map Candidate.rel).flatMap (rowsAt run.cold.files) := by
          rw [inputRows, List.flatMap_map]
        rw [moved, Option.bind_some, swaps.rowsAt_output, copyOf_firstCopies, inputs,
          copyOf_flatMap_rowsAt, firstOfChunk]
      · have stays : run'.cold.frontOf k = some p := by
          rw [frontOf_eq_some_iff]
          refine ⟨(swaps.names p).mpr (.inr ⟨(notInput p).mpr input, named⟩),
            by rw [swaps.rowsAt_other (notOut p named)]; exact heldThere, ?_⟩
          intro q qNamed qHeld
          cases (swaps.names q).mp qNamed with
          | inl same => exact .inr (same ▸ fromOther input)
          | inr old =>
            rw [swaps.rowsAt_other (notOut q old.2)] at qHeld
            exact least q old.2 qHeld
        rw [stays, Option.bind_some, Option.bind_some, swaps.rowsAt_other (notOut p named)]
  · -- no block that holds the key is touched
    have same : run'.cold.frontOf k = run.cold.frontOf k := by
      apply frontOf_congr
      intro p
      constructor
      · rintro ⟨named, held⟩
        cases (swaps.names p).mp named with
        | inl isOut =>
          rw [isOut] at held
          exact absurd (outHolds.mp held) inChunk
        | inr old =>
          rw [swaps.rowsAt_other (notOut p old.2)] at held
          exact ⟨old.2, held⟩
      · rintro ⟨named, held⟩
        refine ⟨(swaps.names p).mpr (.inr ⟨fun c member isInput => ?_, named⟩), ?_⟩
        · exact inChunk ⟨c, member, isInput ▸ held⟩
        · rw [swaps.rowsAt_other (notOut p named)]
          exact held
    rw [same]
    cases shownFrom : run.cold.frontOf k with
    | none => rfl
    | some p =>
      have named := (frontOf_eq_some_iff.mp shownFrom).1
      rw [Option.bind_some, Option.bind_some, swaps.rowsAt_other (notOut p named)]

/-! ## Runs -/

/-- The cold tier with, for each span flushed so far, the copy with the lowest seqno. -/
structure Flushed where
  cold : ColdState := {}
  first : SpanKey → Option NormalizedSpan := fun _ => none

/-- A flush or an executed chunk, in order.  Segments are flushed in the order of their
seqnos, so a span's first flushed copy is the one with the lowest. -/
inductive InOrderStep : Flushed → Flushed → Prop where
  | flush {s : Flushed} {seqno : Nat} {spans : List NormalizedSpan} (priceTable : String)
      (now : Nat) (pending : s.cold.index.watermark < seqno)
      (inOrder : FlushInOrder s.cold seqno spans) :
      InOrderStep s
        { cold := flushOne priceTable now s.cold seqno spans
          first := fun k => (s.first k).or (copyOf spanKey k spans) }
  | merge {s : Flushed} {after : ColdState} {dir : Slot} {chunk : List Candidate}
      (merge : ChunkMerge dir chunk s.cold after) (inOrder : MergeInOrder s.cold dir chunk) :
      InOrderStep s { s with cold := after }

abbrev InOrderReachable : Flushed → Prop := Reachable (fun s => s = {}) InOrderStep

theorem InOrderReachable.invariant {s : Flushed} (reached : InOrderReachable s) :
    ColdInvariant s.cold := by
  apply Reachable.invariant _ _ reached
  · intro s begins
    exact begins ▸ coldInvariant_empty
  · intro s s' invariant stepped
    cases stepped with
    | flush priceTable now pending inOrder => exact invariant.flush pending priceTable now _
    | merge merge inOrder => exact merge.invariant invariant

theorem shown_empty (k : SpanKey) : ColdState.shown {} k = none := by
  rw [shown_eq coldInvariant_empty.stored]
  have nowhere : ColdState.frontOf {} k = none := by
    rw [frontOf_eq_none_iff]
    intro ⟨p, named, _⟩
    exact Index.names_empty p named
  rw [nowhere, Option.bind_none]

/-- A merge pass whose chunks all execute in order. -/
def MergesInOrder : ColdState → ColdState → Prop :=
  Relation.ReflTransGen (fun before after =>
    ∃ dir chunk, ChunkMerge dir chunk before after ∧ MergeInOrder before dir chunk)

/-- In every run in order a read shows each span's copy with the lowest seqno, before a
merge pass and after it. -/
theorem shown_of_inOrder {s : Flushed} (reached : InOrderReachable s) {after : ColdState}
    (merged : MergesInOrder s.cold after) (k : SpanKey) :
    after.shown k = s.cold.shown k ∧ s.cold.shown k = s.first k := by
  have lowest : ∀ {s : Flushed}, InOrderReachable s → s.cold.shown k = s.first k := by
    intro s reached
    induction reached with
    | start begins =>
      rw [begins]
      exact shown_empty k
    | next before stepped inductionHypothesis =>
      cases stepped with
      | flush priceTable now pending inOrder =>
        rw [shown_flush (InOrderReachable.invariant before) pending priceTable now inOrder k,
          inductionHypothesis]
      | merge merge inOrder =>
        exact (shown_merge (InOrderReachable.invariant before) merge inOrder k).trans
          inductionHypothesis
  have passed : InOrderReachable { s with cold := after } := by
    induction merged with
    | refl => exact reached
    | tail _ step inductionHypothesis =>
      obtain ⟨dir, chunk, merge, inOrder⟩ := step
      exact .next inductionHypothesis (.merge merge inOrder)
  exact ⟨(lowest passed).trans (lowest reached).symm, lowest reached⟩

/-! ### A span flushed twice -/

def copyNamed (name : String) : NormalizedSpan :=
  { traceId := "a", spanId := "1", name := name, startUnixNano := 0 }

def flushedOnce : ColdState := flushOne "t" 0 {} 1 [copyNamed "one"]

/-- The span is flushed from two segments, under another name the second time. -/
def flushedTwice : ColdState := flushOne "t" 0 flushedOnce 2 [copyNamed "two"]

theorem flushedTwice_inOrder :
    ∃ first, InOrderReachable { cold := flushedTwice, first := first } := by
  have one : InOrderReachable { cold := flushedOnce, first := _ } :=
    .next (.start rfl) (.flush "t" 0 (by decide) (by decide))
  exact ⟨_, .next one (.flush "t" 0 (by decide) (by decide))⟩

/-- Its two blocks, as the planner sees them. -/
def bothBlocks : List Candidate := candidates flushedTwice.files flushedTwice.index.allBlockPaths

theorem bothBlocks_merge : ∃ after, MergesInOrder flushedTwice after := by
  have ready : Ready (.hour firstHour) flushedTwice bothBlocks := by
    refine ⟨by decide, by decide, ?_⟩
    change ∀ c ∈ bothBlocks, slotOf c.rel = .hour firstHour
    decide +kernel
  have inOrder : MergeInOrder flushedTwice (.hour firstHour) bothBlocks :=
    ⟨by decide, by decide⟩
  have runs : (mergeChunk 0 (.hour firstHour) false
      { cold := flushedTwice, report := { dryRun := false } } bothBlocks).isSome = true := by
    decide
  obtain ⟨run, ran⟩ := Option.isSome_iff_exists.mp runs
  exact ⟨run.cold, .single ⟨.hour firstHour, bothBlocks,
    ⟨ready, by decide, 0, _, run, rfl, rfl, ran⟩, inOrder⟩⟩

theorem shown_of_inOrder_flushedTwice : ∃ (first : SpanKey → Option NormalizedSpan) (after : ColdState),
    MergesInOrder flushedTwice after ∧ after.shown (keyOf "a" "1") = flushedTwice.shown (keyOf "a" "1") ∧
      flushedTwice.shown (keyOf "a" "1") = first (keyOf "a" "1") := by
  obtain ⟨first, reached⟩ := flushedTwice_inOrder
  obtain ⟨after, merged⟩ := bothBlocks_merge
  exact ⟨first, after, merged, shown_of_inOrder reached merged (keyOf "a" "1")⟩

/-- As `flushedTwice`, with a second span beside the second copy, and a third segment of
one row. -/
def shadowed : ColdState :=
  flushOne "t" 0 (flushOne "t" 0 flushedOnce 2 [copyNamed "two", spanAt "b" 0]) 3 [spanAt "d" 0]

theorem shadowed_reachable : ColdReachable shadowed :=
  .next (.next (.next (.start rfl) (.flush "t" 0 [copyNamed "one"] (by decide)))
    (.flush "t" 0 [copyNamed "two", spanAt "b" 0] (by decide)))
    (.flush "t" 0 [spanAt "d" 0] (by decide))

/-- A tick merges the first and the third block to a path behind the second one, and
reads turn from the first copy of the span to the second. -/
theorem merge_changes_copy : ∃ run, ColdReachable shadowed ∧
    mergeCold { hourThreshold := 2 } .tick false sameDay shadowed = some run ∧
    (shadowed.shown (keyOf "a" "1")).map NormalizedSpan.name = some "one" ∧
    (run.cold.shown (keyOf "a" "1")).map NormalizedSpan.name = some "two" := by
  have before : (shadowed.shown (keyOf "a" "1")).map NormalizedSpan.name = some "one" := by
    decide
  have after : (mergeCold { hourThreshold := 2 } .tick false sameDay shadowed).any (fun run =>
      decide ((run.cold.shown (keyOf "a" "1")).map NormalizedSpan.name = some "two")) = true := by
    decide
  obtain ⟨run, ran, after⟩ := (Option.any_eq_true _ _).mp after
  exact ⟨run, shadowed_reachable, ran, before, of_decide_eq_true after⟩

end Evald.Store
