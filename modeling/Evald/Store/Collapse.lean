import Evald.Store.MergePass

/-! # What a full compaction leaves of an hour

A full pass plans one chunk for an hour whose blocks fit together, and merges it unless
the output would be at the path of one of the inputs.  Size-tiered passes leave such an
input: a merged block whose seqno range already spans the ranges of all the others
(`Covered`).  `mergeCold_collapses_iff` says that this is the only way an hour that
fits is left with more than one block.
-/

namespace Evald.Store

open Evald.Lib

/-- The blocks of an hour, as the index lists them. -/
def hourBlocks (index : Index) (h : Hour) : List BlockPath :=
  index.allBlockPaths.filter (fun p => slotOf p = .hour h)

/-- Two or more blocks, one of them a merged block whose seqno range spans the ranges of
all of them. -/
def Covered (rels : List BlockPath) : Prop :=
  2 ≤ rels.length ∧ ∃ p ∈ rels, (∃ h lo hi, p = .merged h lo hi) ∧
    ∀ q ∈ rels, p.seqnoLo ≤ q.seqnoLo ∧ q.seqnoHi ≤ p.seqnoHi

def totalRows (files : Files) (rels : List BlockPath) : Nat :=
  (rels.map (fun p => (rowsAt files p).length)).sum

@[simp] theorem mem_hourBlocks {index : Index} {h : Hour} {p : BlockPath} :
    p ∈ hourBlocks index h ↔ index.Names p ∧ slotOf p = .hour h := by
  simp [hourBlocks]

theorem nodup_hourBlocks (index : Index) (h : Hour) : (hourBlocks index h).Nodup :=
  (Index.nodup_allBlockPaths index).filter _

/-! ## One chunk -/

theorem cutChunks_whole {cap rows : Nat} {current cands : List Candidate}
    (isNonempty : current ++ cands ≠ []) (fits : rows + (cands.map Candidate.rows).sum ≤ cap) :
    cutChunks cap current rows cands = [current ++ cands] := by
  induction cands generalizing current rows with
  | nil =>
    rw [List.append_nil] at isNonempty ⊢
    rw [cutChunks, if_neg]
    simpa using isNonempty
  | cons c cands inductionHypothesis =>
    rw [List.map_cons, List.sum_cons] at fits
    have added : saturatingAdd rows c.rows ≤ rows + c.rows := min_le_left _ _
    have room : ¬ ((!current.isEmpty && decide (cap < saturatingAdd rows c.rows)) = true) := by
      simp only [Bool.and_eq_true, decide_eq_true_eq, not_and]
      intro _
      omega
    rw [cutChunks, if_neg room, inductionHypothesis (by simp) (by omega)]
    simp

/-- Candidates that fit together are one chunk. -/
theorem chunks_whole {cands : List Candidate} {maxSpans : Nat} (isNonempty : cands ≠ [])
    (fits : (cands.map Candidate.rows).sum ≤ maxSpans) :
    chunks cands maxSpans = [cands.insertionSort seqnoOrder] := by
  have sorted := List.perm_insertionSort seqnoOrder cands
  rw [chunks, cutChunks_whole, List.nil_append]
  · intro empty
    rw [List.nil_append] at empty
    rw [empty] at sorted
    exact isNonempty sorted.nil_eq.symm
  · rw [(sorted.map Candidate.rows).sum_eq]
    omega

theorem candidates_stored {files : Files} {rels : List BlockPath}
    (stored : ∀ p ∈ rels, ∃ file, files[p]? = some file) :
    (candidates files rels).map Candidate.rel = rels ∧
      ((candidates files rels).map Candidate.rows).sum = totalRows files rels := by
  induction rels with
  | nil => exact ⟨rfl, rfl⟩
  | cons p rels inductionHypothesis =>
    obtain ⟨⟨file, found⟩, storedLater⟩ := List.forall_mem_cons.mp stored
    obtain ⟨relsLater, rowsLater⟩ := inductionHypothesis storedLater
    have here : candidate files p = some
        { rel := p
          rows := file.rows.length
          modified := file.modified
          seqnoLo := file.provenance.seqnoLo
          seqnoHi := file.provenance.seqnoHi
          priceTables := file.provenance.priceTables } := by
      rw [candidate, found]
      rfl
    have rows : rowsAt files p = file.rows := by rw [rowsAt, found]
    unfold candidates at relsLater rowsLater ⊢
    rw [List.filterMap_cons_some here]
    refine ⟨by rw [List.map_cons, relsLater], ?_⟩
    rw [List.map_cons, List.sum_cons, rowsLater, totalRows, totalRows, List.map_cons, List.sum_cons,
      rows]

theorem chunkLo_le {chunk : List Candidate} {c : Candidate} (member : c ∈ chunk) :
    chunkLo chunk ≤ c.seqnoLo := by
  cases found : (chunk.map Candidate.seqnoLo).min? with
  | none =>
    rw [List.min?_eq_none_iff, List.map_eq_nil_iff] at found
    rw [found] at member
    cases member
  | some lo =>
    rw [chunkLo, found]
    exact (List.min?_eq_some_iff.mp found).2 _ (List.mem_map_of_mem member)

theorem le_chunkHi {chunk : List Candidate} {c : Candidate} (member : c ∈ chunk) :
    c.seqnoHi ≤ chunkHi chunk := by
  cases found : (chunk.map Candidate.seqnoHi).max? with
  | none =>
    rw [List.max?_eq_none_iff, List.map_eq_nil_iff] at found
    rw [found] at member
    cases member
  | some hi =>
    rw [chunkHi, found]
    exact (List.max?_eq_some_iff.mp found).2 _ (List.mem_map_of_mem member)

theorem exists_seqnoHi_eq_chunkHi {chunk : List Candidate} (nonempty : chunk ≠ []) :
    ∃ c ∈ chunk, c.seqnoHi = chunkHi chunk := by
  cases found : (chunk.map Candidate.seqnoHi).max? with
  | none =>
    rw [List.max?_eq_none_iff, List.map_eq_nil_iff] at found
    exact absurd found nonempty
  | some hi =>
    obtain ⟨c, member, same⟩ := List.mem_map.mp (List.max?_mem found)
    exact ⟨c, member, by rw [chunkHi, found, same]; rfl⟩

/-- A chunk of a whole hour executes unless the hour is covered. -/
theorem executes_iff_not_covered {h : Hour} {cold : ColdState} {chunk : List Candidate}
    {rels : List BlockPath} (ready : Ready (.hour h) cold chunk)
    (whole : (chunk.map Candidate.rel).Perm rels) (two : 2 ≤ rels.length) :
    Executes (.hour h) chunk ↔ ¬ Covered rels := by
  have length : chunk.length = rels.length := by rw [← whole.length_eq, List.length_map]
  have nonempty : chunk ≠ [] := by
    intro empty
    rw [empty] at length
    simp at length
    omega
  have inRels : ∀ q, q ∈ rels ↔ ∃ c ∈ chunk, c.rel = q := by
    intro q
    rw [← whole.mem_iff, List.mem_map]
  constructor
  · intro executes covered
    obtain ⟨-, p, member, ⟨h', lo, hi, path⟩, spans⟩ := covered
    obtain ⟨c, inChunk, sameRel⟩ := (inRels p).mp member
    -- the range the output is named after is the range of `p`
    have sameLo : chunkLo chunk = lo := by
      obtain ⟨first, firstIn, firstLo⟩ := exists_seqnoLo_eq_chunkLo nonempty
      have above := (spans first.rel ((inRels _).mpr ⟨first, firstIn, rfl⟩)).1
      have below := chunkLo_le inChunk
      rw [(ready.range c inChunk).1, sameRel] at below
      rw [← (ready.range first firstIn).1, firstLo] at above
      rw [path] at above below
      exact le_antisymm below above
    have sameHi : chunkHi chunk = hi := by
      obtain ⟨last, lastIn, lastHi⟩ := exists_seqnoHi_eq_chunkHi nonempty
      have below := (spans last.rel ((inRels _).mpr ⟨last, lastIn, rfl⟩)).2
      have above := le_chunkHi inChunk
      rw [(ready.range c inChunk).2, sameRel] at above
      rw [← (ready.range last lastIn).2, lastHi] at below
      rw [path] at above below
      exact le_antisymm below above
    have sameHour : h' = h := by
      have placed := ready.placed c inChunk
      rw [sameRel, path] at placed
      injection placed
    apply executes.2 c inChunk
    rw [sameRel, path, outRel, sameLo, sameHi, sameHour]
  · intro uncovered
    refine ⟨length ▸ two, fun c inChunk same => uncovered ⟨two, c.rel, ?_, ?_, ?_⟩⟩
    · exact (inRels _).mpr ⟨c, inChunk, rfl⟩
    -- the input that bears the output's name is a merged block
    · exact ⟨h, _, _, same⟩
    · intro q member
      obtain ⟨c', inChunk', rfl⟩ := (inRels q).mp member
      rw [same, seqnoLo_outRel, seqnoHi_outRel, ← (ready.range c' inChunk').1,
        ← (ready.range c' inChunk').2]
      exact ⟨chunkLo_le inChunk', le_chunkHi inChunk'⟩

/-! ## One hour -/

/-- The index names exactly one block of the hour. -/
def OneBlock (index : Index) (h : Hour) : Prop :=
  ∃ p, ∀ q, index.Names q ∧ slotOf q = .hour h ↔ q = p

theorem OneBlock.congr {index index' : Index} {h : Hour}
    (same : ∀ p, slotOf p = .hour h → (index.Names p ↔ index'.Names p)) :
    OneBlock index h ↔ OneBlock index' h := by
  refine exists_congr (fun p => forall_congr' (fun q => iff_congr ?_ .rfl))
  exact and_congr_left (same q)

/-- The listing of one hour, whatever else happened since it was made. -/
structure ListsHour (cold : ColdState) (h : Hour) (rels : List BlockPath) : Prop where
  distinct : rels.Nodup
  complete : ∀ r, r ∈ rels ↔ cold.index.Names r ∧ slotOf r = .hour h

theorem ListsHour.oneBlock_iff {cold : ColdState} {h : Hour} {rels : List BlockPath}
    (lists : ListsHour cold h rels) : OneBlock cold.index h ↔ rels.length = 1 := by
  simp only [OneBlock, ← lists.complete]
  constructor
  · intro ⟨p, only⟩
    have single : rels.Perm [p] := by
      apply (List.perm_ext_iff_of_nodup lists.distinct (List.nodup_singleton p)).mpr
      intro q
      rw [only, List.mem_singleton]
    exact single.length_eq
  · intro single
    obtain ⟨p, rfl⟩ := List.length_eq_one_iff.mp single
    exact ⟨p, fun q => List.mem_singleton⟩

/-- An hour whose blocks fit together is left with one block unless it is covered. -/
theorem mergeHour_collapses (policy : MergePolicy) (clock : Clock) {h : Hour}
    {rels : List BlockPath} {run after : MergeRun} (invariant : ColdInvariant run.cold)
    (lists : ListsHour run.cold h rels) (isNonempty : rels ≠ [])
    (fits : totalRows run.cold.files rels ≤ policy.maxSpansPerBlock)
    (ran : mergeHour policy .full false clock run (h, rels) = some after) :
    OneBlock after.cold.index h ↔ ¬ Covered rels := by
  have named : ∀ r ∈ rels, run.cold.index.Names r ∧ slotOf r = .hour h :=
    fun r member => (lists.complete r).mp member
  have nothingConsumed : ∀ planned,
      { run with consumed := run.consumed ++ consumedBy false planned } = run := by
    intro planned
    simp [consumedBy]
  rw [mergeHour] at ran
  dsimp only at ran
  rw [nothingConsumed] at ran
  by_cases few : rels.length < 2
  · -- a single block is not planned at all
    have none : hourChunks policy .full run.cold.files rels = [] := if_pos few
    rw [none] at ran
    cases ran
    have single : rels.length = 1 := by
      have positive := List.length_pos_of_ne_nil isNonempty
      omega
    apply iff_of_true (lists.oneBlock_iff.mpr single)
    intro covered
    have two := covered.1
    omega
  · have two : 2 ≤ rels.length := not_lt.mp few
    obtain ⟨sameRels, sameRows⟩ := candidates_stored
      (fun r member => invariant.stored r (named r member).1)
    have someCands : candidates run.cold.files rels ≠ [] := by
      intro empty
      rw [empty] at sameRels
      exact isNonempty sameRels.symm
    -- the blocks fit together, so the plan is one chunk of all of them
    have planned : hourChunks policy .full run.cold.files rels =
        [(candidates run.cold.files rels).insertionSort seqnoOrder] := by
      rw [hourChunks, minBlocks, if_neg few, hourGroups, List.flatMap_cons, List.flatMap_nil,
        List.append_nil, chunks_whole someCands (sameRows.trans_le fits)]
    have plannedFrom := plannedFrom_hourChunks policy .full run.cold.files lists.distinct
    have ready := ready_of_candidates (.hour h) invariant named plannedFrom _
      (planned ▸ List.mem_singleton_self _)
    have whole : (((candidates run.cold.files rels).insertionSort seqnoOrder).map
        Candidate.rel).Perm rels := by
      have sorted := (List.perm_insertionSort seqnoOrder
        (candidates run.cold.files rels)).map Candidate.rel
      rwa [sameRels] at sorted
    rw [planned, mergeChunks, List.foldlM_cons] at ran
    rw [← executes_iff_not_covered ready whole two]
    -- either the one chunk is swapped for its output, or it is skipped and nothing moves
    by_cases executes : Executes (.hour h)
        ((candidates run.cold.files rels).insertionSort seqnoOrder)
    · obtain ⟨swapped, stepped, swaps⟩ := mergeOrSkip_swaps clock.stamp
        (fun c member => invariant.stored _ (ready.named c member)) executes
      rw [stepped] at ran
      cases ran
      apply iff_of_true _ executes
      refine ⟨outRel (.hour h) ((candidates run.cold.files rels).insertionSort seqnoOrder),
        fun q => ?_⟩
      rw [swaps.names]
      constructor
      · rintro ⟨atPath, slot⟩
        apply atPath.resolve_right
        rintro ⟨notInput, old⟩
        obtain ⟨c, member, same⟩ := List.mem_map.mp
          (whole.symm.subset ((lists.complete q).mpr ⟨old, slot⟩))
        exact notInput c member same.symm
      · intro same
        exact ⟨.inl same, same ▸ rfl⟩
    · rw [mergeOrSkip_skips executes] at ran
      cases ran
      refine iff_of_false (fun one => ?_) executes
      have single := lists.oneBlock_iff.mp one
      omega

/-! ## The whole pass -/

theorem mergeHour_loop_collapses (policy : MergePolicy) (clock : Clock)
    {partitions : List (Hour × List BlockPath)} (run : MergeRun)
    (invariant : ColdInvariant run.cold) (hours : (partitions.map Prod.fst).Nodup)
    (listed : ∀ part ∈ partitions, ListsHour run.cold part.1 part.2 ∧ part.2 ≠ []) :
    ∃ after, partitions.foldlM (mergeHour policy .full false clock) run = some after ∧
      ColdInvariant after.cold ∧ after.consumed = run.consumed ∧
      (∀ p, (∀ part ∈ partitions, slotOf p ≠ .hour part.1) →
        (after.cold.index.Names p ↔ run.cold.index.Names p)) ∧
      ∀ part ∈ partitions, totalRows run.cold.files part.2 ≤ policy.maxSpansPerBlock →
        (OneBlock after.cold.index part.1 ↔ ¬ Covered part.2) := by
  -- on the hours that are left, from whatever the hours before made of the state
  induction partitions generalizing run with
  | nil =>
    exact ⟨run, rfl, invariant, rfl, fun _ _ => .rfl, fun part member => by cases member⟩
  | cons part partitions inductionHypothesis =>
    obtain ⟨h, rels⟩ := part
    rw [List.map_cons, List.nodup_cons] at hours
    obtain ⟨⟨lists, isNonempty⟩, listedLater⟩ := List.forall_mem_cons.mp listed
    obtain ⟨middle, stepped, merged, -⟩ := mergeHour_merged policy .full clock invariant
      lists.distinct (fun r member => (lists.complete r).mp member)
    -- a later partition is as it was listed
    have apart : ∀ part ∈ partitions, ∀ p, slotOf p = .hour part.1 → ¬ InDir (.hour h) p := by
      intro part member p slot inside
      have slots : Slot.hour h = Slot.hour part.1 := Eq.trans (Eq.symm inside) slot
      injection slots with same
      exact hours.1 (List.mem_map.mpr ⟨part, member, same.symm⟩)
    have listedAfter : ∀ part ∈ partitions, ListsHour middle.cold part.1 part.2 ∧ part.2 ≠ [] := by
      intro part member
      obtain ⟨listsPart, somePart⟩ := listedLater part member
      refine ⟨⟨listsPart.distinct, fun r => ?_⟩, somePart⟩
      rw [listsPart.complete]
      exact and_congr_left (fun slot => (merged.elsewhere r (apart part member r slot)).1.symm)
    obtain ⟨after, ran, kept, consumed, elsewhere, later⟩ :=
      inductionHypothesis middle merged.invariant hours.2 listedAfter
    refine ⟨after, by rw [List.foldlM_cons, stepped]; exact ran, kept,
      consumed.trans merged.consumed, ?_, ?_⟩
    · intro p outside
      obtain ⟨notHere, notLater⟩ := List.forall_mem_cons.mp outside
      rw [elsewhere p notLater]
      exact (merged.elsewhere p notHere).1
    · intro part member fits
      cases member with
      | head =>
        -- no later hour touches what this one left
        rw [← mergeHour_collapses policy clock invariant lists isNonempty fits stepped]
        apply OneBlock.congr
        intro p slot
        apply elsewhere p
        intro part member same
        exact apart part member p same slot
      | tail _ member =>
        apply later part member
        have sameRows : totalRows middle.cold.files part.2 = totalRows run.cold.files part.2 := by
          refine congrArg List.sum (List.map_congr_left (fun r inPart => ?_))
          have slot := (((listedLater part member).1.complete r).mp inPart).2
          rw [rowsAt_eq_of_getElem? (merged.elsewhere r (apart part member r slot)).2]
        exact sameRows.trans_le fits

/-- The closed-day phase leaves the blocks of a day that is not closed. -/
theorem mergeDay_loop_elsewhere (policy : MergePolicy) (scope : MergeScope) (clock : Clock)
    {partitions : List (Day × List BlockPath)} {run : MergeRun}
    (invariant : ColdInvariant run.cold) (consumed : run.consumed = [])
    (days : (partitions.map Prod.fst).Nodup)
    (listed : ∀ part ∈ partitions, part.2.Nodup ∧
      ∀ r ∈ part.2, run.cold.index.Names r ∧ (slotOf r).dayOf = part.1) :
    ∃ after, partitions.foldlM (mergeDay policy scope false clock) run = some after ∧
      ∀ p, dayIsClosed (slotOf p).dayOf clock.today = false →
        (after.cold.index.Names p ↔ run.cold.index.Names p) := by
  -- on the days that are left; a day that is not closed is passed over
  induction partitions generalizing run with
  | nil => exact ⟨run, rfl, fun _ _ => .rfl⟩
  | cons part partitions inductionHypothesis =>
    obtain ⟨d, rels⟩ := part
    rw [List.map_cons, List.nodup_cons] at days
    obtain ⟨⟨distinct, inDay⟩, listedLater⟩ := List.forall_mem_cons.mp listed
    by_cases closed : dayIsClosed d clock.today = true
    · obtain ⟨middle, stepped, merged⟩ :=
        mergeDay_merged policy scope clock invariant consumed closed distinct inDay
      have listedAfter : ∀ part ∈ partitions, part.2.Nodup ∧
          ∀ r ∈ part.2, middle.cold.index.Names r ∧ (slotOf r).dayOf = part.1 := by
        intro part member
        obtain ⟨partDistinct, inPart⟩ := listedLater part member
        refine ⟨partDistinct, fun r here => ⟨?_, (inPart r here).2⟩⟩
        -- a block lies in one day only
        have outside : ¬ InDir (.day d) r := by
          intro inside
          have same : d = part.1 := Eq.trans (Eq.symm inside) (inPart r here).2
          exact days.1 (List.mem_map.mpr ⟨part, member, same.symm⟩)
        exact ((merged.elsewhere r outside).1).mpr (inPart r here).1
      obtain ⟨after, ran, elsewhere⟩ := inductionHypothesis merged.invariant
        (merged.consumed.trans consumed) days.2 listedAfter
      refine ⟨after, by rw [List.foldlM_cons, stepped]; exact ran, fun p notClosed => ?_⟩
      rw [elsewhere p notClosed]
      apply (merged.elsewhere p _).1
      intro inside
      rw [show (slotOf p).dayOf = d from inside, closed] at notClosed
      cases notClosed
    · obtain ⟨after, ran, elsewhere⟩ := inductionHypothesis invariant consumed days.2 listedLater
      refine ⟨after, ?_, elsewhere⟩
      rw [List.foldlM_cons, mergeDay, if_neg closed]
      exact ran

/-- After a full pass over any reachable cold state, an hour of a day that is not closed
and whose blocks fit together has exactly one block, unless a merged block's seqno range
already spans those of the hour's two or more blocks. -/
theorem mergeCold_collapses_iff {cold : ColdState} (reached : ColdReachable cold)
    (policy : MergePolicy) (clock : Clock) :
    ∃ run, mergeCold policy .full false clock cold = some run ∧
      ∀ h, dayIsClosed h.day clock.today = false → hourBlocks cold.index h ≠ [] →
        totalRows cold.files (hourBlocks cold.index h) ≤ policy.maxSpansPerBlock →
        (OneBlock run.cold.index h ↔ ¬ Covered (hourBlocks cold.index h)) := by
  have invariant := reached.invariant
  have partition : ∀ part ∈ (group cold.index).1.toList,
      part.2 = hourBlocks cold.index part.1 := fun part member => mem_group_hours member
  have lists : ∀ h, ListsHour cold h (hourBlocks cold.index h) :=
    fun h => ⟨nodup_hourBlocks cold.index h, fun r => mem_hourBlocks⟩
  have listed : ∀ part ∈ (group cold.index).1.toList,
      ListsHour cold part.1 part.2 ∧ part.2 ≠ [] := by
    intro part member
    refine ⟨partition part member ▸ lists part.1, fun empty => ?_⟩
    have entry := Std.ExtTreeMap.mem_toList_iff_getElem?_eq_some.mp member
    rw [group, getElem?_groupBlocks_hours, map_fst_blocksWithMaxStart] at entry
    split at entry
    · cases entry
    · next nonempty => exact nonempty ((partition part member).symm.trans empty)
  -- the hour phase leaves every hour as claimed
  obtain ⟨middle, hoursRan, middleInvariant, consumed, -, collapses⟩ :=
    mergeHour_loop_collapses policy clock { cold := cold, report := { dryRun := false } }
      invariant (nodup_group_hours cold.index) listed
  -- the day phase only touches closed days
  have days : ∃ run, mergeDays policy .full false clock middle = some run ∧
      ∀ p, dayIsClosed (slotOf p).dayOf clock.today = false →
        (run.cold.index.Names p ↔ middle.cold.index.Names p) := by
    rw [mergeDays]
    split
    · apply mergeDay_loop_elsewhere policy .full clock middleInvariant consumed
        (nodup_group_days _)
      intro part member
      rw [mem_group_days member]
      refine ⟨(Index.nodup_allBlockPaths _).filter _, fun r here => ?_⟩
      simpa using here
    · exact ⟨middle, rfl, fun _ _ => .rfl⟩
  obtain ⟨run, daysRan, elsewhere⟩ := days
  refine ⟨run, ?_, fun h isOpen isNonempty fits => ?_⟩
  · unfold mergeCold
    dsimp only
    rw [if_neg (by simp), mergeHours, hoursRan]
    exact daysRan
  -- an hour with a block is one of the listed ones
  · have entry : (h, hourBlocks cold.index h) ∈ (group cold.index).1.toList := by
      rw [Std.ExtTreeMap.mem_toList_iff_getElem?_eq_some, group, getElem?_groupBlocks_hours,
        map_fst_blocksWithMaxStart]
      exact if_neg isNonempty
    rw [← collapses _ entry fits]
    apply OneBlock.congr
    intro p slot
    apply elsewhere
    rw [slot]
    exact isOpen

/-! ### A merged block around another -/

def firstDay : Day := { year := 1970, month := 1, day := 1 }

def firstHour : Hour := { day := firstDay, hour := 0 }

def sameDay : Clock := { stamp := 0, now := 0, today := firstDay }

/-- Three segments of one hour: one row, two rows, one row. -/
def unevenHour : ColdState :=
  flushOne "t" 0 (flushOne "t" 0 (flushOne "t" 0 {} 1 [spanAt "a" 0]) 2
    [spanAt "b" 0, spanAt "c" 0]) 3 [spanAt "d" 0]

theorem unevenHour_reachable : ColdReachable unevenHour :=
  .next (.next (.next (.start rfl) (.flush "t" 0 [spanAt "a" 0] (by decide)))
    (.flush "t" 0 [spanAt "b" 0, spanAt "c" 0] (by decide)))
    (.flush "t" 0 [spanAt "d" 0] (by decide))

/-- The hour is open, its three blocks lie side by side, and one block is left of them. -/
theorem mergeCold_collapses_iff_unevenHour :
    (hourBlocks unevenHour.index firstHour).length = 3 ∧
    ∃ run, mergeCold {} .full false sameDay unevenHour = some run ∧
      OneBlock run.cold.index firstHour := by
  have three : (hourBlocks unevenHour.index firstHour).length = 3 := by decide +kernel
  have few : totalRows unevenHour.files (hourBlocks unevenHour.index firstHour) ≤ 1000000 := by
    decide +kernel
  -- no block is a merged one, so none is around another
  have flushed : (hourBlocks unevenHour.index firstHour).all (fun p =>
      match p with
      | .merged _ _ _ => false
      | _ => true) = true := by
    decide +kernel
  have apart : ¬ Covered (hourBlocks unevenHour.index firstHour) := by
    rintro ⟨-, p, member, ⟨h, lo, hi, rfl⟩, -⟩
    have plain := List.all_eq_true.mp flushed _ member
    cases plain
  have isNonempty : hourBlocks unevenHour.index firstHour ≠ [] := by
    intro empty
    rw [empty] at three
    cases three
  obtain ⟨run, ran, collapses⟩ := mergeCold_collapses_iff unevenHour_reachable {} sameDay
  exact ⟨three, run, ran, (collapses firstHour (by decide) isNonempty few).mpr apart⟩

/-- A tick merges the two small blocks around the larger one, and the full pass that
follows leaves the hour as it is. -/
theorem mergeCold_refuses : ∃ ticked full,
    mergeCold { hourThreshold := 2 } .tick false sameDay unevenHour = some ticked ∧
    ColdReachable ticked.cold ∧ mergeCold {} .full false sameDay ticked.cold = some full ∧
    hourBlocks ticked.cold.index firstHour ≠ [] ∧
    totalRows ticked.cold.files (hourBlocks ticked.cold.index firstHour) ≤ 1000000 ∧
    ¬ OneBlock full.cold.index firstHour := by
  have after : ((mergeCold { hourThreshold := 2 } .tick false sameDay unevenHour).any
      (fun ticked => (mergeCold {} .full false sameDay ticked.cold).any (fun full =>
        decide (hourBlocks ticked.cold.index firstHour ≠ []) &&
        decide (totalRows ticked.cold.files (hourBlocks ticked.cold.index firstHour) ≤ 1000000) &&
        decide ((hourBlocks full.cold.index firstHour).length = 2)))) = true := by
    decide +kernel
  obtain ⟨ticked, tickRan, after⟩ := (Option.any_eq_true _ _).mp after
  obtain ⟨full, fullRan, after⟩ := (Option.any_eq_true _ _).mp after
  simp only [Bool.and_eq_true, decide_eq_true_eq] at after
  obtain ⟨⟨isNonempty, fits⟩, two⟩ := after
  refine ⟨ticked, full, tickRan, .next unevenHour_reachable (.merge _ _ _ _ tickRan), fullRan,
    isNonempty, fits, fun one => ?_⟩
  have lists : ListsHour full.cold firstHour (hourBlocks full.cold.index firstHour) :=
    ⟨nodup_hourBlocks _ _, fun r => mem_hourBlocks⟩
  rw [lists.oneBlock_iff.mp one] at two
  cases two

end Evald.Store
