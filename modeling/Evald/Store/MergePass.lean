import Evald.Store.MergeKeys

/-! # A whole merge pass

The hour phase keeps the keys of every reachable cold state; the closed-day phase
does so exactly where the chunks of each closed day are apart.  The loops run over
the partitions one after the other, and a partition's merges leave every other
partition as it was (`Merged.elsewhere`), so what the planner read about a later
one still holds when its turn comes.
-/

namespace Evald.Store

open Evald.Lib

theorem ready_of_candidates (dir : Slot) {cold : ColdState} {rels : List BlockPath}
    {planned : List (List Candidate)} (invariant : ColdInvariant cold)
    (listed : ∀ r ∈ rels, cold.index.Names r ∧ InDir dir r)
    (fromRels : PlannedFrom (candidates cold.files rels) planned) :
    ∀ chunk ∈ planned, Ready dir cold chunk := by
  intro chunk member
  have drawn : ∀ c ∈ chunk, c.rel ∈ rels ∧ candidate cold.files c.rel = some c :=
    fun c here => mem_candidates (fromRels.drawn c (List.mem_flatten.mpr ⟨chunk, member, here⟩))
  refine ⟨fun c here => (listed c.rel (drawn c here).1).1, fun c here => ?_,
    fun c here => (listed c.rel (drawn c here).1).2⟩
  obtain ⟨-, file, found, -, lo, hi⟩ := candidate_eq_some (drawn c here).2
  obtain ⟨agreesLo, agreesHi⟩ :=
    invariant.agrees c.rel file (listed c.rel (drawn c here).1).1 found
  exact ⟨lo.trans agreesLo, hi.trans agreesHi⟩

/-! ## Hour partitions -/

/-- Blocks of one hour that start at different seqnos cannot be merged over each other. -/
theorem clear_hour {h : Hour} {cold : ColdState} {planned : List (List Candidate)}
    (invariant : ColdInvariant cold) (ready : ∀ chunk ∈ planned, Ready (.hour h) cold chunk)
    (distinct : (planned.flatten.map Candidate.rel).Nodup) : Clear (.hour h) cold planned := by
  -- an indexed block at an output's path starts where one of the inputs does, so is that input
  have inputAtOut : ∀ chunk ∈ planned, Executes (.hour h) chunk → ∀ p, cold.index.Names p →
      slotOf p = .hour h → p.seqnoLo = (outRel (.hour h) chunk).seqnoLo →
      ∃ c ∈ chunk, c.rel = p := by
    intro chunk member executes p named slot sameLo
    have nonempty : chunk ≠ [] := by
      rintro rfl
      exact absurd executes.1 (by simp)
    obtain ⟨c, here, cLo⟩ := exists_rel_seqnoLo (ready chunk member) nonempty
    exact ⟨c, here, invariant.apart c.rel p h ((ready chunk member).named c here) named
      ((ready chunk member).placed c here) slot (cLo.trans sameLo.symm)⟩
  have noneAtOut : ∀ chunk ∈ planned, Executes (.hour h) chunk →
      ¬ cold.index.Names (outRel (.hour h) chunk) := by
    intro chunk member executes named
    obtain ⟨c, here, same⟩ := inputAtOut chunk member executes _ named rfl rfl
    exact executes.2 c here same
  refine ⟨?_, fun chunk member executes named => absurd named (noneAtOut chunk member executes)⟩
  rw [List.map_flatten, List.nodup_flatten, List.pairwise_map] at distinct
  refine distinct.2.imp_of_mem (fun {earlier later} earlierIn laterIn apart => ⟨?_, ?_, ?_⟩)
  · exact fun executes c here same =>
      noneAtOut earlier earlierIn executes (same ▸ (ready later laterIn).named c here)
  · intro earlierExecutes laterExecutes same
    have nonempty : later ≠ [] := by
      rintro rfl
      exact absurd laterExecutes.1 (by simp)
    obtain ⟨c, here, cLo⟩ := exists_rel_seqnoLo (ready later laterIn) nonempty
    obtain ⟨c', there, sameRel⟩ := inputAtOut earlier earlierIn earlierExecutes c.rel
      ((ready later laterIn).named c here) ((ready later laterIn).placed c here)
      (cLo.trans (congrArg BlockPath.seqnoLo same.symm))
    exact apart (List.mem_map_of_mem there) (sameRel ▸ List.mem_map_of_mem here)
  · exact fun executes _ c here same =>
      noneAtOut later laterIn executes (same ▸ (ready earlier earlierIn).named c here)

/-- What a phase that writes over no indexed block does. -/
structure Kept (before after : MergeRun) : Prop where
  invariant : ColdInvariant after.cold
  watermark : after.cold.index.watermark = before.cold.index.watermark
  consumed : after.consumed = before.consumed
  clobbered : after.clobbered = before.clobbered
  keys : ∀ k, after.cold.Holds k ↔ before.cold.Holds k
  steps : ChunkMerges before.cold after.cold

/-- The blocks of the partition are the indexed blocks of its hour that the planner sees. -/
theorem mergeHour_merged (policy : MergePolicy) (scope : MergeScope) (clock : Clock)
    {h : Hour} {rels : List BlockPath} {run : MergeRun} (invariant : ColdInvariant run.cold)
    (distinct : rels.Nodup) (inHour : ∀ r ∈ rels, run.cold.index.Names r ∧ slotOf r = .hour h) :
    ∃ after, mergeHour policy scope false clock run (h, rels) = some after ∧
      Merged (.hour h) (hourChunks policy scope run.cold.files rels) run after ∧
      Clear (.hour h) run.cold (hourChunks policy scope run.cold.files rels) := by
  have planned := plannedFrom_hourChunks policy scope run.cold.files distinct
  have ready := ready_of_candidates (.hour h) invariant inHour planned
  obtain ⟨after, ran, merged⟩ := mergeChunks_merged clock.stamp invariant ready planned.distinct
  refine ⟨after, ?_, merged, clear_hour invariant ready planned.distinct⟩
  have nothingConsumed : ∀ planned,
      { run with consumed := run.consumed ++ consumedBy false planned } = run := by
    intro planned
    simp [consumedBy]
  rw [mergeHour]
  dsimp only
  rw [nothingConsumed, ran]

theorem mergeHour_loop (policy : MergePolicy) (scope : MergeScope) (clock : Clock)
    {partitions : List (Hour × List BlockPath)} {run : MergeRun}
    (invariant : ColdInvariant run.cold) (hours : (partitions.map Prod.fst).Nodup)
    (listed : ∀ part ∈ partitions, part.2.Nodup ∧
      ∀ r ∈ part.2, run.cold.index.Names r ∧ slotOf r = .hour part.1) :
    ∃ after, partitions.foldlM (mergeHour policy scope false clock) run = some after ∧
      Kept run after := by
  -- on the hours that are left, which the merge of this one does not touch
  induction partitions generalizing run with
  | nil => exact ⟨run, rfl, invariant, rfl, rfl, rfl, fun _ => .rfl, .refl⟩
  | cons part partitions inductionHypothesis =>
    obtain ⟨h, rels⟩ := part
    rw [List.map_cons, List.nodup_cons] at hours
    obtain ⟨distinct, inHour⟩ := listed _ List.mem_cons_self
    obtain ⟨middle, stepped, merged, clear⟩ :=
      mergeHour_merged policy scope clock invariant distinct inHour
    have notClobbered : middle.clobbered = run.clobbered := by
      obtain ⟨added, grown, addedIff⟩ := merged.clobbered
      rw [grown, addedIff.mpr clear, List.nil_append]
    have listedAfter : ∀ part ∈ partitions, part.2.Nodup ∧
        ∀ r ∈ part.2, middle.cold.index.Names r ∧ slotOf r = .hour part.1 := by
      intro part member
      obtain ⟨partDistinct, inPart⟩ := listed part (List.mem_cons_of_mem _ member)
      refine ⟨partDistinct, fun r here => ⟨?_, (inPart r here).2⟩⟩
      have outside : ¬ InDir (.hour h) r := by
        intro inside
        have same : h = part.1 := by
          have slots : Slot.hour h = Slot.hour part.1 := inside.symm.trans (inPart r here).2
          injection slots
        exact hours.1 (List.mem_map.mpr ⟨part, member, same.symm⟩)
      exact ((merged.elsewhere r outside).1).mpr (inPart r here).1
    obtain ⟨after, ran, kept⟩ := inductionHypothesis merged.invariant hours.2 listedAfter
    refine ⟨after, ?_, kept.invariant, kept.watermark.trans merged.watermark,
      kept.consumed.trans merged.consumed, kept.clobbered.trans notClobbered,
      fun k => (kept.keys k).trans (merged.keys clear k), merged.steps.trans kept.steps⟩
    rw [List.foldlM_cons, stepped]
    exact ran

theorem nodup_group_hours (index : Index) :
    ((group index).1.toList.map Prod.fst).Nodup := nodup_keys_toList _

theorem mergeHours_kept (policy : MergePolicy) (scope : MergeScope) (clock : Clock)
    (run : MergeRun) (invariant : ColdInvariant run.cold) :
    ∃ after, mergeHours policy scope false clock run = some after ∧ Kept run after := by
  refine mergeHour_loop policy scope clock invariant (nodup_group_hours _) ?_
  rintro ⟨h, rels⟩ member
  have rows := mem_group_hours member
  subst rows
  refine ⟨(Index.nodup_allBlockPaths _).filter _, fun r here => ?_⟩
  simpa using here

/-! ## Closed days -/

/-- The chunks of every closed day are apart. -/
def DaysApart (policy : MergePolicy) (scope : MergeScope) (clock : Clock) (files : Files)
    (partitions : List (Day × List BlockPath)) : Prop :=
  ∀ part ∈ partitions, dayIsClosed part.1 clock.today = true →
    ChunksApart (.day part.1) (dayChunks policy scope clock [] files part.2)

theorem plannedFrom_dayChunks (policy : MergePolicy) (scope : MergeScope) (clock : Clock)
    (files : Files) {rels : List BlockPath} (distinct : rels.Nodup) :
    PlannedFrom (candidates files rels) (dayChunks policy scope clock [] files rels) := by
  have all : rels.filter (fun r => r ∉ ([] : List BlockPath)) = rels := by simp
  simp only [dayChunks, all]
  split
  · exact plannedFrom_nil _
  · split
    · exact plannedFrom_nil _
    · exact plannedFrom_chunks _ (nodup_rels_candidates files distinct)

theorem dayChunks_congr {policy : MergePolicy} {scope : MergeScope} {clock : Clock}
    {consumed rels : List BlockPath} {files files' : Files}
    (same : ∀ r ∈ rels, files[r]? = files'[r]?) :
    dayChunks policy scope clock consumed files rels =
      dayChunks policy scope clock consumed files' rels := by
  have agree : candidates files (rels.filter (fun r => r ∉ consumed)) =
      candidates files' (rels.filter (fun r => r ∉ consumed)) :=
    candidates_congr (fun r member => same r (List.mem_of_mem_filter member))
  simp only [dayChunks, agree]

/-- A day's chunks are cut from all its blocks, so only they can be in each other's way. -/
theorem clear_day_iff {d : Day} (policy : MergePolicy) (scope : MergeScope) (clock : Clock)
    {cold : ColdState} {rels : List BlockPath} (invariant : ColdInvariant cold)
    (complete : ∀ r, r ∈ rels ↔ cold.index.Names r ∧ (slotOf r).dayOf = d) :
    Clear (.day d) cold (dayChunks policy scope clock [] cold.files rels) ↔
      ChunksApart (.day d) (dayChunks policy scope clock [] cold.files rels) := by
  refine ⟨Clear.apart, fun apart => ⟨apart, fun chunk member executes named => ?_⟩⟩
  have all : rels.filter (fun r => r ∉ ([] : List BlockPath)) = rels := by simp
  simp only [dayChunks, all] at member ⊢
  split at member
  · cases member
  · next many =>
    split at member
    · cases member
    · next goes =>
      rw [if_neg many, if_neg goes]
      obtain ⟨file, found⟩ := invariant.stored _ named
      have listed : outRel (.day d) chunk ∈ rels :=
        (complete _).mpr ⟨named, inDir_outRel (.day d) chunk⟩
      obtain ⟨c, planned⟩ : ∃ c, candidate cold.files (outRel (.day d) chunk) = some c := by
        rw [candidate, found]
        exact ⟨_, rfl⟩
      exact ⟨c, (flatten_chunks_perm _ _).symm.subset
        (List.mem_filterMap.mpr ⟨_, listed, planned⟩), (candidate_eq_some planned).1⟩

/-- What the closed-day phase does: all it may do wrong is to write over an indexed
block, and it does so exactly where `apart` fails. -/
structure KeptIf (apart : Prop) (before after : MergeRun) : Prop where
  invariant : ColdInvariant after.cold
  watermark : after.cold.index.watermark = before.cold.index.watermark
  clobbered : ∃ added, after.clobbered = added ++ before.clobbered ∧ (added = [] ↔ apart)
  keys : apart → ∀ k, after.cold.Holds k ↔ before.cold.Holds k
  steps : ChunkMerges before.cold after.cold

theorem mergeDay_merged (policy : MergePolicy) (scope : MergeScope) (clock : Clock)
    {d : Day} {rels : List BlockPath} {run : MergeRun} (invariant : ColdInvariant run.cold)
    (consumed : run.consumed = []) (closed : dayIsClosed d clock.today = true)
    (distinct : rels.Nodup)
    (inDay : ∀ r ∈ rels, run.cold.index.Names r ∧ (slotOf r).dayOf = d) :
    ∃ after, mergeDay policy scope false clock run (d, rels) = some after ∧
      Merged (.day d) (dayChunks policy scope clock [] run.cold.files rels) run after := by
  have planned := plannedFrom_dayChunks policy scope clock run.cold.files distinct
  have ready := ready_of_candidates (.day d) invariant inDay planned
  obtain ⟨after, ran, merged⟩ := mergeChunks_merged clock.stamp invariant ready planned.distinct
  exact ⟨after, by rw [mergeDay, if_pos closed, consumed, ran], merged⟩

theorem mergeDay_loop (policy : MergePolicy) (scope : MergeScope) (clock : Clock)
    {partitions : List (Day × List BlockPath)} {run : MergeRun}
    (invariant : ColdInvariant run.cold) (consumed : run.consumed = [])
    (days : (partitions.map Prod.fst).Nodup)
    (listed : ∀ part ∈ partitions, part.2.Nodup ∧
      ∀ r, r ∈ part.2 ↔ run.cold.index.Names r ∧ (slotOf r).dayOf = part.1) :
    ∃ after, partitions.foldlM (mergeDay policy scope false clock) run = some after ∧
      KeptIf (DaysApart policy scope clock run.cold.files partitions) run after := by
  -- on the days that are left, which the merge of this one does not touch
  induction partitions generalizing run with
  | nil =>
    have apart : DaysApart policy scope clock run.cold.files [] := fun part member => by
      cases member
    exact ⟨run, rfl, invariant, rfl, ⟨[], rfl, iff_of_true rfl apart⟩, fun _ _ => .rfl, .refl⟩
  | cons part partitions inductionHypothesis =>
    obtain ⟨d, rels⟩ := part
    rw [List.map_cons, List.nodup_cons] at days
    have listedLater : ∀ part ∈ partitions, part.2.Nodup ∧
        ∀ r, r ∈ part.2 ↔ run.cold.index.Names r ∧ (slotOf r).dayOf = part.1 :=
      fun part member => listed part (List.mem_cons_of_mem _ member)
    obtain ⟨distinct, complete⟩ := listed _ List.mem_cons_self
    by_cases closed : dayIsClosed d clock.today = true
    · obtain ⟨middle, stepped, merged⟩ := mergeDay_merged policy scope clock invariant consumed
        closed distinct (fun r here => (complete r).mp here)
      have clearIff := clear_day_iff policy scope clock invariant complete
      have otherDay : ∀ part ∈ partitions, ∀ r, (slotOf r).dayOf = part.1 →
          ¬ InDir (.day d) r := by
        intro part member r inPart inside
        have same : d = part.1 := Eq.trans (Eq.symm inside) inPart
        exact days.1 (List.mem_map.mpr ⟨part, member, same.symm⟩)
      have listedAfter : ∀ part ∈ partitions, part.2.Nodup ∧
          ∀ r, r ∈ part.2 ↔ middle.cold.index.Names r ∧ (slotOf r).dayOf = part.1 := by
        intro part member
        obtain ⟨partDistinct, inPart⟩ := listedLater part member
        refine ⟨partDistinct, fun r => (inPart r).trans (and_congr_left fun ofPart => ?_)⟩
        exact ((merged.elsewhere r (otherDay part member r ofPart)).1).symm
      -- the later days plan the same chunks after this one
      have sameCondition : DaysApart policy scope clock middle.cold.files partitions ↔
          DaysApart policy scope clock run.cold.files partitions := by
        refine forall₂_congr (fun part member => imp_congr_right fun _ => ?_)
        rw [dayChunks_congr (fun r here => (merged.elsewhere r
          (otherDay part member r (((listedLater part member).2 r).mp here).2)).2)]
      have condition : DaysApart policy scope clock run.cold.files ((d, rels) :: partitions) ↔
          ChunksApart (.day d) (dayChunks policy scope clock [] run.cold.files rels) ∧
            DaysApart policy scope clock run.cold.files partitions := by
        rw [DaysApart, List.forall_mem_cons]
        exact and_congr ⟨fun apart => apart closed, fun apart _ => apart⟩ .rfl
      obtain ⟨after, ran, kept⟩ := inductionHypothesis merged.invariant
        (merged.consumed.trans consumed) days.2 listedAfter
      refine ⟨after, ?_, kept.invariant, kept.watermark.trans merged.watermark, ?_, ?_,
        merged.steps.trans kept.steps⟩
      · rw [List.foldlM_cons, stepped]
        exact ran
      · obtain ⟨first, firstGrown, firstIff⟩ := merged.clobbered
        obtain ⟨later, laterGrown, laterIff⟩ := kept.clobbered
        refine ⟨later ++ first, by rw [laterGrown, firstGrown, List.append_assoc], ?_⟩
        rw [condition, List.append_eq_nil_iff, firstIff, laterIff, clearIff, sameCondition]
        exact and_comm
      · intro apart k
        obtain ⟨here, later⟩ := condition.mp apart
        exact (kept.keys (sameCondition.mpr later) k).trans (merged.keys (clearIff.mpr here) k)
    · obtain ⟨after, ran, kept⟩ := inductionHypothesis invariant consumed days.2 listedLater
      have condition : DaysApart policy scope clock run.cold.files ((d, rels) :: partitions) ↔
          DaysApart policy scope clock run.cold.files partitions := by
        rw [DaysApart, List.forall_mem_cons]
        exact and_iff_right (fun isClosed => absurd isClosed closed)
      refine ⟨after, ?_, kept.invariant, kept.watermark, ?_, fun apart =>
        kept.keys (condition.mp apart), kept.steps⟩
      · rw [List.foldlM_cons, mergeDay, if_neg closed]
        exact ran
      · rw [condition]
        exact kept.clobbered

theorem nodup_group_days (index : Index) :
    ((group index).2.toList.map Prod.fst).Nodup := nodup_keys_toList _

theorem mergeDays_keptIf (policy : MergePolicy) (scope : MergeScope) (clock : Clock)
    {run : MergeRun} (invariant : ColdInvariant run.cold) (consumed : run.consumed = [])
    (merges : policy.dayMerge = true) :
    ∃ after, mergeDays policy scope false clock run = some after ∧
      KeptIf (DaysApart policy scope clock run.cold.files (group run.cold.index).2.toList)
        run after := by
  rw [mergeDays, if_pos merges]
  refine mergeDay_loop policy scope clock invariant consumed (nodup_group_days _) ?_
  rintro ⟨d, rels⟩ member
  have rows := mem_group_days member
  subst rows
  refine ⟨(Index.nodup_allBlockPaths _).filter _, fun r => ?_⟩
  simp

/-! ## Previews -/

/-- A preview leaves the cold tier as it is. -/
theorem mergeCold_dryRun (policy : MergePolicy) (scope : MergeScope) (clock : Clock)
    (cold : ColdState) :
    ∃ run, mergeCold policy scope true clock cold = some run ∧ run.cold = cold ∧
      run.clobbered = [] := by
  have chunksKeep : ∀ (dir : Slot) (planned : List (List Candidate)) (run : MergeRun),
      run.cold = cold ∧ run.clobbered = [] →
      ∃ after, mergeChunks clock.stamp dir true run planned = some after ∧
        after.cold = cold ∧ after.clobbered = [] := by
    intro dir planned run untouched
    refine foldlM_keeps _ (fun before chunk same => ?_) planned untouched
    obtain ⟨after, stepped, sameCold, sameClobbered⟩ :=
      mergeOrSkip_dryRun clock.stamp dir before chunk
    exact ⟨after, stepped, sameCold.trans same.1, sameClobbered.trans same.2⟩
  unfold mergeCold
  dsimp only
  split
  · exact ⟨_, rfl, rfl, rfl⟩
  · obtain ⟨middle, hoursRan, untouched⟩ := foldlM_keeps (mergeHour policy scope true clock)
      (fun run part same => chunksKeep (.hour part.1) _ _ same)
      (group cold.index).1.toList (s := { cold := cold, report := { dryRun := true } })
      ⟨rfl, rfl⟩
    rw [mergeHours, hoursRan]
    change ∃ run, mergeDays policy scope true clock middle = some run ∧ _
    rw [mergeDays]
    split
    · refine foldlM_keeps _ (fun run part same => ?_) _ untouched
      rw [mergeDay]
      split
      · exact chunksKeep (.day part.1) _ _ same
      · exact ⟨run, rfl, same⟩
    · exact ⟨middle, rfl, untouched⟩

/-! ## Every reachable cold state -/

theorem coldInvariant_empty : ColdInvariant {} where
  stored := fun p named => absurd named (Index.names_empty p)
  agrees := fun p _ named => absurd named (Index.names_empty p)
  bounded := fun p named => absurd named (Index.names_empty p)
  apart := fun p _ _ named => absurd named (Index.names_empty p)

theorem names_flushOne {priceTable : String} {now seqno : Nat} {cold : ColdState}
    {spans : List NormalizedSpan} {p : BlockPath} :
    (flushOne priceTable now cold seqno spans).index.Names p ↔
      (∃ block ∈ flushPlan seqno spans, p = block.1) ∨ cold.index.Names p := by
  rw [flushOne, Index.names_commitFlush]
  simp only [List.mem_map, exists_exists_and_eq_and, blockMeta]

/-- A segment above the watermark is flushed to paths the index does not name. -/
theorem ColdInvariant.flush_fresh {cold : ColdState} (invariant : ColdInvariant cold)
    {seqno : Nat} (pending : cold.index.watermark < seqno) {spans : List NormalizedSpan}
    {block : BlockPath × List NormalizedSpan} (member : block ∈ flushPlan seqno spans) :
    ¬ cold.index.Names block.1 := by
  intro named
  obtain ⟨hour, idx, path, -⟩ := mem_flushPlan member
  have low := invariant.bounded _ named
  rw [path] at low
  exact absurd (Nat.lt_of_lt_of_le pending low) (lt_irrefl _)

theorem ColdInvariant.flush {cold : ColdState} (invariant : ColdInvariant cold) {seqno : Nat}
    (pending : cold.index.watermark < seqno) (priceTable : String) (now : Nat)
    (spans : List NormalizedSpan) : ColdInvariant (flushOne priceTable now cold seqno spans) := by
  have written : ∀ block ∈ flushPlan seqno spans,
      (flushOne priceTable now cold seqno spans).files[block.1]? =
        some ⟨block.2, (Provenance.flush seqno).withPriceTables [priceTable], some now⟩ :=
    fun block member => getElem?_foldl_writePlanned (nodup_paths_flushPlan seqno spans) member
  have kept : ∀ p, cold.index.Names p →
      (flushOne priceTable now cold seqno spans).files[p]? = cold.files[p]? := by
    intro p named
    refine getElem?_foldl_writePlanned_other (fun block member same => ?_)
    exact invariant.flush_fresh pending member (same ▸ named)
  have flushed : ∀ block ∈ flushPlan seqno spans, block.1.seqnoLo = seqno := by
    intro block member
    obtain ⟨hour, idx, path, -⟩ := mem_flushPlan member
    rw [path]
    rfl
  refine ⟨?_, ?_, ?_, ?_⟩
  · intro p named
    rcases names_flushOne.mp named with ⟨block, member, rfl⟩ | old
    · exact ⟨_, written block member⟩
    · rw [kept p old]
      exact invariant.stored p old
  · intro p file named found
    rcases names_flushOne.mp named with ⟨block, member, rfl⟩ | old
    · rw [written block member] at found
      cases found
      obtain ⟨hour, idx, path, -⟩ := mem_flushPlan member
      rw [path]
      exact ⟨rfl, rfl⟩
    · exact invariant.agrees p file old (by rw [← kept p old, found])
  · intro p named
    change p.seqnoLo ≤ seqno
    rcases names_flushOne.mp named with ⟨block, member, rfl⟩ | old
    · exact (flushed block member).le
    · exact (invariant.bounded p old).trans pending.le
  -- a flushed block starts above every block that was there
  · have clash : ∀ block ∈ flushPlan seqno spans, ∀ q, cold.index.Names q →
        block.1.seqnoLo = q.seqnoLo → False := by
      intro block member q old sameLo
      have low := invariant.bounded q old
      rw [← sameLo, flushed block member] at low
      exact absurd (Nat.lt_of_lt_of_le pending low) (lt_irrefl _)
    intro p q h pNamed qNamed pSlot qSlot sameLo
    rcases names_flushOne.mp pNamed with ⟨block, member, rfl⟩ | pOld
    · rcases names_flushOne.mp qNamed with ⟨block', member', rfl⟩ | qOld
      · have slots : slotOf block.1 = slotOf block'.1 := pSlot.trans qSlot.symm
        rw [List.inj_on_of_nodup_map (nodup_slots_flushPlan seqno spans) member member' slots]
      · exact (clash block member q qOld sameLo).elim
    · rcases names_flushOne.mp qNamed with ⟨block', member', rfl⟩ | qOld
      · exact (clash block' member' p pOld sameLo.symm).elim
      · exact invariant.apart p q h pOld qOld pSlot qSlot sameLo

/-- Dropping blocks, or files that are not indexed, keeps the invariant. -/
theorem ColdInvariant.shrink {cold cold' : ColdState} (invariant : ColdInvariant cold)
    (watermark : cold'.index.watermark = cold.index.watermark)
    (fewer : ∀ p, cold'.index.Names p → cold.index.Names p)
    (kept : ∀ p, cold'.index.Names p → cold'.files[p]? = cold.files[p]?) :
    ColdInvariant cold' where
  stored := fun p named => by
    rw [kept p named]
    exact invariant.stored p (fewer p named)
  agrees := fun p file named found =>
    invariant.agrees p file (fewer p named) (by rw [← kept p named, found])
  bounded := fun p named => by
    rw [watermark]
    exact invariant.bounded p (fewer p named)
  apart := fun p q h pNamed qNamed => invariant.apart p q h (fewer p pNamed) (fewer q qNamed)

theorem ColdInvariant.reclaim {cold : ColdState} (invariant : ColdInvariant cold) (cutoff : Nat)
    (dryRun : Bool) : ColdInvariant (reclaimBefore cutoff dryRun cold).1 := by
  rcases reclaimBefore_cases cutoff dryRun cold with same | ⟨paths, dropped⟩
  · rw [same]
    exact invariant
  · rw [dropped]
    refine invariant.shrink (Index.watermark_dropBlocks _ _)
      (fun p named => (Index.names_dropBlocks.mp named).2) (fun p named => ?_)
    exact getElem?_eraseAll_not_mem (Index.names_dropBlocks.mp named).1

theorem ColdInvariant.sweep {cold : ColdState} (invariant : ColdInvariant cold)
    (now olderThan : Nat) : ColdInvariant (sweepUnindexed now olderThan cold).1 :=
  invariant.shrink rfl (fun _ named => named) (fun _ named => getElem?_sweepUnindexed named)

/-- What one pass can do to a cold state that satisfies the invariant. -/
theorem mergeCold_spec (policy : MergePolicy) (scope : MergeScope) (dryRun : Bool) (clock : Clock)
    {cold : ColdState} (invariant : ColdInvariant cold) :
    ∃ run, mergeCold policy scope dryRun clock cold = some run ∧
      ColdInvariant run.cold ∧ ChunkMerges cold run.cold := by
  cases dryRun with
  | true =>
    obtain ⟨run, ran, same, -⟩ := mergeCold_dryRun policy scope clock cold
    exact ⟨run, ran, same ▸ invariant, same ▸ .refl⟩
  | false =>
    unfold mergeCold
    dsimp only
    split
    · exact ⟨_, rfl, invariant, .refl⟩
    · obtain ⟨middle, hoursRan, kept⟩ := mergeHours_kept policy scope clock
        { cold := cold, report := { dryRun := false } } invariant
      rw [hoursRan]
      change ∃ run, mergeDays policy scope false clock middle = some run ∧ _
      by_cases merges : policy.dayMerge = true
      · obtain ⟨run, ran, keptIf⟩ :=
          mergeDays_keptIf policy scope clock kept.invariant kept.consumed merges
        exact ⟨run, ran, keptIf.invariant, kept.steps.trans keptIf.steps⟩
      · exact ⟨middle, by rw [mergeDays, if_neg merges], kept.invariant, kept.steps⟩

theorem ColdInvariant.step {cold cold' : ColdState} (invariant : ColdInvariant cold)
    (stepped : ColdStep cold cold') : ColdInvariant cold' := by
  cases stepped with
  | flush priceTable now spans pending => exact invariant.flush pending priceTable now spans
  | merge policy scope dryRun clock ran =>
    obtain ⟨run', ran', kept, -⟩ := mergeCold_spec policy scope dryRun clock invariant
    rw [ran] at ran'
    cases ran'
    exact kept
  | reclaim cutoff dryRun => exact invariant.reclaim cutoff dryRun
  | sweep now olderThan => exact invariant.sweep now olderThan

theorem ColdReachable.invariant {cold : ColdState} (reached : ColdReachable cold) :
    ColdInvariant cold :=
  Reachable.invariant (fun _ begins => begins ▸ coldInvariant_empty)
    (fun _ _ kept stepped => kept.step stepped) reached

/-! ## When a pass keeps the keys -/

/-- The pass stored the same keys afterwards and wrote over no block the index named. -/
def KeepsKeys (cold : ColdState) (run : MergeRun) : Prop :=
  (∀ k, run.cold.Holds k ↔ cold.Holds k) ∧ run.clobbered = []

/-- The pass does not get to the closed days, or it finds their chunks apart. -/
def DayMergesApart (policy : MergePolicy) (scope : MergeScope) (dryRun : Bool) (clock : Clock)
    (cold : ColdState) : Prop :=
  dryRun = true ∨ policy.dayMerge = false ∨ (scope = .tick ∧ policy.enabled = false) ∨
    ∀ run, mergeHours policy scope false clock { cold := cold, report := { dryRun := false } } =
      some run → DaysApart policy scope clock run.cold.files (group run.cold.index).2.toList

/-- A pass over a reachable cold state completes, and it keeps the keys exactly when
its closed-day merges are apart. -/
theorem mergeCold_keeps_keys_iff {cold : ColdState} (reached : ColdReachable cold)
    (policy : MergePolicy) (scope : MergeScope) (dryRun : Bool) (clock : Clock) :
    ∃ run, mergeCold policy scope dryRun clock cold = some run ∧
      (KeepsKeys cold run ↔ DayMergesApart policy scope dryRun clock cold) := by
  have invariant := reached.invariant
  cases dryRun with
  | true =>
    obtain ⟨run, ran, same, none⟩ := mergeCold_dryRun policy scope clock cold
    exact ⟨run, ran, iff_of_true ⟨fun k => by rw [same], none⟩ (.inl rfl)⟩
  | false =>
    unfold mergeCold
    dsimp only
    split
    · next disabled =>
      have off : scope = .tick ∧ policy.enabled = false := by simpa using disabled
      exact ⟨_, rfl, iff_of_true ⟨fun _ => .rfl, rfl⟩ (.inr (.inr (.inl off)))⟩
    · next enabled =>
      have on : ¬ (scope = .tick ∧ policy.enabled = false) := by simpa using enabled
      obtain ⟨middle, hoursRan, kept⟩ := mergeHours_kept policy scope clock
        { cold := cold, report := { dryRun := false } } invariant
      rw [hoursRan]
      change ∃ run, mergeDays policy scope false clock middle = some run ∧ _
      have clobberedBefore : middle.clobbered = [] := kept.clobbered
      -- the hour phase always keeps the keys, so the day phase decides
      by_cases merges : policy.dayMerge = true
      · obtain ⟨run, ran, keptIf⟩ :=
          mergeDays_keptIf policy scope clock kept.invariant kept.consumed merges
        have condition : DayMergesApart policy scope false clock cold ↔
            DaysApart policy scope clock middle.cold.files (group middle.cold.index).2.toList := by
          simp only [DayMergesApart, hoursRan, merges, on, Option.some.injEq, forall_eq',
            Bool.false_eq_true, Bool.true_eq_false, false_or]
        obtain ⟨added, grown, addedIff⟩ := keptIf.clobbered
        rw [clobberedBefore, List.append_nil] at grown
        refine ⟨run, ran, ?_⟩
        rw [condition, KeepsKeys, grown]
        constructor
        · exact fun keeps => addedIff.mp keeps.2
        · exact fun apart => ⟨fun k => (keptIf.keys apart k).trans (kept.keys k),
            addedIff.mpr apart⟩
      · have off : policy.dayMerge = false := by simpa using merges
        exact ⟨middle, by rw [mergeDays, if_neg merges],
          iff_of_true ⟨kept.keys, clobberedBefore⟩ (.inr (.inl off))⟩

/-! ### A closed day that is cut twice -/

/-- The stored keys, listed. -/
def ColdState.keys (cold : ColdState) : List SpanKey :=
  cold.index.allBlockPaths.flatMap (fun p => (rowsAt cold.files p).map spanKey)

theorem ColdState.mem_keys {cold : ColdState} {k : SpanKey} : k ∈ cold.keys ↔ cold.Holds k := by
  simp only [ColdState.keys, List.mem_flatMap, Index.mem_allBlockPaths, ColdState.Holds]

def spanAt (traceId : String) (startUnixNano : Nat) : NormalizedSpan :=
  { traceId := traceId, spanId := "1", startUnixNano := startUnixNano }

/-- A span in each of the first four hours of 2023-11-15. -/
def fourSpans : List NormalizedSpan :=
  [spanAt "a" 1700006400000000000, spanAt "b" 1700010000000000000,
    spanAt "c" 1700013600000000000, spanAt "d" 1700017200000000000]

/-- They are one segment, flushed. -/
def fourHours : ColdState := flushOne "t" 0 {} 1 fourSpans

def nextYear : Clock := { stamp := 0, now := 0, today := { year := 2024, month := 1, day := 1 } }

theorem fourHours_reachable : ColdReachable fourHours :=
  .next (.start rfl) (.flush "t" 0 _ (by decide))

/-- With the default row cap the day is one chunk. -/
theorem mergeCold_keeps_keys_iff_fourHours :
    ∃ run, mergeCold {} .full false nextYear fourHours = some run ∧
      (KeepsKeys fourHours run ↔ DayMergesApart {} .full false nextYear fourHours) :=
  mergeCold_keeps_keys_iff fourHours_reachable {} .full false nextYear

/-- With two rows a block the day is two chunks of one range, and the second is
written over the first. -/
theorem mergeCold_loses_a_key :
    ∃ run, mergeCold { maxSpansPerBlock := 2 } .full false nextYear fourHours = some run ∧
      ColdReachable fourHours ∧ fourHours.Holds (keyOf "a" "1") ∧
      ¬ run.cold.Holds (keyOf "a" "1") ∧ run.clobbered ≠ [] := by
  have before : keyOf "a" "1" ∈ fourHours.keys := by decide
  have after : (mergeCold { maxSpansPerBlock := 2 } .full false nextYear fourHours).any
      (fun run => decide (keyOf "a" "1" ∉ run.cold.keys) && !run.clobbered.isEmpty) = true := by
    decide
  cases ran : mergeCold { maxSpansPerBlock := 2 } .full false nextYear fourHours with
  | none =>
    rw [ran] at after
    cases after
  | some run =>
    rw [ran] at after
    simp only [Option.any_some, Bool.and_eq_true, decide_eq_true_eq, Bool.not_eq_true',
      ColdState.mem_keys] at after
    refine ⟨run, rfl, fourHours_reachable, ColdState.mem_keys.mp before, after.1, ?_⟩
    rintro empty
    rw [empty] at after
    cases after.2

end Evald.Store
