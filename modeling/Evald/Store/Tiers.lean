import Evald.Store.MergePass

/-! # Size tiers

On a tick the blocks of an hour merge with blocks of their tier, and the pass is cheap
because the merged block is in a higher one.  It is where the inputs hold enough distinct
spans (`tick_climbs_iff`): a merge drops copies, so the rows of the inputs do not add up.
-/

namespace Evald.Store

open Evald.Lib

/-- The spans among the rows of a chunk's inputs. -/
def distinctSpans (files : Files) (chunk : List Candidate) : Finset SpanKey :=
  ((inputRows files chunk).map spanKey).toFinset

/-- A number of rows is in a higher tier from twice the least of the tier on. -/
theorem tier_lt_tier_iff (t rows : Nat) : t < tier rows ↔ 2 ^ (t + 1) ≤ rows := by
  have nonzero : max rows 1 ≠ 0 := by omega
  have more : 2 ≤ 2 ^ (t + 1) := by
    rw [Nat.pow_succ]
    have := Nat.one_le_two_pow (n := t)
    omega
  rw [tier, ← Nat.succ_le_iff, Nat.le_log2 nonzero]
  omega

/-! ## What a merge leaves alone -/

theorem slotOf_outRel (dir : Slot) (chunk : List Candidate) : slotOf (outRel dir chunk) = dir := by
  cases dir <;> rfl

theorem stored_of_mapM {files : Files} {chunk : List Candidate} {inputs : List BlockFile}
    (opened : chunk.mapM (fun c => files[c.rel]?) = some inputs) :
    ∀ c ∈ chunk, ∃ file, files[c.rel]? = some file := by
  induction chunk generalizing inputs with
  | nil =>
    intro c member
    cases member
  | cons c chunk inductionHypothesis =>
    rw [List.mapM_cons] at opened
    obtain ⟨file, found, rest⟩ := Option.bind_eq_some_iff.mp opened
    obtain ⟨others, openedLater, -⟩ := Option.bind_eq_some_iff.mp rest
    exact List.forall_mem_cons.mpr ⟨⟨file, found⟩, inductionHypothesis openedLater⟩

theorem mergeOrSkip_rowsAt {stamp : Nat} {dir : Slot} {run after : MergeRun}
    {chunk : List Candidate} {p : BlockPath} (other : Executes dir chunk → p ≠ outRel dir chunk)
    (ran : mergeOrSkip stamp dir false run chunk = some after) :
    rowsAt after.cold.files p = rowsAt run.cold.files p := by
  by_cases executes : Executes dir chunk
  · have opened : ∃ inputs, chunk.mapM (fun c => run.cold.files[c.rel]?) = some inputs := by
      have apart : chunk.any (fun c => c.rel = outRel dir chunk) = false := by
        simpa using executes.2
      rw [mergeOrSkip, if_neg (not_lt.mpr executes.1), mergeChunk] at ran
      simp only [apart, Bool.false_eq_true, if_false, Option.bind_eq_bind] at ran
      obtain ⟨inputs, opened, -⟩ := Option.bind_eq_some_iff.mp ran
      exact ⟨inputs, opened⟩
    obtain ⟨inputs, opened⟩ := opened
    obtain ⟨after', ran', swaps⟩ := mergeOrSkip_swaps stamp (stored_of_mapM opened) executes
    rw [ran] at ran'
    cases ran'
    exact swaps.rowsAt_other (other executes)
  · rw [mergeOrSkip_skips executes] at ran
    cases ran
    rfl

/-- Only the output of an executed chunk gets other rows. -/
theorem mergeChunks_rowsAt {stamp : Nat} {dir : Slot} {planned : List (List Candidate)}
    {run after : MergeRun} {p : BlockPath}
    (other : ∀ chunk ∈ planned, Executes dir chunk → p ≠ outRel dir chunk)
    (ran : mergeChunks stamp dir false run planned = some after) :
    rowsAt after.cold.files p = rowsAt run.cold.files p := by
  induction planned generalizing run with
  | nil =>
    cases ran
    rfl
  | cons chunk planned inductionHypothesis =>
    rw [mergeChunks, List.foldlM_cons] at ran
    obtain ⟨middle, stepped, rest⟩ := Option.bind_eq_some_iff.mp ran
    rw [inductionHypothesis (fun later member => other later (List.mem_cons_of_mem _ member)) rest,
      mergeOrSkip_rowsAt (other chunk List.mem_cons_self) stepped]

/-- A merge into one directory leaves the rows in every other one. -/
theorem mergeChunks_elsewhere {stamp : Nat} {dir : Slot} {planned : List (List Candidate)}
    {run after : MergeRun} {p : BlockPath} (outside : slotOf p ≠ dir)
    (ran : mergeChunks stamp dir false run planned = some after) :
    rowsAt after.cold.files p = rowsAt run.cold.files p := by
  refine mergeChunks_rowsAt (fun chunk _ _ same => outside ?_) ran
  rw [same, slotOf_outRel]

theorem mergeHour_elsewhere {policy : MergePolicy} {scope : MergeScope} {clock : Clock}
    {partitions : List (Hour × List BlockPath)} {run after : MergeRun} {p : BlockPath}
    (outside : ∀ part ∈ partitions, slotOf p ≠ .hour part.1)
    (ran : partitions.foldlM (mergeHour policy scope false clock) run = some after) :
    rowsAt after.cold.files p = rowsAt run.cold.files p := by
  induction partitions generalizing run with
  | nil =>
    cases ran
    rfl
  | cons part partitions inductionHypothesis =>
    rw [List.foldlM_cons] at ran
    obtain ⟨middle, stepped, rest⟩ := Option.bind_eq_some_iff.mp ran
    rw [inductionHypothesis (fun part member => outside part (List.mem_cons_of_mem _ member)) rest,
      mergeChunks_elsewhere (outside part List.mem_cons_self) stepped]

/-- The closed days leave the rows of every hour. -/
theorem mergeDays_elsewhere {policy : MergePolicy} {scope : MergeScope} {clock : Clock}
    {run after : MergeRun} {p : BlockPath} {h : Hour} (hourly : slotOf p = .hour h)
    (ran : mergeDays policy scope false clock run = some after) :
    rowsAt after.cold.files p = rowsAt run.cold.files p := by
  unfold mergeDays at ran
  split at ran
  · generalize (group run.cold.index).2.toList = partitions at ran
    induction partitions generalizing run with
    | nil =>
      cases ran
      rfl
    | cons part partitions inductionHypothesis =>
      rw [List.foldlM_cons] at ran
      obtain ⟨middle, stepped, rest⟩ := Option.bind_eq_some_iff.mp ran
      rw [inductionHypothesis rest]
      unfold mergeDay at stepped
      split at stepped
      · refine mergeChunks_elsewhere (fun same => ?_) stepped
        rw [hourly] at same
        cases same
      · cases stepped
        rfl
  · cases ran
    rfl

/-! ## What a pass writes -/

/-- The block each executed chunk of a directory becomes. -/
theorem mergeChunks_outputs (stamp : Nat) {dir : Slot} {planned : List (List Candidate)}
    {run after : MergeRun} (invariant : ColdInvariant run.cold)
    (ready : ∀ chunk ∈ planned, Ready dir run.cold chunk)
    (distinct : (planned.flatten.map Candidate.rel).Nodup)
    (apart : ChunksApart dir planned)
    (ran : mergeChunks stamp dir false run planned = some after) :
    ∀ chunk ∈ planned, Executes dir chunk → rowsAt after.cold.files (outRel dir chunk) =
      firstCopies spanKey [] (inputRows run.cold.files chunk) := by
  -- on the chunks that are left: no later one writes over this output
  induction planned generalizing run with
  | nil =>
    intro chunk member
    cases member
  | cons first planned inductionHypothesis =>
    obtain ⟨before, later⟩ := List.pairwise_cons.mp apart
    rw [mergeChunks, List.foldlM_cons] at ran
    obtain ⟨middle, stepped, rest⟩ := Option.bind_eq_some_iff.mp ran
    have readyHere := ready first List.mem_cons_self
    rw [List.flatten_cons, List.map_append, List.nodup_append] at distinct
    obtain ⟨-, distinctLater, disjoint⟩ := distinct
    have differs (c : Candidate) (here : c ∈ first) (chunk : List Candidate)
        (member : chunk ∈ planned) (c' : Candidate) (there : c' ∈ chunk) : c.rel ≠ c'.rel :=
      disjoint _ (List.mem_map_of_mem here) _
        (List.mem_map_of_mem (List.mem_flatten.mpr ⟨chunk, member, there⟩))
    by_cases executes : Executes dir first
    · have nonempty : first ≠ [] := by
        intro empty
        rw [empty] at executes
        exact absurd executes.1 (by simp)
      obtain ⟨middle', stepped', swaps⟩ := mergeOrSkip_swaps stamp
        (fun c here => invariant.stored _ (readyHere.named c here)) executes
      rw [stepped] at stepped'
      cases stepped'
      have readyMiddle : ∀ chunk ∈ planned, Ready dir middle.cold chunk :=
        fun chunk member => (ready chunk (List.mem_cons_of_mem _ member)).after_swap swaps
          (fun c here c' there => differs c here chunk member c' there)
      intro chunk member executesHere
      cases List.mem_cons.mp member with
      | inl same =>
        rw [same, mergeChunks_rowsAt (fun chunk member executesLater =>
          (before chunk member).2.1 executes executesLater) rest, swaps.rowsAt_output]
      | inr there =>
        have sameRows : inputRows middle.cold.files chunk = inputRows run.cold.files chunk := by
          refine List.flatMap_congr (fun c inChunk => ?_)
          exact swaps.rowsAt_other ((before chunk there).1 executes c inChunk)
        rw [inductionHypothesis (swaps.invariant invariant readyHere nonempty) readyMiddle
          distinctLater later rest chunk there executesHere, sameRows]
    · rw [mergeOrSkip_skips executes] at stepped
      cases stepped
      intro chunk member executesHere
      cases List.mem_cons.mp member with
      | inl same =>
        rw [same] at executesHere
        exact absurd executesHere executes
      | inr there =>
        exact inductionHypothesis invariant
          (fun chunk member => ready chunk (List.mem_cons_of_mem _ member)) distinctLater later rest
          chunk there executesHere

theorem hourChunks_congr {policy : MergePolicy} {scope : MergeScope} {files files' : Files}
    {rels : List BlockPath} (same : ∀ r ∈ rels, files[r]? = files'[r]?) :
    hourChunks policy scope files rels = hourChunks policy scope files' rels := by
  rw [hourChunks, hourChunks, candidates_congr same]

/-- A chunk is cut from the blocks of its partition. -/
theorem rel_of_mem_hourChunks {policy : MergePolicy} {scope : MergeScope} {files : Files}
    {rels : List BlockPath} (distinct : rels.Nodup) {chunk : List Candidate}
    (member : chunk ∈ hourChunks policy scope files rels) {c : Candidate} (here : c ∈ chunk) :
    c.rel ∈ rels := by
  have drawn := (plannedFrom_hourChunks policy scope files distinct).drawn c
    (List.mem_flatten.mpr ⟨chunk, member, here⟩)
  exact (mem_candidates drawn).1

/-- The blocks of every partition, by what the partition held before the pass. -/
theorem mergeHour_loop_outputs (policy : MergePolicy) (scope : MergeScope) (clock : Clock)
    {partitions : List (Hour × List BlockPath)} {run after : MergeRun}
    (invariant : ColdInvariant run.cold) (hours : (partitions.map Prod.fst).Nodup)
    (listed : ∀ part ∈ partitions, part.2.Nodup ∧
      ∀ r ∈ part.2, run.cold.index.Names r ∧ slotOf r = .hour part.1)
    (ran : partitions.foldlM (mergeHour policy scope false clock) run = some after) :
    ∀ part ∈ partitions, ∀ chunk ∈ hourChunks policy scope run.cold.files part.2,
      Executes (.hour part.1) chunk →
        rowsAt after.cold.files (outRel (.hour part.1) chunk) =
          firstCopies spanKey [] (inputRows run.cold.files chunk) := by
  -- on the hours that are left: an output lies in its own hour
  induction partitions generalizing run with
  | nil =>
    intro part member
    cases member
  | cons first partitions inductionHypothesis =>
    obtain ⟨h, rels⟩ := first
    rw [List.map_cons, List.nodup_cons] at hours
    obtain ⟨distinct, inHour⟩ := listed _ List.mem_cons_self
    rw [List.foldlM_cons] at ran
    obtain ⟨middle, stepped, rest⟩ := Option.bind_eq_some_iff.mp ran
    obtain ⟨middle', stepped', merged, clear⟩ :=
      mergeHour_merged policy scope clock invariant distinct inHour
    rw [stepped] at stepped'
    cases stepped'
    have otherHour (part : Hour × List BlockPath) (member : part ∈ partitions) : h ≠ part.1 := by
      intro same
      exact hours.1 (List.mem_map.mpr ⟨part, member, same.symm⟩)
    have outside (part : Hour × List BlockPath) (member : part ∈ partitions) (r : BlockPath)
        (here : r ∈ part.2) : ¬ InDir (.hour h) r := by
      intro inside
      have slots : Slot.hour h = Slot.hour part.1 :=
        inside.symm.trans ((listed part (List.mem_cons_of_mem _ member)).2 r here).2
      injection slots with same
      exact otherHour part member same
    intro part member chunk planned executes
    cases List.mem_cons.mp member with
    | inl same =>
      rw [same] at planned executes ⊢
      have kept : rowsAt after.cold.files (outRel (.hour h) chunk) =
          rowsAt middle.cold.files (outRel (.hour h) chunk) := by
        refine mergeHour_elsewhere (fun part member slots => ?_) rest
        rw [slotOf_outRel] at slots
        injection slots with sameHour
        exact otherHour part member sameHour
      have fromRels := plannedFrom_hourChunks policy scope run.cold.files distinct
      have nothingConsumed (planned : List (List Candidate)) :
          { run with consumed := run.consumed ++ consumedBy false planned } = run := by
        simp [consumedBy]
      rw [mergeHour] at stepped
      dsimp only at stepped
      rw [nothingConsumed] at stepped
      rw [kept]
      exact mergeChunks_outputs clock.stamp invariant
        (ready_of_candidates (.hour h) invariant inHour fromRels) fromRels.distinct clear.apart
        stepped chunk planned executes
    | inr there =>
      have sameFiles : ∀ r ∈ part.2, middle.cold.files[r]? = run.cold.files[r]? :=
        fun r here => (merged.elsewhere r (outside part there r here)).2
      have partDistinct := (listed part (List.mem_cons_of_mem _ there)).1
      have sameRows : inputRows middle.cold.files chunk = inputRows run.cold.files chunk := by
        refine List.flatMap_congr (fun c inChunk => ?_)
        rw [rowsAt, rowsAt, sameFiles _ (rel_of_mem_hourChunks partDistinct planned inChunk)]
      have listedAfter : ∀ part ∈ partitions, part.2.Nodup ∧
          ∀ r ∈ part.2, middle.cold.index.Names r ∧ slotOf r = .hour part.1 := by
        intro part member
        obtain ⟨partDistinct, inPart⟩ := listed part (List.mem_cons_of_mem _ member)
        refine ⟨partDistinct, fun r here => ⟨?_, (inPart r here).2⟩⟩
        exact ((merged.elsewhere r (outside part member r here)).1).mpr (inPart r here).1
      rw [← sameRows]
      refine inductionHypothesis merged.invariant hours.2 listedAfter rest part there chunk ?_
        executes
      rw [hourChunks_congr sameFiles]
      exact planned

theorem mergeCold_outputs (policy : MergePolicy) (clock : Clock) {cold : ColdState}
    (invariant : ColdInvariant cold) (enabled : policy.enabled = true) :
    ∃ run, mergeCold policy .tick false clock cold = some run ∧
      ∀ part ∈ (group cold.index).1.toList,
        ∀ chunk ∈ hourChunks policy .tick cold.files part.2, Executes (.hour part.1) chunk →
          rowsAt run.cold.files (outRel (.hour part.1) chunk) =
            firstCopies spanKey [] (inputRows cold.files chunk) := by
  obtain ⟨run, ran, -, -⟩ := mergeCold_spec policy .tick false clock invariant
  refine ⟨run, ran, fun part member chunk planned executes => ?_⟩
  simp only [mergeCold, enabled, Bool.not_true, Bool.and_false, Bool.false_eq_true, if_false,
    Option.bind_eq_bind] at ran
  obtain ⟨middle, hoursRan, daysRan⟩ := Option.bind_eq_some_iff.mp ran
  have listed : ∀ part ∈ (group cold.index).1.toList, part.2.Nodup ∧
      ∀ r ∈ part.2, cold.index.Names r ∧ slotOf r = .hour part.1 := by
    intro part member
    have rows := mem_group_hours member
    rw [rows]
    refine ⟨(Index.nodup_allBlockPaths _).filter _, fun r here => ?_⟩
    simpa using here
  rw [mergeDays_elsewhere (slotOf_outRel (.hour part.1) chunk) daysRan]
  exact mergeHour_loop_outputs policy .tick clock invariant (nodup_group_hours _) listed hoursRan
    part member chunk planned executes

/-! ## The law -/

/-- A tick pass over a reachable state completes, and the block it writes for a chunk of an
hour is in a higher tier than every input exactly when the inputs hold twice as many
distinct spans as the least block of their tier. -/
theorem tick_climbs_iff (policy : MergePolicy) (clock : Clock) {cold : ColdState}
    (reached : ColdReachable cold) (threshold : 2 ≤ policy.hourThreshold) :
    ∃ run, mergeCold policy .tick false clock cold = some run ∧
      ∀ part ∈ (group cold.index).1.toList,
        ∀ chunk ∈ hourChunks policy .tick cold.files part.2, Executes (.hour part.1) chunk →
          ((∀ c ∈ chunk,
              tier c.rows < tier (rowsAt run.cold.files (outRel (.hour part.1) chunk)).length) ↔
            ∀ c ∈ chunk, 2 ^ (tier c.rows + 1) ≤ (distinctSpans cold.files chunk).card) := by
  have enabled : policy.enabled = true := by
    rw [MergePolicy.enabled, decide_eq_true_eq]
    omega
  obtain ⟨run, ran, outputs⟩ := mergeCold_outputs policy clock reached.invariant enabled
  refine ⟨run, ran, fun part member chunk planned executes => ?_⟩
  rw [outputs part member chunk planned executes, length_firstCopies]
  exact forall₂_congr (fun c _ => tier_lt_tier_iff _ _)

/-- A span and its copy, flushed from two segments. -/
def sentTwice : ColdState :=
  flushOne "t" 0 (flushOne "t" 0 {} 1 [spanAt "a" 1700006400000000000]) 2
    [spanAt "a" 1700006400000000000]

def sentTwiceDay : Clock := { stamp := 0, now := 0, today := { year := 2023, month := 11, day := 15 } }

theorem sentTwice_reachable : ColdReachable sentTwice :=
  .next (.next (.start rfl) (.flush "t" 0 _ (by decide))) (.flush "t" 0 _ (by decide))

theorem tick_climbs_iff_sentTwice :
    ∃ run, mergeCold { hourThreshold := 2 } .tick false sentTwiceDay sentTwice = some run ∧
      ∀ part ∈ (group sentTwice.index).1.toList,
        ∀ chunk ∈ hourChunks { hourThreshold := 2 } .tick sentTwice.files part.2,
          Executes (.hour part.1) chunk →
          ((∀ c ∈ chunk,
              tier c.rows < tier (rowsAt run.cold.files (outRel (.hour part.1) chunk)).length) ↔
            ∀ c ∈ chunk, 2 ^ (tier c.rows + 1) ≤ (distinctSpans sentTwice.files chunk).card) :=
  tick_climbs_iff { hourThreshold := 2 } sentTwiceDay sentTwice_reachable (by decide)

/-- Two blocks of one row merge into a block of one row. -/
theorem tick_stays_in_tier :
    ∃ run, mergeCold { hourThreshold := 2 } .tick false sentTwiceDay sentTwice = some run ∧
      ColdReachable sentTwice ∧
      ∃ part ∈ (group sentTwice.index).1.toList,
        ∃ chunk ∈ hourChunks { hourThreshold := 2 } .tick sentTwice.files part.2,
          Executes (.hour part.1) chunk ∧ ∃ c ∈ chunk,
            ¬ tier c.rows < tier (rowsAt run.cold.files (outRel (.hour part.1) chunk)).length := by
  have found : (mergeCold { hourThreshold := 2 } .tick false sentTwiceDay sentTwice).any (fun run =>
      (group sentTwice.index).1.toList.any (fun part =>
        (hourChunks { hourThreshold := 2 } .tick sentTwice.files part.2).any (fun chunk =>
          decide (Executes (.hour part.1) chunk) && chunk.any (fun c => decide (¬ tier c.rows <
            tier (rowsAt run.cold.files (outRel (.hour part.1) chunk)).length))))) = true := by
    decide
  cases ran : mergeCold { hourThreshold := 2 } .tick false sentTwiceDay sentTwice with
  | none =>
    rw [ran] at found
    cases found
  | some run =>
    rw [ran] at found
    simp only [Option.any_some, List.any_eq_true, Bool.and_eq_true, decide_eq_true_eq] at found
    exact ⟨run, rfl, sentTwice_reachable, found⟩

end Evald.Store
