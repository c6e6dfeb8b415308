import Evald.Store.Merge

/-! # What one merge does

`mergeChunk_swaps` says everything executing a chunk does: which blocks the index
names and maps afterwards, what the output file holds, and what is left of every
other file.  The results about whole passes are derived from it and from what the
planner guarantees of its chunks (`mem_of_mem_chunks`, `flatten_chunks`).
-/

namespace Evald.Store

open Evald.Lib

/-! ## Paths and the range they name -/

def BlockPath.seqnoLo : BlockPath → Nat
  | .flush _ seqno _ => seqno
  | .merged _ lo _ => lo
  | .day _ lo _ => lo

def BlockPath.seqnoHi : BlockPath → Nat
  | .flush _ seqno _ => seqno
  | .merged _ _ hi => hi
  | .day _ _ hi => hi

/-- The blocks a merge into `dir` draws from. -/
def InDir (dir : Slot) (p : BlockPath) : Prop :=
  match dir with
  | .hour h => slotOf p = .hour h
  | .day d => (slotOf p).dayOf = d

theorem inDir_outRel (dir : Slot) (chunk : List Candidate) : InDir dir (outRel dir chunk) := by
  cases dir <;> rfl

@[simp] theorem seqnoLo_outRel (dir : Slot) (chunk : List Candidate) :
    (outRel dir chunk).seqnoLo = chunkLo chunk := by
  cases dir <;> rfl

@[simp] theorem seqnoHi_outRel (dir : Slot) (chunk : List Candidate) :
    (outRel dir chunk).seqnoHi = chunkHi chunk := by
  cases dir <;> rfl

theorem exists_seqnoLo_eq_chunkLo {chunk : List Candidate} (nonempty : chunk ≠ []) :
    ∃ c ∈ chunk, c.seqnoLo = chunkLo chunk := by
  cases found : (chunk.map Candidate.seqnoLo).min? with
  | none =>
    rw [List.min?_eq_none_iff, List.map_eq_nil_iff] at found
    exact absurd found nonempty
  | some lo =>
    obtain ⟨c, member, same⟩ := List.mem_map.mp (List.min?_mem found)
    exact ⟨c, member, by rw [chunkLo, found, same]; rfl⟩

/-! ## What the planner guarantees -/

theorem flatten_cutChunks (cap : Nat) (cands current : List Candidate) (rows : Nat) :
    (cutChunks cap current rows cands).flatten = current ++ cands := by
  induction cands generalizing current rows with
  | nil =>
    unfold cutChunks
    split
    · next empty => simp [List.isEmpty_iff.mp empty]
    · simp
  | cons c cands inductionHypothesis =>
    unfold cutChunks
    split
    · rw [List.flatten_cons, inductionHypothesis, List.singleton_append]
    · rw [inductionHypothesis, List.append_assoc, List.singleton_append]

/-- The chunks are the candidates in seqno order, cut. -/
theorem flatten_chunks (cands : List Candidate) (maxSpans : Nat) :
    (chunks cands maxSpans).flatten = cands.insertionSort seqnoOrder :=
  flatten_cutChunks _ _ _ _

theorem flatten_chunks_perm (cands : List Candidate) (maxSpans : Nat) :
    (chunks cands maxSpans).flatten.Perm cands := by
  rw [flatten_chunks]
  exact List.perm_insertionSort _ _

theorem candidate_eq_some {files : Files} {rel : BlockPath} {c : Candidate}
    (found : candidate files rel = some c) :
    c.rel = rel ∧ ∃ file, files[rel]? = some file ∧ c.rows = file.rows.length ∧
      c.seqnoLo = file.provenance.seqnoLo ∧ c.seqnoHi = file.provenance.seqnoHi := by
  obtain ⟨file, stored, rfl⟩ := Option.map_eq_some_iff.mp found
  exact ⟨rfl, file, stored, rfl, rfl, rfl⟩

theorem mem_candidates {files : Files} {rels : List BlockPath} {c : Candidate}
    (member : c ∈ candidates files rels) : c.rel ∈ rels ∧ candidate files c.rel = some c := by
  obtain ⟨rel, listed, found⟩ := List.mem_filterMap.mp member
  have same := (candidate_eq_some found).1
  rw [same]
  exact ⟨listed, found⟩

theorem map_rel_candidates_sublist (files : Files) (rels : List BlockPath) :
    ((candidates files rels).map Candidate.rel).Sublist rels := by
  induction rels with
  | nil => exact .slnil
  | cons rel rels inductionHypothesis =>
    unfold candidates at *
    cases found : candidate files rel with
    | none =>
      rw [List.filterMap_cons_none found]
      exact inductionHypothesis.cons rel
    | some c =>
      rw [List.filterMap_cons_some found, List.map_cons, (candidate_eq_some found).1]
      exact inductionHypothesis.cons_cons rel

theorem nodup_rels_candidates (files : Files) {rels : List BlockPath} (distinct : rels.Nodup) :
    ((candidates files rels).map Candidate.rel).Nodup :=
  distinct.sublist (map_rel_candidates_sublist files rels)

/-- A plan cut from `cands`: chunks of its candidates, none in two places. -/
structure PlannedFrom (cands : List Candidate) (planned : List (List Candidate)) : Prop where
  distinct : (planned.flatten.map Candidate.rel).Nodup
  drawn : ∀ c ∈ planned.flatten, c ∈ cands

theorem plannedFrom_nil (cands : List Candidate) : PlannedFrom cands [] :=
  ⟨List.nodup_nil, fun c member => by cases member⟩

theorem plannedFrom_chunks {cands : List Candidate} (maxSpans : Nat)
    (distinct : (cands.map Candidate.rel).Nodup) : PlannedFrom cands (chunks cands maxSpans) :=
  ⟨((flatten_chunks_perm cands maxSpans).map _).nodup_iff.mpr distinct,
    fun _ member => (flatten_chunks_perm cands maxSpans).subset member⟩

theorem plannedFrom_hourChunks (policy : MergePolicy) (scope : MergeScope) (files : Files)
    {rels : List BlockPath} (distinct : rels.Nodup) :
    PlannedFrom (candidates files rels) (hourChunks policy scope files rels) := by
  have apart := nodup_rels_candidates files distinct
  unfold hourChunks
  by_cases few : rels.length < minBlocks policy scope
  · rw [if_pos few]
    exact plannedFrom_nil _
  · rw [if_neg few]
    have cut : ((hourGroups policy scope (candidates files rels)).flatMap
        (fun cands => chunks cands policy.maxSpansPerBlock)).flatten.Perm
        (hourGroups policy scope (candidates files rels)).flatten := by
      have each : ∀ cands ∈ hourGroups policy scope (candidates files rels),
          (chunks cands policy.maxSpansPerBlock).flatten.Perm (id cands) :=
        fun cands _ => flatten_chunks_perm cands policy.maxSpansPerBlock
      have whole := List.Perm.flatMap_left _ each
      rw [List.flatMap_id] at whole
      rw [← List.flatMap_id (L := (hourGroups policy scope (candidates files rels)).flatMap _),
        List.flatMap_assoc]
      simpa only [List.flatMap_id] using whole
    have groups : ((hourGroups policy scope (candidates files rels)).flatten.map
        Candidate.rel).Nodup ∧ ∀ c ∈ (hourGroups policy scope (candidates files rels)).flatten,
          c ∈ candidates files rels := by
      cases scope with
      | full => simpa [hourGroups] using apart
      | tick =>
        have part : (hourGroups policy .tick (candidates files rels)).flatten.Sublist
            ((groupBy (fun c => tier c.rows) (candidates files rels)).toList.map
              Prod.snd).flatten := List.Sublist.flatten List.filter_sublist
        exact ⟨(nodup_flatten_groups apart).sublist (part.map _),
          fun c member => mem_of_mem_flatten_groups (part.subset member)⟩
    exact ⟨(cut.map _).nodup_iff.mpr groups.1,
      fun c member => groups.2 c (cut.subset member)⟩

theorem candidates_congr {files files' : Files} {rels : List BlockPath}
    (same : ∀ r ∈ rels, files[r]? = files'[r]?) : candidates files rels = candidates files' rels :=
  List.filterMap_congr (fun r member => by rw [candidate, candidate, same r member])

theorem group_concat (blocks : List (BlockPath × Nat)) (block : BlockPath × Nat) :
    groupBlocks (blocks ++ [block]) =
      match slotOf block.1 with
      | .hour h =>
        (pushUnder (groupBlocks blocks).1 h block.1, pushUnder (groupBlocks blocks).2 h.day block.1)
      | .day d => ((groupBlocks blocks).1, pushUnder (groupBlocks blocks).2 d block.1) := by
  unfold groupBlocks
  refine (List.foldl_concat ..).trans ?_
  cases slotOf block.1 <;> rfl

theorem groupBlocks_days (blocks : List (BlockPath × Nat)) :
    (groupBlocks blocks).2 = groupBy (fun p => (slotOf p).dayOf) (blocks.map Prod.fst) := by
  induction blocks using List.reverseRecOn with
  | nil => rfl
  | append_singleton blocks block inductionHypothesis =>
    rw [group_concat, List.map_append, List.map_cons, List.map_nil, groupBy_concat,
      ← inductionHypothesis]
    cases slot : slotOf block.1 <;> rfl

theorem getElem?_groupBlocks_hours (blocks : List (BlockPath × Nat)) (h : Hour) :
    (groupBlocks blocks).1[h]? =
      if (blocks.map Prod.fst).filter (fun p => slotOf p = .hour h) = [] then none
      else some ((blocks.map Prod.fst).filter (fun p => slotOf p = .hour h)) := by
  induction blocks using List.reverseRecOn with
  | nil => simp [groupBlocks]
  | append_singleton blocks block inductionHypothesis =>
    rw [group_concat, List.map_append, List.filter_append, List.map_cons, List.map_nil]
    by_cases here : slotOf block.1 = .hour h
    · have single : [block.1].filter (fun p => slotOf p = .hour h) = [block.1] := by simp [here]
      rw [single, here, if_neg (by simp)]
      dsimp only
      rw [getElem?_pushUnder, if_pos rfl, inductionHypothesis]
      split
      · next empty => simp [empty]
      · rfl
    · have single : [block.1].filter (fun p => slotOf p = .hour h) = [] := by simp [here]
      rw [single, List.append_nil, ← inductionHypothesis]
      cases slot : slotOf block.1 with
      | hour hour =>
        have differ : hour ≠ h := fun same => here (same ▸ slot)
        dsimp only
        rw [getElem?_pushUnder, if_neg differ]
      | day day => rfl

theorem map_fst_blocksWithMaxStart (index : Index) :
    index.blocksWithMaxStart.map Prod.fst = index.allBlockPaths :=
  Std.ExtTreeMap.map_fst_toList_eq_keys

theorem mem_group_hours {index : Index} {h : Hour} {rels : List BlockPath}
    (listed : (h, rels) ∈ (group index).1.toList) :
    rels = index.allBlockPaths.filter (fun p => slotOf p = .hour h) := by
  rw [Std.ExtTreeMap.mem_toList_iff_getElem?_eq_some, group, getElem?_groupBlocks_hours,
    map_fst_blocksWithMaxStart] at listed
  split at listed
  · cases listed
  · exact (Option.some.inj listed).symm

theorem mem_group_days {index : Index} {d : Day} {rels : List BlockPath}
    (listed : (d, rels) ∈ (group index).2.toList) :
    rels = index.allBlockPaths.filter (fun p => (slotOf p).dayOf = d) := by
  rw [group, groupBlocks_days, map_fst_blocksWithMaxStart] at listed
  exact (mem_toList_groupBy.mp listed).1

/-! ## Stamping the inputs -/

theorem foldlM_markRetired (stamp : Nat) {rels : List BlockPath} {files : Files}
    (stored : ∀ r ∈ rels, ∃ file, files[r]? = some file) :
    ∃ files', rels.foldlM (markRetired stamp) files = some files' ∧
      ∀ p, files'[p]? =
        if p ∈ rels then (files[p]?).map (fun file => { file with modified := some stamp })
        else files[p]? := by
  induction rels generalizing files with
  | nil => exact ⟨files, rfl, fun p => by simp⟩
  | cons r rels inductionHypothesis =>
    obtain ⟨file, found⟩ := stored r List.mem_cons_self
    have first : markRetired stamp files r =
        some (files.insert r { file with modified := some stamp }) := by
      rw [markRetired, found]
      rfl
    have after : ∀ p, (files.insert r { file with modified := some stamp })[p]? =
        if r = p then some { file with modified := some stamp } else files[p]? := by
      intro p
      rw [Std.ExtTreeMap.getElem?_insert]
      simp only [Std.LawfulEqOrd.compare_eq_iff_eq]
    have storedAfter : ∀ q ∈ rels, ∃ file',
        (files.insert r { file with modified := some stamp })[q]? = some file' := by
      intro q member
      rw [after]
      split
      · exact ⟨_, rfl⟩
      · exact stored q (List.mem_cons_of_mem _ member)
    obtain ⟨files', run, effect⟩ := inductionHypothesis storedAfter
    refine ⟨files', ?_, fun p => ?_⟩
    · rw [List.foldlM_cons, first]
      exact run
    · rw [effect, after]
      by_cases here : r = p
      · subst here
        simp [found]
      · simp [here, eq_comm (a := p)]

/-! ## Executing a chunk -/

/-- A chunk of two or more blocks, none of them already at the output's path. -/
def Executes (dir : Slot) (chunk : List Candidate) : Prop :=
  2 ≤ chunk.length ∧ ∀ c ∈ chunk, c.rel ≠ outRel dir chunk

instance (dir : Slot) (chunk : List Candidate) : Decidable (Executes dir chunk) :=
  inferInstanceAs (Decidable (2 ≤ chunk.length ∧ ∀ c ∈ chunk, c.rel ≠ outRel dir chunk))

/-- All rows of a chunk's inputs, in the order they are read. -/
def inputRows (files : Files) (chunk : List Candidate) : List NormalizedSpan :=
  chunk.flatMap (fun c => rowsAt files c.rel)

/-- What a file holds, whatever its modification time. -/
def BlockFile.content (file : BlockFile) : List NormalizedSpan × Provenance :=
  (file.rows, file.provenance)

/-- The effect of executing `chunk`. -/
structure Swaps (stamp : Nat) (dir : Slot) (chunk : List Candidate) (before after : MergeRun) :
    Prop where
  watermark : after.cold.index.watermark = before.cold.index.watermark
  names : ∀ p, after.cold.index.Names p ↔
    p = outRel dir chunk ∨ (∀ c ∈ chunk, p ≠ c.rel) ∧ before.cold.index.Names p
  maps : ∀ t p, after.cold.index.Maps t p ↔
    (p = outRel dir chunk ∧ ∃ s ∈ inputRows before.cold.files chunk, s.traceId = t) ∨
      (∀ c ∈ chunk, ¬ (p = c.rel ∧ ∃ s ∈ rowsAt before.cold.files c.rel, s.traceId = t)) ∧
        before.cold.index.Maps t p
  starts : ∀ p, after.cold.index.blocks[p]? =
    if outRel dir chunk = p then some (maxStart (inputRows before.cold.files chunk))
    else if p ∈ chunk.map Candidate.rel then none else before.cold.index.blocks[p]?
  output : after.cold.files[outRel dir chunk]? =
    some (mergedFile stamp chunk (inputRows before.cold.files chunk))
  contents : ∀ p, p ≠ outRel dir chunk →
    (after.cold.files[p]?).map BlockFile.content = (before.cold.files[p]?).map BlockFile.content
  untouched : ∀ p, p ≠ outRel dir chunk → (∀ c ∈ chunk, p ≠ c.rel) →
    after.cold.files[p]? = before.cold.files[p]?
  consumed : after.consumed = before.consumed
  clobbered : after.clobbered =
    if before.cold.index.Names (outRel dir chunk) then outRel dir chunk :: before.clobbered
    else before.clobbered

theorem mapM_stored {files : Files} {chunk : List Candidate}
    (stored : ∀ c ∈ chunk, ∃ file, files[c.rel]? = some file) :
    ∃ inputs : List BlockFile, chunk.mapM (fun c => files[c.rel]?) = some inputs ∧
      inputs.flatMap BlockFile.rows = inputRows files chunk := by
  induction chunk with
  | nil => exact ⟨[], rfl, rfl⟩
  | cons c chunk inductionHypothesis =>
    obtain ⟨storedHere, storedLater⟩ := List.forall_mem_cons.mp stored
    obtain ⟨file, found⟩ := storedHere
    obtain ⟨inputs, run, rows⟩ := inductionHypothesis storedLater
    refine ⟨file :: inputs, ?_, ?_⟩
    · rw [List.mapM_cons, found, run]
      rfl
    · have here : rowsAt files c.rel = file.rows := by rw [rowsAt, found]
      rw [List.flatMap_cons, rows, inputRows, inputRows, List.flatMap_cons, here]

theorem mergeChunk_swaps (stamp : Nat) {dir : Slot} {run : MergeRun} {chunk : List Candidate}
    (stored : ∀ c ∈ chunk, ∃ file, run.cold.files[c.rel]? = some file)
    (apart : ∀ c ∈ chunk, c.rel ≠ outRel dir chunk) :
    ∃ after, mergeChunk stamp dir false run chunk = some after ∧
      Swaps stamp dir chunk run after := by
  obtain ⟨inputs, opened, rows⟩ := mapM_stored stored
  have renamed : ∀ p, (run.cold.files.insert (outRel dir chunk)
      (mergedFile stamp chunk (inputs.flatMap BlockFile.rows)))[p]? =
      if outRel dir chunk = p then
        some (mergedFile stamp chunk (inputs.flatMap BlockFile.rows))
      else run.cold.files[p]? := by
    intro p
    rw [Std.ExtTreeMap.getElem?_insert]
    simp only [Std.LawfulEqOrd.compare_eq_iff_eq]
  have storedRenamed : ∀ r ∈ chunk.map Candidate.rel, ∃ file,
      (run.cold.files.insert (outRel dir chunk)
        (mergedFile stamp chunk (inputs.flatMap BlockFile.rows)))[r]? = some file := by
    intro r member
    obtain ⟨c, cMember, rfl⟩ := List.mem_map.mp member
    rw [renamed, if_neg (apart c cMember).symm]
    exact stored c cMember
  obtain ⟨files', stamped, effect⟩ := foldlM_markRetired stamp storedRenamed
  have noSelf : chunk.any (fun c => c.rel = outRel dir chunk) = false := by
    simpa using apart
  -- with the inputs open and none at the output's place, nothing fails
  have executed : ∃ after, mergeChunk stamp dir false run chunk = some after ∧
      after.cold.index = run.cold.index.commitMerge
        { relPath := outRel dir chunk
          maxStartUnixNano := maxStart (inputs.flatMap BlockFile.rows)
          traceIds := traceSet (inputs.flatMap BlockFile.rows) }
        (chunk.map (fun c => (c.rel, traceSet (rowsAt run.cold.files c.rel)))) ∧
      after.cold.files = files' ∧ after.consumed = run.consumed ∧
      after.clobbered = if run.cold.index.Names (outRel dir chunk) then
        outRel dir chunk :: run.clobbered else run.clobbered := by
    simp only [mergeChunk, noSelf, opened]
    simp only [Bool.false_eq_true, if_false, Option.bind_eq_bind, Option.bind_some, stamped]
    exact ⟨_, rfl, rfl, rfl, rfl, rfl⟩
  obtain ⟨after, ran, index, files, consumed, clobbered⟩ := executed
  have outOther : outRel dir chunk ∉ chunk.map Candidate.rel := by
    intro member
    obtain ⟨c, cMember, same⟩ := List.mem_map.mp member
    exact apart c cMember same
  refine ⟨after, ran, ?_, ?_, ?_, ?_, ?_, ?_, ?_, consumed, clobbered⟩
  · rw [index, Index.watermark_commitMerge]
  · intro p
    rw [index, Index.names_commitMerge]
    simp
  · intro t p
    rw [index, Index.maps_commitMerge, rows]
    simp
  · intro p
    rw [index, Index.getElem?_blocks_commitMerge, rows, List.map_map]
    rfl
  · rw [files, effect, if_neg outOther, renamed, if_pos rfl, rows]
  · intro p other
    rw [files, effect, renamed, if_neg other.symm]
    split
    · cases run.cold.files[p]? <;> rfl
    · rfl
  · intro p other notInput
    have notListed : p ∉ chunk.map Candidate.rel := by
      intro member
      obtain ⟨c, cMember, same⟩ := List.mem_map.mp member
      exact notInput c cMember same.symm
    rw [files, effect, if_neg notListed, renamed, if_neg other.symm]

theorem mergeOrSkip_swaps (stamp : Nat) {dir : Slot} {run : MergeRun} {chunk : List Candidate}
    (stored : ∀ c ∈ chunk, ∃ file, run.cold.files[c.rel]? = some file)
    (executes : Executes dir chunk) :
    ∃ after, mergeOrSkip stamp dir false run chunk = some after ∧
      Swaps stamp dir chunk run after := by
  have many : ¬ chunk.length < 2 := not_lt.mpr executes.1
  rw [mergeOrSkip, if_neg many]
  exact mergeChunk_swaps stamp stored executes.2

/-- A single block, or a chunk that would overwrite one of its inputs, is left alone. -/
theorem mergeOrSkip_skips {stamp : Nat} {dir : Slot} {dryRun : Bool} {run : MergeRun}
    {chunk : List Candidate} (skipped : ¬ Executes dir chunk) :
    mergeOrSkip stamp dir dryRun run chunk = some run := by
  unfold mergeOrSkip
  split
  · rfl
  · next many =>
    have self : ∃ c ∈ chunk, c.rel = outRel dir chunk := by
      by_contra apart
      push Not at apart
      exact skipped ⟨not_lt.mp many, apart⟩
    obtain ⟨c, member, same⟩ := self
    have overwrites : chunk.any (fun c => c.rel = outRel dir chunk) = true :=
      List.any_eq_true.mpr ⟨c, member, by simpa using same⟩
    exact if_pos overwrites

/-- A preview touches neither the index nor a file. -/
theorem mergeChunk_dryRun (stamp : Nat) (dir : Slot) (run : MergeRun) (chunk : List Candidate) :
    ∃ after, mergeChunk stamp dir true run chunk = some after ∧ after.cold = run.cold ∧
      after.clobbered = run.clobbered := by
  unfold mergeChunk
  by_cases self : chunk.any (fun c => c.rel = outRel dir chunk) = true
  · exact ⟨run, if_pos self, rfl, rfl⟩
  · exact ⟨_, (if_neg self).trans (if_pos rfl), rfl, rfl⟩

theorem mergeOrSkip_dryRun (stamp : Nat) (dir : Slot) (run : MergeRun) (chunk : List Candidate) :
    ∃ after, mergeOrSkip stamp dir true run chunk = some after ∧ after.cold = run.cold ∧
      after.clobbered = run.clobbered := by
  unfold mergeOrSkip
  split
  · exact ⟨run, rfl, rfl, rfl⟩
  · exact mergeChunk_dryRun stamp dir run chunk

theorem Swaps.rowsAt_other {stamp : Nat} {dir : Slot} {chunk : List Candidate}
    {before after : MergeRun} (swaps : Swaps stamp dir chunk before after) {p : BlockPath}
    (other : p ≠ outRel dir chunk) : rowsAt after.cold.files p = rowsAt before.cold.files p := by
  have same := swaps.contents p other
  unfold rowsAt
  cases left : after.cold.files[p]? <;> cases right : before.cold.files[p]? <;>
    simp_all [BlockFile.content]

theorem Swaps.rowsAt_output {stamp : Nat} {dir : Slot} {chunk : List Candidate}
    {before after : MergeRun} (swaps : Swaps stamp dir chunk before after) :
    rowsAt after.cold.files (outRel dir chunk) =
      firstCopies spanKey [] (inputRows before.cold.files chunk) := by
  rw [rowsAt, swaps.output]
  rfl

end Evald.Store
