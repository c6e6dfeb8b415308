import Evald.Store.Concurrent
import Evald.Store.MergePass

/-! # A query beside the running store

`Store::query` one step at a time: the hot tier under the read lock, a listing of the
index, one block after the other, and once more from a new listing when a listed file
is gone.  `query_complete` is what its result shows of the spans that were ACKed before
the call, whatever the store does in between.
-/

namespace Evald.Store

open Evald.Lib

inductive QueryPc where
  | idle
  | called
  /-- The hot part is read; `attempts` counts this attempt at the cold part. -/
  | listing (hot : HotTier) (attempts : Nat)
  | reading (hot : HotTier) (attempts : Nat) (cold : Selection) (todo : List BlockPath)
  | done (result : List NormalizedSpan)
  | failed

/-- A call, with the spans ACKed before it for the statements below. -/
structure QueryRun where
  acked : List NormalizedSpan := []
  pc : QueryPc := .idle

/-- The blocks an attempt has listed and not read yet. -/
def QueryRun.pending (run : QueryRun) : List BlockPath :=
  match run.pc with
  | .reading _ _ _ todo => todo
  | _ => []

/-- The keys of the hot part, which cold copies are hidden behind. -/
def hotSeen (hot : HotTier) (traceId : Option String) : List SpanKey :=
  (readHot hot traceId usizeMax).2

inductive QueryStep (traceId : Option String) (s : Live) : QueryRun → QueryRun → Prop where
  | call : QueryStep traceId s {} { acked := s.settled, pc := .called }
  | readHot {acked : List NormalizedSpan} :
      QueryStep traceId s { acked := acked, pc := .called }
        { acked := acked, pc := .listing s.proc.hot 1 }
  | list {acked : List NormalizedSpan} {hot : HotTier} {attempts : Nat} :
      QueryStep traceId s { acked := acked, pc := .listing hot attempts }
        { acked := acked
          pc := .reading hot attempts (Rows.new usizeMax, [])
            (listBlocks s.disk.cold.index traceId) }
  | readBlock {acked : List NormalizedSpan} {hot : HotTier} {attempts : Nat}
      {cold cold' : Selection} {p : BlockPath} {todo : List BlockPath}
      (read : readBlock s.disk.cold.files traceId (hotSeen hot traceId) cold p = some cold') :
      QueryStep traceId s { acked := acked, pc := .reading hot attempts cold (p :: todo) }
        { acked := acked, pc := .reading hot attempts cold' todo }
  | relist {acked : List NormalizedSpan} {hot : HotTier} {cold : Selection} {p : BlockPath}
      {todo : List BlockPath} (vanished : s.disk.cold.files[p]? = none) :
      QueryStep traceId s { acked := acked, pc := .reading hot 1 cold (p :: todo) }
        { acked := acked, pc := .listing hot 2 }
  | fail {acked : List NormalizedSpan} {hot : HotTier} {attempts : Nat} {cold : Selection}
      {p : BlockPath} {todo : List BlockPath} (vanished : s.disk.cold.files[p]? = none)
      (again : attempts ≠ 1) :
      QueryStep traceId s { acked := acked, pc := .reading hot attempts cold (p :: todo) }
        { acked := acked, pc := .failed }
  | finish {acked : List NormalizedSpan} {hot : HotTier} {attempts : Nat} {cold : Selection} :
      QueryStep traceId s { acked := acked, pc := .reading hot attempts cold [] }
        { acked := acked, pc := .done (mergeRows (readHot hot traceId usizeMax).1 cold.1) }

/-- The store or the query moves; the label is the path a merge writes. -/
inductive QuerySystemStep (traceId : Option String) :
    Option BlockPath → Live × QueryRun → Live × QueryRun → Prop where
  | store {wrote : Option BlockPath} {s s' : Live} {run : QueryRun}
      (stepped : StoreStep wrote s s') : QuerySystemStep traceId wrote (s, run) (s', run)
  | query {s : Live} {run run' : QueryRun} (stepped : QueryStep traceId s run run') :
      QuerySystemStep traceId none (s, run) (s, run')

/-- A merge writes neither over a block the index names nor over one the query has still
to read. -/
def WritesApart (a : Live × QueryRun) (wrote : Option BlockPath) : Prop :=
  ∀ p, wrote = some p → ¬ a.1.disk.cold.index.Names p ∧ p ∉ a.2.pending

/-- Any store that some life of the data directory gets to, and no call yet. -/
def QueryStart (a : Live × QueryRun) : Prop := SystemReachable (.live a.1) ∧ a.2 = {}

abbrev QueryReachable (traceId : Option String) : Live × QueryRun → Prop :=
  Reachable QueryStart (fun a b => ∃ wrote, QuerySystemStep traceId wrote a b)

/-- Runs all of whose merges write apart. -/
abbrev QueryReachableApart (traceId : Option String) : Live × QueryRun → Prop :=
  Reachable QueryStart
    (fun a b => ∃ wrote, QuerySystemStep traceId wrote a b ∧ WritesApart a wrote)

/-! ## The invariant -/

/-- The ACKed spans the query is about. -/
def QueryRun.wanted (run : QueryRun) (traceId : Option String) : List NormalizedSpan :=
  run.acked.filter (traceMatches traceId)

def QueryOk (traceId : Option String) (s : Live) (wanted : List NormalizedSpan) : QueryPc → Prop
  | .idle => True
  | .called => True
  | .failed => True
  | .listing hot _ => ∀ k, HasKey wanted k → HasKey hot.allSpans k ∨ s.disk.cold.Holds k
  | .reading hot _ cold todo =>
    (∀ k, HasKey wanted k → HasKey hot.allSpans k ∨ s.disk.cold.Holds k) ∧
    (∀ p ∈ todo, s.Past p) ∧
    ∃ rows, cold = rows.foldl (selectCold traceId (hotSeen hot traceId)) (Rows.new usizeMax, []) ∧
      ∀ k, HasKey wanted k → HasKey hot.allSpans k ∨ HasKey rows k ∨ s.OnList todo k
  | .done result => (result.map spanKey).Nodup ∧ ∀ k, HasKey wanted k → HasKey result k

structure QueryInvariant (traceId : Option String) (a : Live × QueryRun) : Prop where
  live : LiveInvariant a.1
  acked : ∀ k, HasKey a.2.acked k → HasKey a.1.settled k
  pc : QueryOk traceId a.1 (a.2.wanted traceId) a.2.pc

/-- A span of the trace that is among some spans is among those of the trace. -/
theorem hasKey_filter_trace {traceId : Option String} {spans others : List NormalizedSpan}
    {k : SpanKey} (wanted : HasKey (others.filter (traceMatches traceId)) k)
    (held : HasKey spans k) : HasKey (spans.filter (traceMatches traceId)) k := by
  obtain ⟨keepKey, byKey⟩ := exists_traceMatches_byKey traceId
  obtain ⟨other, member, rfl⟩ := List.mem_map.mp wanted
  obtain ⟨span, spanMember, same⟩ := List.mem_map.mp held
  refine List.mem_map.mpr ⟨span, List.mem_filter.mpr ⟨spanMember, ?_⟩, same⟩
  rw [byKey, same, ← byKey]
  exact (List.mem_filter.mp member).2

/-- The listing for a trace has a block for every stored span of it. -/
theorem TraceInvariant.listed {cold : ColdState} (invariant : TraceInvariant cold)
    {traceId : Option String} {others : List NormalizedSpan} {k : SpanKey}
    (wanted : HasKey (others.filter (traceMatches traceId)) k) (holds : cold.Holds k) :
    ∃ p ∈ listBlocks cold.index traceId, HasKey (rowsAt cold.files p) k := by
  obtain ⟨p, named, held⟩ := holds
  refine ⟨p, ?_, held⟩
  cases traceId with
  | none => exact Index.mem_allBlockPaths.mpr named
  | some t =>
    refine Index.mem_blockPathsForTrace.mpr ((invariant.exact t p).mpr ⟨named, ?_⟩)
    obtain ⟨span, member, -⟩ := List.mem_map.mp (hasKey_filter_trace wanted held)
    obtain ⟨inBlock, ofTrace⟩ := List.mem_filter.mp member
    exact ⟨span, inBlock, by simpa [traceMatches] using ofTrace⟩

/-- The blocks a listing names have all been there. -/
theorem LiveInvariant.past_listed {s : Live} (invariant : LiveInvariant s)
    {traceId : Option String} {p : BlockPath}
    (listed : p ∈ listBlocks s.disk.cold.index traceId) : s.Past p := by
  cases traceId with
  | none => exact invariant.past (Index.mem_allBlockPaths.mp listed)
  | some t =>
    exact invariant.past
      ((invariant.cold.exact t p).mp (Index.mem_blockPathsForTrace.mp listed)).1

/-- A step of the store under a query. -/
theorem QueryInvariant.store {traceId : Option String} {s s' : Live} {run : QueryRun}
    {wrote : Option BlockPath} (invariant : QueryInvariant traceId (s, run))
    (stepped : StoreStep wrote s s') (apart : WritesApart (s, run) wrote) :
    QueryInvariant traceId (s', run) := by
  obtain ⟨live, keeps⟩ := stepped.keeps invariant.live (fun p same => (apart p same).1)
  refine ⟨live, fun k held => keeps.settled k (invariant.acked k held), ?_⟩
  have ok := invariant.pc
  have apartFrom : ∀ p, wrote = some p → p ∉ run.pending := fun p same => (apart p same).2
  obtain ⟨acked, pc⟩ := run
  cases pc with
  | idle => trivial
  | called => trivial
  | failed => trivial
  | listing hot attempts => exact fun k held => (ok k held).imp_right (keeps.holds k)
  | reading hot attempts cold todo =>
    obtain ⟨readable, past, rows, loop, found⟩ := ok
    refine ⟨fun k held => (readable k held).imp_right (keeps.holds k),
      fun p member => keeps.past (past p member), rows, loop, fun k held => ?_⟩
    exact (found k held).imp_right (Or.imp_right (keeps.onList past apartFrom))
  | done result => exact ok

theorem QueryInvariant.query {traceId : Option String} {s : Live} {run run' : QueryRun}
    (invariant : QueryInvariant traceId (s, run)) (stepped : QueryStep traceId s run run') :
    QueryInvariant traceId (s, run') := by
  have ok := invariant.pc
  cases stepped with
  | call => exact ⟨invariant.live, fun k held => held, trivial⟩
  -- an acknowledged key is resident or on disk; the copy takes the resident ones
  | readHot =>
    refine ⟨invariant.live, invariant.acked, fun k held => ?_⟩
    refine (invariant.live.readable k).mpr (.inl (invariant.acked k ?_))
    exact List.map_subset spanKey List.filter_sublist.subset held
  -- what the copy missed is in a block, and every block is on the list
  | @list acked hot attempts =>
    refine ⟨invariant.live, invariant.acked, ok, fun p listed => invariant.live.past_listed listed,
      [], rfl, fun k held => ?_⟩
    refine (ok k held).imp_right (fun holds => .inr ?_)
    obtain ⟨p, listed, inBlock⟩ := invariant.live.cold.listed held holds
    exact ⟨p, listed, .inr inBlock⟩
  | @readBlock acked hot attempts cold cold' p todo read =>
    obtain ⟨readable, past, rows, loop, found⟩ := ok
    obtain ⟨file, stored, rfl⟩ := Option.map_eq_some_iff.mp read
    have here : rowsAt s.disk.cold.files p = file.rows := by rw [rowsAt, stored]
    refine ⟨invariant.live, invariant.acked, readable,
      fun q member => past q (List.mem_cons_of_mem p member), rows ++ file.rows, ?_,
      fun k held => ?_⟩
    · rw [loop, List.foldl_append]
    · rw [hasKey_append]
      rcases found k held with inHot | inRows | ⟨q, member, onDisk⟩
      · exact .inl inHot
      · exact .inr (.inl (.inl inRows))
      -- in the block that is read now, or in one still to be read
      · rcases List.mem_cons.mp member with rfl | later
        · rw [stored, here] at onDisk
          exact .inr (.inl (.inr (onDisk.resolve_left (by simp))))
        · exact .inr (.inr ⟨q, later, onDisk⟩)
  | relist vanished => exact ⟨invariant.live, invariant.acked, ok.1⟩
  | fail vanished again => exact ⟨invariant.live, invariant.acked, trivial⟩
  -- no block is left, so each key is in the copy or in the rows read
  | @finish acked hot attempts cold =>
    obtain ⟨-, -, rows, rfl, found⟩ := ok
    have perm := newestFirst_perm NormalizedSpan.startUnixNano (combine hot traceId rows)
    have result : mergeRows (readHot hot traceId usizeMax).1
        (rows.foldl (selectCold traceId (hotSeen hot traceId)) (Rows.new usizeMax, [])).1 =
        newestFirst NormalizedSpan.startUnixNano (combine hot traceId rows) :=
      (mergeRows_readHot hot traceId usizeMax rows).trans (if_pos rfl)
    refine ⟨invariant.live, invariant.acked, ?_⟩
    rw [result]
    refine ⟨(perm.map spanKey).nodup_iff.mpr (nodup_keys_combine hot traceId rows),
      fun k held => (perm.map spanKey).mem_iff.mpr (mem_keys_combine.mpr ?_)⟩
    rcases found k held with inHot | inRows | ⟨p, member, -⟩
    · exact .inl (hasKey_filter_trace held inHot)
    · exact .inr (hasKey_filter_trace held inRows)
    · cases member

theorem QueryReachableApart.invariant {traceId : Option String} {a : Live × QueryRun}
    (reached : QueryReachableApart traceId a) : QueryInvariant traceId a := by
  refine Reachable.invariant ?_ ?_ reached
  · rintro ⟨s, run⟩ ⟨opened, rfl⟩
    exact ⟨(SystemReachable.invariant opened).1, fun k held => absurd held not_hasKey_nil, trivial⟩
  · rintro a b invariant ⟨wrote, stepped, apart⟩
    cases stepped with
    | store stepped => exact invariant.store stepped apart
    | query stepped => exact invariant.query stepped

/-- In every run whose merges write apart, a result has exactly one copy of every span
(of the trace, when filtered) that was ACKed before the call. -/
theorem query_complete {traceId : Option String} {s : Live} {run : QueryRun}
    {result : List NormalizedSpan} (reached : QueryReachableApart traceId (s, run))
    (returned : run.pc = .done result) :
    (result.map spanKey).Nodup ∧
      ∀ span ∈ run.acked, traceMatches traceId span = true → spanKey span ∈ result.map spanKey := by
  have ok := (QueryReachableApart.invariant reached).pc
  rw [returned] at ok
  exact ⟨ok.1, fun span member ofTrace =>
    ok.2 _ (List.mem_map_of_mem (List.mem_filter.mpr ⟨member, ofTrace⟩))⟩

/-! ## A query of a store that stands still -/

section Still

variable {start : Live × QueryRun → Prop} {step : Live × QueryRun → Live × QueryRun → Prop}
  {traceId : Option String} {s : Live} {acked : List NormalizedSpan}

theorem read_run (steps : ∀ run run', QueryStep traceId s run run' → step (s, run) (s, run'))
    {hot : HotTier} {attempts : Nat} (todo : List BlockPath) {cold cold' : Selection}
    (read : todo.foldlM (readBlock s.disk.cold.files traceId (hotSeen hot traceId)) cold =
      some cold')
    (reached : Reachable start step (s, ⟨acked, .reading hot attempts cold todo⟩)) :
    Reachable start step (s, ⟨acked, .reading hot attempts cold' []⟩) := by
  induction todo generalizing cold with
  | nil =>
    cases read
    exact reached
  | cons p todo inductionHypothesis =>
    rw [List.foldlM_cons, Option.bind_eq_bind, Option.bind_eq_some_iff] at read
    obtain ⟨middle, first, later⟩ := read
    exact inductionHypothesis later (.next reached (steps _ _ (.readBlock first)))

/-- Where nothing else moves, the steps of a query compute `query`. -/
theorem query_run (steps : ∀ run run', QueryStep traceId s run run' → step (s, run) (s, run'))
    {result : List NormalizedSpan}
    (read : query s.proc.hot s.disk.cold traceId usizeMax = some result)
    (reached : Reachable start step (s, ⟨acked, .called⟩)) :
    Reachable start step (s, ⟨acked, .done result⟩) := by
  have listed := Reachable.next (.next reached (steps _ _ .readHot)) (steps _ _ .list)
  have positive : usizeMax ≠ 0 := by decide
  simp only [query, if_neg positive] at read
  cases attempted : attempt s.disk.cold traceId (readHot s.proc.hot traceId usizeMax).2 usizeMax with
  | none =>
    rw [attempted] at read
    cases read
  | some selected =>
    rw [attempted] at read
    cases read
    exact .next (read_run steps _ attempted listed) (steps _ _ .finish)

end Still

/-- The store after one group of one batch, pushed. -/
def pushed (spans : List NormalizedSpan) : Live :=
  (((Remains.openWal {} ∅ 0).append [] spans).sync [(1, spans)]).push 1 spans []

theorem reachable_pushed (spans : List NormalizedSpan) :
    SystemReachable (.live (pushed spans)) := by
  have appended := Reachable.next reachable_fresh (.run (.appendFirst spans rfl))
  have synced := Reachable.next appended (.run (.sync rfl))
  exact .next synced (.run (.push rfl))

/-- A store step that is a step of the writer or the compactor, under an idle reader. -/
theorem SystemReachable.steps {s s' : Live} (reached : SystemReachable (.live s))
    (run : LiveSteps s s') : SystemReachable (.live s') := by
  induction run with
  | refl => exact reached
  | tail _ stepped inductionHypothesis => exact .next inductionHypothesis (.run stepped)

theorem segment_pushed (spans : List NormalizedSpan) :
    (pushed spans).proc.hot.segment 1 = some spans := by
  change (HotTier.push ∅ 1 spans).segment 1 = some spans
  rw [HotTier.segment, HotTier.push, Std.ExtTreeMap.getElem?_insert_self,
    Std.ExtTreeMap.getD_empty, List.nil_append]

/-- The same batch sealed, and listed by a compaction pass. -/
def aboutToFlush (spans : List NormalizedSpan) : Live :=
  { pushed spans with
    proc := { (pushed spans).proc with writer := .idle } }.rotate.publish.setCompactor (.listed [1])

theorem reachable_aboutToFlush (spans : List NormalizedSpan)
    (pending : (pushed spans).pendingSegments 2 = [1]) :
    SystemReachable (.live (aboutToFlush spans)) := by
  have idle := Reachable.next (reachable_pushed spans) (.run (.groupDone rfl))
  have rotated := Reachable.next idle (.run (.rotate rfl))
  have published := Reachable.next rotated (.run (.publish rfl))
  have loaded := Reachable.next published (.run (.loadActive rfl))
  have listed := Reachable.next loaded (.run (.listPending rfl))
  change SystemReachable (.live (Live.setCompactor _ (.listed ((pushed spans).pendingSegments 2))))
    at listed
  rw [pending] at listed
  exact listed

/-- The same batch flushed, and the pass over. -/
def sealedAndFlushed (spans : List NormalizedSpan) : Live :=
  ((aboutToFlush spans).flushed "t" 0 1 spans []).setCompactor .idle

theorem reachable_sealedAndFlushed (spans : List NormalizedSpan)
    (pending : (pushed spans).pendingSegments 2 = [1]) :
    SystemReachable (.live (sealedAndFlushed spans)) := by
  have flushed := SystemReachable.steps (reachable_aboutToFlush spans pending)
    (flush_run "t" 0 rfl (segment_pushed spans))
  exact .next flushed (.run (.passDone rfl))

/-! ### A day in four blocks -/

def thatDay : Slot := .day { year := 2023, month := 11, day := 15 }

/-- The day in two chunks of two blocks. -/
def halfDay (n : Nat) : List Candidate :=
  (chunks (candidates fourHours.files fourHours.index.allBlockPaths) 2).getD n []

def mergeHalf (cold : ColdState) (n : Nat) : Option MergeRun :=
  mergeChunk 0 thatDay false { cold := cold, report := { dryRun := false } } (halfDay n)

/-- The blocks that the first merge has swapped out. -/
def mergedAway : List BlockPath := (halfDay 0).map Candidate.rel

theorem QueryReachableApart.query {traceId : Option String} {s : Live} {run run' : QueryRun}
    (reached : QueryReachableApart traceId (s, run)) (stepped : QueryStep traceId s run run') :
    QueryReachableApart traceId (s, run') :=
  .next reached ⟨none, .query stepped, fun p impossible => by cases impossible⟩

theorem QueryReachableApart.liveSteps {traceId : Option String} {s s' : Live} {run : QueryRun}
    (reached : QueryReachableApart traceId (s, run)) (moved : LiveSteps s s') :
    QueryReachableApart traceId (s', run) := by
  induction moved with
  | refl => exact reached
  | tail _ stepped inductionHypothesis =>
    exact .next inductionHypothesis
      ⟨none, .store (.live stepped), fun p impossible => by cases impossible⟩

/-- Beside the query the segment is flushed, half of the day is merged, and the merged blocks are
swept: a listed block is gone when it is looked for, and the blocks are listed once more. -/
theorem query_complete_merged : ∃ s result,
    QueryReachableApart none (s, ⟨fourSpans, .done result⟩) ∧
      (result.map spanKey).Nodup ∧ ∀ span ∈ fourSpans, traceMatches none span = true →
        spanKey span ∈ result.map spanKey := by
  have pending : (pushed fourSpans).pendingSegments 2 = [1] := by decide
  have ran : (mergeHalf fourHours 0).any (fun merged =>
      decide (∀ p ∈ mergedAway, ¬ merged.cold.index.Names p) &&
        (attempt { merged.cold with files := eraseAll merged.cold.files mergedAway } none
          (readHot (sealedAndFlushed fourSpans).proc.hot none usizeMax).2 usizeMax).isSome) =
      true := by
    decide
  rw [Option.any_eq_true] at ran
  obtain ⟨merged, ranMerge, after⟩ := ran
  rw [Bool.and_eq_true, decide_eq_true_eq, Option.isSome_iff_exists] at after
  obtain ⟨unindexed, selected, attempted⟩ := after
  have start : QueryReachableApart none (aboutToFlush fourSpans, {}) :=
    .start ⟨reachable_aboutToFlush fourSpans pending, rfl⟩
  -- the flush comes between the call and the copy
  have flush : LiveSteps (aboutToFlush fourSpans)
      ((aboutToFlush fourSpans).flushed "t" 0 1 fourSpans []) :=
    flush_run "t" 0 rfl (segment_pushed fourSpans)
  have flushed : QueryReachableApart none (sealedAndFlushed fourSpans, ⟨fourSpans, .called⟩) :=
    (start.query .call).liveSteps (flush.tail (.passDone rfl))
  have listed := (flushed.query .readHot).query .list
  -- the first listed block is one that the merge swaps out
  obtain ⟨p, todo, blocks, gone⟩ : ∃ p todo,
      listBlocks fourHours.index none = p :: todo ∧ p ∈ mergedAway := by
    have first : (listBlocks fourHours.index none).head?.any (fun p => p ∈ mergedAway) = true := by
      decide
    cases blocks : listBlocks fourHours.index none with
    | nil =>
      rw [blocks] at first
      cases first
    | cons p todo =>
      rw [blocks] at first
      exact ⟨p, todo, rfl, of_decide_eq_true first⟩
  have apart : outRel thatDay (halfDay 0) ∉ listBlocks fourHours.index none := by decide
  have named : ¬ fourHours.index.Names (outRel thatDay (halfDay 0)) := by decide
  have swapped := Reachable.next listed ⟨_, .store (.merge 0 thatDay (halfDay 0) rfl
    (by decide) (by decide) ranMerge), fun q same => ?_⟩
  · have swept := Reachable.next swapped
      ⟨none, .store (.sweep mergedAway rfl unindexed), fun q impossible => by cases impossible⟩
    change QueryReachableApart none (_, ⟨fourSpans, .reading _ 1 _
      (listBlocks fourHours.index none)⟩) at swept
    rw [blocks] at swept
    -- the block is gone, so the query lists once more
    have relisted := (swept.query (.relist (getElem?_eraseAll_mem gone))).query .list
    let s : Live := ((sealedAndFlushed fourSpans).setCold merged.cold).setFiles
      (eraseAll merged.cold.files mergedAway)
    have steps : ∀ run run', QueryStep none s run run' →
        ∃ wrote, QuerySystemStep none wrote (s, run) (s, run') ∧ WritesApart (s, run) wrote :=
      fun run run' stepped => ⟨none, .query stepped, fun q impossible => by cases impossible⟩
    have read : QueryReachableApart none (s, ⟨fourSpans, .reading
        (sealedAndFlushed fourSpans).proc.hot 2 selected []⟩) := by
      refine read_run steps (listBlocks s.disk.cold.index none) ?_ relisted
      exact attempted
    have returned := read.query .finish
    exact ⟨_, _, returned, query_complete returned rfl⟩
  · cases same
    exact ⟨named, apart⟩

/-! ### A merge over an indexed block -/

/-- Both halves of the day are merged to one path, and a query after that misses the
spans of the first. -/
theorem query_misses_acked : ∃ s run result,
    QueryReachable none (s, run) ∧ run.pc = .done result ∧
      ∃ span ∈ run.acked, spanKey span ∉ result.map spanKey := by
  have pending : (pushed fourSpans).pendingSegments 2 = [1] := by decide
  have ranFirst : (mergeHalf fourHours 0).any (fun first =>
      decide (∀ c ∈ halfDay 1, first.cold.index.Names c.rel) &&
        (mergeHalf first.cold 1).any (fun second =>
          (query (sealedAndFlushed fourSpans).proc.hot second.cold none usizeMax).any
            (fun result => decide (keyOf "a" "1" ∉ result.map spanKey)))) = true := by
    decide
  rw [Option.any_eq_true] at ranFirst
  obtain ⟨first, mergedFirst, ranSecond⟩ := ranFirst
  rw [Bool.and_eq_true, decide_eq_true_eq, Option.any_eq_true] at ranSecond
  obtain ⟨named, second, mergedSecond, ranQuery⟩ := ranSecond
  rw [Option.any_eq_true] at ranQuery
  obtain ⟨result, read, missing⟩ := ranQuery
  have startState : QueryReachable none (sealedAndFlushed fourSpans, {}) :=
    .start ⟨reachable_sealedAndFlushed fourSpans pending, rfl⟩
  -- the second half is merged to the path of the first
  have afterFirst := Reachable.next startState ⟨_, .store (.merge 0 thatDay (halfDay 0) rfl
    (by decide) (by decide) mergedFirst)⟩
  have afterSecond := Reachable.next afterFirst ⟨_, .store (.merge 0 thatDay (halfDay 1) rfl
    named (by decide) mergedSecond)⟩
  have called := Reachable.next afterSecond ⟨none, .query .call⟩
  have returned := query_run (fun run run' stepped => ⟨none, .query stepped⟩) read called
  exact ⟨_, _, result, returned, rfl, spanAt "a" 1700006400000000000, List.mem_cons_self,
    of_decide_eq_true missing⟩

end Evald.Store
