import Evald.Store.QueryRun

/-! # One process and what a reader gets of it

A store that is opened on an empty directory and never goes down: the writer, the
compactor, merges and sweeps move it.  A read of everything at a moment at which no append
is under way shows one of the spans that were appended under every key that was appended,
and nothing else (`query_of_process`).
-/

namespace Evald.Store

open Evald.Lib

/-- The store of one process.  A merge writes over no indexed block. -/
abbrev ProcessReachable : Live → Prop :=
  Reachable (fun s => s = Remains.openWal {} ∅ 0) (fun s s' => ∃ wrote, StoreStep wrote s s' ∧
    ∀ p, wrote = some p → ¬ s.disk.cold.index.Names p)

theorem ProcessReachable.invariant {s : Live} (reached : ProcessReachable s) :
    LiveInvariant s := by
  apply Reachable.invariant _ _ reached
  · intro s opened
    rw [opened]
    exact (SystemReachable.invariant reachable_fresh).1
  · intro s s' invariant stepped
    obtain ⟨wrote, stepped, fresh⟩ := stepped
    exact (stepped.keeps invariant fresh).1

/-- Every span that can be read was appended, and what is not settled is in flight. -/
structure Contents (s : Live) : Prop where
  hot : ∀ n, ∀ span ∈ s.proc.hot.spansOf n, span ∈ s.appended
  cold : ∀ p, s.disk.cold.index.Names p → ∀ span ∈ rowsAt s.disk.cold.files p, span ∈ s.appended
  acked : s.appended = s.settled ++ s.proc.writer.inFlight

theorem Contents.live {s s' : Live} (contents : Contents s) (invariant : LiveInvariant s)
    (stepped : LiveStep s s') : Contents s' := by
  obtain ⟨hot, cold, acked⟩ := contents
  have appended (pending : PendingAppends) (spans : List NormalizedSpan)
      (inFlight : s.proc.writer.inFlight = pending.spans) : Contents (s.append pending spans) := by
    refine ⟨fun n span member => List.mem_append_left spans (hot n span member),
      fun p named span member => List.mem_append_left spans (cold p named span member), ?_⟩
    change s.appended ++ spans = s.settled ++ (pending ++ [(s.proc.walActive, spans)]).spans
    rw [acked, inFlight]
    simp [PendingAppends.spans]
  cases stepped with
  | appendFirst spans pc => exact appended [] spans (by rw [pc]; rfl)
  | appendNext spans pc => exact appended _ spans (by rw [pc]; rfl)
  | sync pc =>
    refine ⟨hot, cold, ?_⟩
    rw [pc] at acked
    exact acked
  | @push seqno spans pending pc =>
    rw [pc] at acked
    have pushed : ∀ span ∈ spans, span ∈ s.appended := by
      intro span member
      rw [acked]
      simp [Writer.inFlight, PendingAppends.spans, member]
    refine ⟨fun n span member => ?_, cold, ?_⟩
    · change span ∈ (s.proc.hot.push seqno spans).spansOf n at member
      rw [HotTier.spansOf_push] at member
      split at member
      · exact (List.mem_append.mp member).elim (hot n span) (pushed span)
      · exact hot n span member
    · change s.appended = (s.settled ++ spans) ++ pending.spans
      rw [acked]
      simp [Writer.inFlight, PendingAppends.spans]
  | groupDone pc =>
    rw [pc] at acked
    exact ⟨hot, cold, acked⟩
  | rotate pc =>
    rw [pc] at acked
    exact ⟨hot, cold, acked⟩
  | publish pc =>
    rw [pc] at acked
    exact ⟨hot, cold, acked⟩
  | loadActive pc | listPending pc | skipAbsent pc absent | snapshot pc resident
  | deleteSegment pc | passDone pc => exact ⟨hot, cold, acked⟩
  | @writeBlock seqno written todo block rest priceTable now pc =>
    refine ⟨hot, fun p named span member => cold p named span ?_, acked⟩
    -- the file of a planned block is not indexed yet
    have compactorOk := invariant.compactor
    rw [pc] at compactorOk
    obtain ⟨pending, spans, -, plan, -⟩ := compactorOk
    have planned : block ∈ flushPlan seqno spans := by
      rw [← plan]
      exact List.mem_append_right _ List.mem_cons_self
    have unnamed := invariant.cold.flush_fresh (pending.between _ List.mem_cons_self).1 planned
    have kept : (writePlanned priceTable now seqno s.disk.cold.files block)[p]? =
        s.disk.cold.files[p]? := by
      rw [writePlanned, getElem?_writeBlock, if_neg]
      intro same
      exact unnamed (same ▸ named)
    rw [← rowsAt_eq_of_getElem? kept]
    exact member
  | @commit seqno written rest pc =>
    have compactorOk := invariant.compactor
    rw [pc] at compactorOk
    obtain ⟨-, spans, resident, plan, onDisk⟩ := compactorOk
    rw [List.append_nil] at plan
    subst plan
    refine ⟨hot, fun p named span member => ?_, acked⟩
    cases names_commitPlan.mp named with
    | inl planned =>
      obtain ⟨block, inPlan, path⟩ := planned
      obtain ⟨file, found, rows⟩ := onDisk block inPlan
      have here : rowsAt s.disk.cold.files p = block.2 := by
        rw [path, rowsAt, found]
        exact rows
      change span ∈ rowsAt s.disk.cold.files p at member
      obtain ⟨hour, idx, -, kept, -⟩ := mem_flushPlan inPlan
      rw [here, kept] at member
      have inSegment := mem_of_mem_firstCopies (List.mem_filter.mp member).1
      exact hot seqno span (by rwa [HotTier.spansOf_of_segment resident])
    | inr old => exact cold p old span member
  | @dropSegment seqno rest pc =>
    refine ⟨fun n span member => hot n span ?_, cold, acked⟩
    change span ∈ (s.proc.hot.dropSegment seqno).spansOf n at member
    rw [HotTier.spansOf_dropSegment] at member
    split at member
    · cases member
    · exact member

theorem Contents.store {wrote : Option BlockPath} {s s' : Live} (contents : Contents s)
    (invariant : LiveInvariant s) (stepped : StoreStep wrote s s') : Contents s' := by
  cases stepped with
  | live stepped => exact contents.live invariant stepped
  | @merge _ after stamp dir chunk locked named apart ran =>
    have swapped : ∃ after', mergeChunk stamp dir false _ chunk = some after' ∧
        Swaps stamp dir chunk { cold := s.disk.cold, report := { dryRun := false } } after' :=
      mergeChunk_swaps stamp (fun c member => invariant.cold.stored c.rel (named c member)) apart
    obtain ⟨after', ran', swaps⟩ := swapped
    rw [ran] at ran'
    cases ran'
    refine ⟨contents.hot, fun p named' span member => ?_, contents.acked⟩
    change span ∈ rowsAt after.cold.files p at member
    by_cases isOutput : p = outRel dir chunk
    · rw [isOutput, swaps.rowsAt_output] at member
      obtain ⟨c, inChunk, inBlock⟩ := List.mem_flatMap.mp (mem_of_mem_firstCopies member)
      exact contents.cold c.rel (named c inChunk) span inBlock
    · rw [swaps.rowsAt_other isOutput] at member
      have old := ((swaps.names p).mp named').resolve_left isOutput
      exact contents.cold p old.2 span member
  | sweep paths locked unindexed =>
    refine ⟨contents.hot, fun p named span member => contents.cold p named span ?_,
      contents.acked⟩
    have kept : (eraseAll s.disk.cold.files paths)[p]? = s.disk.cold.files[p]? :=
      getElem?_eraseAll_not_mem (fun gone => unindexed p gone named)
    rw [← rowsAt_eq_of_getElem? kept]
    exact member

theorem ProcessReachable.contents {s : Live} (reached : ProcessReachable s) : Contents s := by
  apply Reachable.strengthen (fun _ before => ProcessReachable.invariant before) _ _ reached
  · intro s opened
    rw [opened]
    refine ⟨fun n span member => ?_, fun p named => absurd named (Index.names_empty p), rfl⟩
    change span ∈ HotTier.spansOf ∅ n at member
    rw [HotTier.spansOf_empty] at member
    cases member
  · intro s s' invariant contents stepped
    obtain ⟨wrote, stepped, -⟩ := stepped
    exact contents.store invariant stepped

/-- When every append has returned, a read of everything succeeds and shows, of every key
that was appended, one span that was appended under it. -/
theorem query_of_process {s : Live} (reached : ProcessReachable s)
    (idle : s.proc.writer = .idle) :
    ∃ rows, query s.proc.hot s.disk.cold none usizeMax = some rows ∧
      (rows.map spanKey).Nodup ∧ (∀ span ∈ rows, span ∈ s.appended) ∧
      ∀ span ∈ s.appended, spanKey span ∈ rows.map spanKey := by
  have invariant := reached.invariant
  have contents := reached.contents
  have stored : ∀ p ∈ listBlocks s.disk.cold.index none,
      ∃ file, s.disk.cold.files[p]? = some file :=
    fun p listed => invariant.cold.stored p (Index.mem_allBlockPaths.mp listed)
  obtain ⟨rows, read, once, keys⟩ := query_everything s.proc.hot
    (fun p named => invariant.cold.stored p named)
  have whole : rows = newestFirst NormalizedSpan.startUnixNano
      (readSpans s.proc.hot s.disk.cold none) := by
    rw [query_eq stored (by decide), upTo, if_pos rfl, Option.some.injEq] at read
    exact read.symm
  refine ⟨rows, read, once, fun span member => ?_, fun span member => ?_⟩
  · rw [whole, mem_newestFirst, readSpans, combine] at member
    cases List.mem_append.mp member with
    | inl inHot =>
      have held := (List.mem_filter.mp (mem_of_mem_firstCopies inHot)).1
      obtain ⟨n, inSegment⟩ := HotTier.mem_allSpans.mp held
      exact contents.hot n span inSegment
    | inr inCold =>
      have wanted := (List.mem_filter.mp (mem_of_mem_firstCopies inCold)).1
      have listed := (List.mem_filter.mp wanted).1
      obtain ⟨p, named, inBlock⟩ := List.mem_flatMap.mp listed
      exact contents.cold p (Index.mem_allBlockPaths.mp named) span inBlock
  · -- what was appended is settled
    have settled : s.appended = s.settled := by
      rw [contents.acked, idle]
      exact List.append_nil _
    rw [settled] at member
    apply (keys (spanKey span)).mpr
    exact (invariant.readable (spanKey span)).mpr (.inl (List.mem_map_of_mem member))

/-- A process can store any spans. -/
theorem exists_process (spans : List NormalizedSpan) :
    ∃ s, ProcessReachable s ∧ s.proc.writer = .idle ∧ s.appended = spans := by
  have next {s s' : Live} (reached : ProcessReachable s) (stepped : LiveStep s s') :
      ProcessReachable s' :=
    .next reached ⟨none, .live stepped, fun _ never => by cases never⟩
  have opened : ProcessReachable (Remains.openWal {} ∅ 0) := .start rfl
  have appended := next opened (.appendFirst spans rfl)
  have pushed := next (next appended (.sync rfl)) (.push rfl)
  exact ⟨_, next pushed (.groupDone rfl), rfl, rfl⟩

end Evald.Store
