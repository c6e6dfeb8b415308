import Evald.Store.SqlView

/-! # The view at rest

Retention joins the history of the store: it drops rows, so nothing here speaks of what
was ACKed.  What is left of the invariants is that every indexed block is on disk and
holds no key twice (`HistoryInvariant`), and that is all `view_at_rest` needs to count
the rows of the `spans` view.
-/

namespace Evald.Store

open Evald.Lib

/-- `cold_urls`. -/
def coldUrls (cold : ColdState) (paths : List BlockPath) : Option (List Url) :=
  paths.mapM (fun p => (cold.files[p]?).map (fun file => (p, file.rows)))

/-- `register_spans` while nothing else moves: the rows of `cold_spans` and `hot_spans`. -/
def registerSpans (s : Live) : Option (List Url × List NormalizedSpan) := do
  let urls ←
    match coldUrls s.disk.cold s.disk.cold.index.allBlockPaths with
    | some urls => some urls
    | none => coldUrls s.disk.cold s.disk.cold.index.allBlockPaths
  return (urls, s.proc.hot.hotSpans)

/-- One step of a store's history, from its first opening on.  Merges, sweeps and retention
hold the compaction lock; a merge writes to a path that is not indexed. -/
inductive HistoryStep : System → System → Prop where
  | system {a b : System} (stepped : SystemStep a b) : HistoryStep a b
  | store {wrote : Option BlockPath} {s s' : Live} (stepped : StoreStep wrote s s')
      (fresh : ∀ p, wrote = some p → ¬ s.disk.cold.index.Names p) :
      HistoryStep (.live s) (.live s')
  | reclaim {s : Live} (cutoff : Nat) (dryRun : Bool) (locked : s.proc.compactor = .idle) :
      HistoryStep (.live s) (.live (s.setCold (reclaimBefore cutoff dryRun s.disk.cold).1))
  /-- A merge that gets no further than its output file. -/
  | abandonMerge {s : Live} (p : BlockPath) (file : BlockFile) (locked : s.proc.compactor = .idle)
      (fresh : ¬ s.disk.cold.index.Names p) :
      HistoryStep (.live s) (.live (s.setFiles (s.disk.cold.files.insert p file)))
  /-- A retention sweep that gets no further than its index transaction. -/
  | abandonReclaim {s : Live} (paths : List BlockPath) (locked : s.proc.compactor = .idle) :
      HistoryStep (.live s) (.live (s.setCold
        { s.disk.cold with index := s.disk.cold.index.dropBlocks paths }))

abbrev HistoryReachable : System → Prop :=
  Reachable (fun system => system = .down {}) HistoryStep

/-! ## The invariant -/

/-- The cold tier: what the index names is on disk, and no block holds a key twice. -/
structure OncePerBlock (cold : ColdState) : Prop where
  trace : TraceInvariant cold
  once : ∀ p, cold.index.Names p → ((rowsAt cold.files p).map spanKey).Nodup

/-- Segments to flush: in order and above the watermark. -/
structure Ascending (watermark : Nat) (pending : List Nat) : Prop where
  ordered : pending.Pairwise (· < ·)
  above : ∀ n ∈ pending, watermark < n

theorem Ascending.tail {watermark seqno : Nat} {rest : List Nat}
    (ascending : Ascending watermark (seqno :: rest)) : Ascending watermark rest where
  ordered := (List.pairwise_cons.mp ascending.ordered).2
  above := fun n member => ascending.above n (List.mem_cons_of_mem _ member)

theorem Ascending.commit {watermark seqno : Nat} {rest : List Nat}
    (ascending : Ascending watermark (seqno :: rest)) : Ascending seqno rest where
  ordered := (List.pairwise_cons.mp ascending.ordered).2
  above := (List.pairwise_cons.mp ascending.ordered).1

/-- A flush under way has written the first blocks of its plan. -/
def PlanOk (cold : ColdState) : Compactor → Prop
  | .idle => True
  | .loaded _ => True
  | .listed pending => Ascending cold.index.watermark pending
  | .flushing seqno written todo rest => Ascending cold.index.watermark (seqno :: rest) ∧
    ∃ spans, written ++ todo = flushPlan seqno spans ∧ Written cold.files written
  | .committed _ rest => Ascending cold.index.watermark rest
  | .deleted _ rest => Ascending cold.index.watermark rest

structure HistoryInvariant (s : Live) : Prop where
  cold : OncePerBlock s.disk.cold
  plan : PlanOk s.disk.cold s.proc.compactor

/-! ## The cold tier -/

/-- Dropping blocks, or changing files that are not indexed. -/
theorem OncePerBlock.shrink {cold cold' : ColdState} (invariant : OncePerBlock cold)
    (trace : TraceInvariant cold') (fewer : ∀ p, cold'.index.Names p → cold.index.Names p)
    (kept : ∀ p, cold'.index.Names p → cold'.files[p]? = cold.files[p]?) :
    OncePerBlock cold' where
  trace := trace
  once := fun p named => by
    rw [rowsAt_eq_of_getElem? (kept p named)]
    exact invariant.once p (fewer p named)

theorem OncePerBlock.refile {cold cold' : ColdState} (invariant : OncePerBlock cold)
    (index : cold'.index = cold.index)
    (kept : ∀ p, cold.index.Names p → cold'.files[p]? = cold.files[p]?) :
    OncePerBlock cold' := by
  apply invariant.shrink (invariant.trace.refile index kept)
  · intro p named
    exact index ▸ named
  · intro p named
    exact kept p (index ▸ named)

theorem OncePerBlock.commit {cold : ColdState} (invariant : OncePerBlock cold) {seqno : Nat}
    (pending : cold.index.watermark < seqno) {spans : List NormalizedSpan}
    (written : Written cold.files (flushPlan seqno spans)) :
    OncePerBlock
      { cold with
        index := cold.index.commitFlush seqno
          ((flushPlan seqno spans).map (fun b => blockMeta b.1 b.2)) } := by
  refine ⟨invariant.trace.commit pending written, fun p named => ?_⟩
  cases names_commitPlan.mp named with
  | inl planned =>
    obtain ⟨block, member, path⟩ := planned
    obtain ⟨file, found, rows⟩ := written block member
    have here : rowsAt cold.files p = block.2 := by
      rw [path, rowsAt, found]
      exact rows
    change ((rowsAt cold.files p).map spanKey).Nodup
    rw [here]
    exact nodup_keys_flushPlan member
  | inr old => exact invariant.once p old

theorem OncePerBlock.swap {stamp : Nat} {dir : Slot} {chunk : List Candidate}
    {before after : MergeRun} (invariant : OncePerBlock before.cold)
    (fresh : ¬ before.cold.index.Names (outRel dir chunk))
    (swaps : Swaps stamp dir chunk before after) : OncePerBlock after.cold := by
  refine ⟨invariant.trace.swap fresh swaps, fun p named => ?_⟩
  by_cases isOutput : p = outRel dir chunk
  · rw [isOutput, swaps.rowsAt_output]
    exact nodup_keys_firstCopies spanKey [] _
  · rw [swaps.rowsAt_other isOutput]
    cases (swaps.names p).mp named with
    | inl same => exact absurd same isOutput
    | inr old => exact invariant.once p old.2

theorem OncePerBlock.drop {cold : ColdState} (invariant : OncePerBlock cold)
    (paths : List BlockPath) :
    OncePerBlock { cold with index := cold.index.dropBlocks paths } :=
  invariant.shrink (invariant.trace.step (.drop paths))
    (fun _ named => (Index.names_dropBlocks.mp named).2) (fun _ _ => rfl)

theorem OncePerBlock.reclaim {cold : ColdState} (invariant : OncePerBlock cold) (cutoff : Nat)
    (dryRun : Bool) : OncePerBlock (reclaimBefore cutoff dryRun cold).1 := by
  cases reclaimBefore_cases cutoff dryRun cold with
  | inl same =>
    rw [same]
    exact invariant
  | inr dropped =>
    obtain ⟨paths, after⟩ := dropped
    rw [after]
    refine (invariant.drop paths).refile rfl (fun p named => ?_)
    exact getElem?_eraseAll_not_mem (Index.names_dropBlocks.mp named).1

/-! ## Steps of the running store -/

theorem HistoryInvariant.live {s s' : Live} (invariant : HistoryInvariant s)
    (stepped : LiveStep s s') : HistoryInvariant s' := by
  have plan := invariant.plan
  have cold := invariant.cold
  cases stepped with
  | appendFirst | appendNext | sync | push | groupDone | rotate | publish => exact ⟨cold, plan⟩
  | loadActive => exact ⟨cold, trivial⟩
  | @listPending active pc =>
    refine ⟨cold, ?_, fun n member => ?_⟩
    · have keys : s.proc.hot.segnos.Pairwise (fun a b => compare a b = .lt) :=
        Std.ExtTreeMap.ordered_keys
      exact (keys.imp Nat.compare_eq_lt.mp).filter _
    · exact (mem_pendingSegments.mp member).2.1
  | skipAbsent pc absent =>
    rw [pc] at plan
    exact ⟨cold, Ascending.tail plan⟩
  | snapshot pc resident =>
    rw [pc] at plan
    exact ⟨cold, plan, _, List.nil_append _, fun _ member => by cases member⟩
  | @writeBlock seqno written todo block rest priceTable now pc =>
    rw [pc] at plan
    obtain ⟨ascending, spans, planned, onDisk⟩ := plan
    have whole : (written ++ [block]) ++ todo = flushPlan seqno spans := by
      rw [← planned, ← List.append_cons]
    have member : block ∈ flushPlan seqno spans := by
      rw [← planned]
      exact List.mem_append_right _ List.mem_cons_self
    -- the write is behind the watermark of the index, so no row that is named changes
    have fresh : ¬ s.disk.cold.index.Names block.1 :=
      cold.trace.flush_fresh (ascending.above seqno List.mem_cons_self) member
    have distinct : ((written ++ [block]).map Prod.fst).Nodup := by
      have paths := nodup_paths_flushPlan seqno spans
      rw [← whole, List.map_append] at paths
      exact paths.of_append_left
    refine ⟨cold.refile rfl (fun p named => ?_), ascending, spans, whole, ?_⟩
    · change (writePlanned priceTable now seqno s.disk.cold.files block)[p]? = _
      rw [writePlanned, getElem?_writeBlock, if_neg]
      intro same
      exact fresh (same ▸ named)
    · exact Written.next onDisk distinct priceTable now seqno
  | @commit seqno written rest pc =>
    rw [pc] at plan
    obtain ⟨ascending, spans, planned, onDisk⟩ := plan
    rw [List.append_nil] at planned
    subst planned
    exact ⟨cold.commit (ascending.above seqno List.mem_cons_self) onDisk, ascending.commit⟩
  | deleteSegment pc =>
    rw [pc] at plan
    exact ⟨cold, plan⟩
  | dropSegment pc =>
    rw [pc] at plan
    exact ⟨cold, plan⟩
  | passDone => exact ⟨cold, trivial⟩

theorem OncePerBlock.setCold {s : Live} {cold : ColdState} (invariant : OncePerBlock cold)
    (locked : s.proc.compactor = .idle) : HistoryInvariant (s.setCold cold) where
  cold := invariant
  plan := by
    change PlanOk cold s.proc.compactor
    rw [locked]
    trivial

theorem HistoryInvariant.store {wrote : Option BlockPath} {s s' : Live}
    (invariant : HistoryInvariant s) (stepped : StoreStep wrote s s')
    (fresh : ∀ p, wrote = some p → ¬ s.disk.cold.index.Names p) : HistoryInvariant s' := by
  have cold := invariant.cold
  cases stepped with
  | live stepped => exact invariant.live stepped
  | @merge _ after stamp dir chunk locked named apart ran =>
    have swapped : ∃ after', mergeChunk stamp dir false _ chunk = some after' ∧
        Swaps stamp dir chunk { cold := s.disk.cold, report := { dryRun := false } } after' :=
      mergeChunk_swaps stamp (fun c member => cold.trace.stored c.rel (named c member)) apart
    obtain ⟨after', ran', swaps⟩ := swapped
    rw [ran] at ran'
    cases ran'
    exact (OncePerBlock.swap cold (fresh _ rfl) swaps).setCold locked
  | sweep paths locked unindexed =>
    refine OncePerBlock.setCold (cold.refile rfl (fun p named => ?_)) locked
    exact getElem?_eraseAll_not_mem (fun gone => unindexed p gone named)

/-! ## Every run -/

def SystemOk : System → Prop
  | .down r => OncePerBlock r.disk.cold
  | .replaying r _ _ _ _ => OncePerBlock r.disk.cold
  | .sweeping r todo _ _ => (∀ p ∈ todo, ¬ r.disk.cold.index.Names p) ∧ OncePerBlock r.disk.cold
  | .live s => HistoryInvariant s

theorem SystemOk.cold {system : System} (ok : SystemOk system) :
    OncePerBlock system.remains.disk.cold := by
  cases system with
  | down r => exact ok
  | replaying r watermark todo hot maxSeqno => exact ok
  | sweeping r todo hot maxSeqno => exact ok.2
  | live s => exact HistoryInvariant.cold ok

theorem SystemOk.system {a b : System} (ok : SystemOk a) (stepped : SystemStep a b) :
    SystemOk b := by
  cases stepped with
  | run stepped => exact HistoryInvariant.live ok stepped
  | crash _ kept durable => exact ok.cold
  | openStore r => exact ok
  | deleteFlushed flushed => exact ok
  | replay above => exact ok
  | listOrphans =>
    refine ⟨fun p member => ?_, ok⟩
    have unindexed := (List.mem_filter.mp member).2
    simp only [decide_eq_true_eq, Index.mem_allBlockPaths] at unindexed
    exact unindexed
  | @removeOrphan r p todo hot maxSeqno =>
    obtain ⟨unindexed, cold⟩ := ok
    refine ⟨fun q member => unindexed q (List.mem_cons_of_mem _ member), ?_⟩
    refine cold.refile rfl (fun q named => ?_)
    change (r.disk.cold.files.erase p)[q]? = _
    rw [Std.ExtTreeMap.getElem?_erase, if_neg]
    intro same
    rw [Std.LawfulEqOrd.compare_eq_iff_eq] at same
    exact unindexed p List.mem_cons_self (same ▸ named)
  | openWal => exact ⟨ok.2, trivial⟩

theorem SystemOk.step {a b : System} (ok : SystemOk a) (stepped : HistoryStep a b) :
    SystemOk b := by
  cases stepped with
  | system stepped => exact ok.system stepped
  | store stepped fresh => exact HistoryInvariant.store ok stepped fresh
  | reclaim cutoff dryRun locked =>
    exact ((HistoryInvariant.cold ok).reclaim cutoff dryRun).setCold locked
  | @abandonMerge s p file locked fresh =>
    refine OncePerBlock.setCold ((HistoryInvariant.cold ok).refile rfl (fun q named => ?_)) locked
    change (s.disk.cold.files.insert p file)[q]? = _
    rw [Std.ExtTreeMap.getElem?_insert, if_neg]
    intro same
    rw [Std.LawfulEqOrd.compare_eq_iff_eq] at same
    exact fresh (same ▸ named)
  | abandonReclaim paths locked =>
    exact ((HistoryInvariant.cold ok).drop paths).setCold locked

theorem oncePerBlock_empty : OncePerBlock {} where
  trace := traceInvariant_empty
  once := fun p named => absurd named (Index.names_empty p)

theorem HistoryReachable.invariant {s : Live} (reached : HistoryReachable (.live s)) :
    HistoryInvariant s := by
  have ok : SystemOk (.live s) :=
    Reachable.invariant (fun _ begins => begins ▸ oncePerBlock_empty)
      (fun _ _ kept stepped => kept.step stepped) reached
  exact ok

/-! ## The registration, step by step -/

/-- Looking for listed blocks one at a time finds what `coldUrls` finds. -/
theorem check_run {s : Live} (acked : List NormalizedSpan) (attempts listedAt : Nat)
    {paths : List BlockPath} {urls : List Url} (found : coldUrls s.disk.cold paths = some urls)
    (before : List Url) :
    Relation.ReflTransGen (SqlStep s) ⟨acked, .checking attempts listedAt before paths⟩
      ⟨acked, .checking attempts listedAt (before ++ urls) []⟩ := by
  induction paths generalizing before urls with
  | nil =>
    have empty : [] = urls := Option.some.inj found
    rw [← empty, List.append_nil]
  | cons p paths inductionHypothesis =>
    unfold coldUrls at found inductionHypothesis
    rw [List.mapM_cons] at found
    cases there : s.disk.cold.files[p]? with
    | none =>
      rw [there] at found
      cases found
    | some file =>
      rw [there] at found
      cases rest : paths.mapM (fun p => (s.disk.cold.files[p]?).map (fun file => (p, file.rows))) with
      | none =>
        rw [rest] at found
        cases found
      | some later =>
        rw [rest] at found
        cases found
        have run := inductionHypothesis rest (before ++ [(p, file.rows)])
        rw [List.append_assoc] at run
        exact .head (.found there) run

/-- While the store rests, the steps of a query end in what `registerSpans` computes. -/
theorem registerSpans_run {s : Live} {urls : List Url} {hot : List NormalizedSpan}
    (registered : registerSpans s = some (urls, hot)) :
    Relation.ReflTransGen (SqlStep s) {} ⟨s.settled, .done urls hot⟩ := by
  have found : coldUrls s.disk.cold s.disk.cold.index.allBlockPaths = some urls ∧
      s.proc.hot.hotSpans = hot := by
    unfold registerSpans at registered
    cases listed : coldUrls s.disk.cold s.disk.cold.index.allBlockPaths with
    | none =>
      rw [listed] at registered
      cases registered
    | some urls' =>
      rw [listed] at registered
      cases registered
      exact ⟨rfl, rfl⟩
  obtain ⟨listed, rfl⟩ := found
  have checked := check_run s.settled 1 s.disk.watermark listed []
  exact .head .call (.head .list ((checked.tail .register).tail .snapshot))

/-! ## What the view holds -/

/-- The blocks that hold a key. -/
def ColdState.holders (cold : ColdState) (k : SpanKey) : List BlockPath :=
  cold.index.allBlockPaths.filter (fun p => k ∈ (rowsAt cold.files p).map spanKey)

theorem coldUrls_stored {cold : ColdState} {paths : List BlockPath}
    (stored : ∀ p ∈ paths, ∃ file, cold.files[p]? = some file) :
    coldUrls cold paths = some (paths.map (fun p => (p, rowsAt cold.files p))) := by
  induction paths with
  | nil => rfl
  | cons p paths inductionHypothesis =>
    obtain ⟨here, later⟩ := List.forall_mem_cons.mp stored
    obtain ⟨file, found⟩ := here
    have rows : rowsAt cold.files p = file.rows := by rw [rowsAt, found]
    have rest := inductionHypothesis later
    unfold coldUrls at rest ⊢
    rw [List.mapM_cons, found, rest, List.map_cons, rows]
    rfl

/-- A key of the hot tier is in the view once, and another key once for each block that
holds it. -/
theorem count_spansView {cold : ColdState} (once : OncePerBlock cold)
    {hot : List NormalizedSpan} (distinct : (hot.map spanKey).Nodup) (k : SpanKey) :
    ((spansView (cold.index.allBlockPaths.map (fun p => (p, rowsAt cold.files p))) hot).map
        spanKey).count k =
      if HasKey hot k then 1 else (cold.holders k).length := by
  have rows : (cold.index.allBlockPaths.map (fun p => (p, rowsAt cold.files p))).flatMap Prod.snd =
      cold.index.allBlockPaths.flatMap (rowsAt cold.files) :=
    List.flatMap_map _ _ _
  have shown : ((cold.index.allBlockPaths.flatMap (rowsAt cold.files)).filter
        (fun s => spanKey s ∉ hot.map spanKey)).map spanKey =
      ((cold.index.allBlockPaths.flatMap (rowsAt cold.files)).map spanKey).filter
        (fun key => key ∉ hot.map spanKey) := by
    rw [List.filter_map]
    rfl
  rw [spansView, rows, List.map_append, List.count_append, shown, List.map_flatMap]
  by_cases inHot : HasKey hot k
  · rw [if_pos inHot, List.count_eq_one_of_mem distinct inHot, List.count_eq_zero_of_not_mem]
    intro member
    have hidden := (List.mem_filter.mp member).2
    exact of_decide_eq_true hidden inHot
  · have unhidden : ∀ keys : List SpanKey,
        (keys.filter (fun key => key ∉ hot.map spanKey)).count k = keys.count k :=
      fun keys => List.count_filter (decide_eq_true inHot)
    rw [if_neg inHot, List.count_eq_zero_of_not_mem inHot, Nat.zero_add, unhidden]
    refine count_flatMap_nodup (fun p listed => ?_) k
    exact once.once p (Index.mem_allBlockPaths.mp listed)

/-- In every state some history reaches, whatever retention dropped: an indexed block holds
a key at most once, `register_spans` and a read of everything both succeed and show the same
keys, and a key is in the view once if the hot tier holds it, else once for each block that
does. -/
theorem view_at_rest {s : Live} (reached : HistoryReachable (.live s)) :
    (∀ p, s.disk.cold.index.Names p → ((rowsAt s.disk.cold.files p).map spanKey).Nodup) ∧
    ∃ urls hot spans, registerSpans s = some (urls, hot) ∧
      query s.proc.hot s.disk.cold none usizeMax = some spans ∧
      (∀ k, HasKey (spansView urls hot) k ↔ HasKey spans k) ∧
      ∀ k, ((spansView urls hot).map spanKey).count k =
        if HasKey s.proc.hot.allSpans k then 1 else (s.disk.cold.holders k).length := by
  have once := reached.invariant.cold
  have stored : ∀ p ∈ s.disk.cold.index.allBlockPaths, ∃ file, s.disk.cold.files[p]? = some file :=
    fun p listed => once.trace.stored p (Index.mem_allBlockPaths.mp listed)
  have hotKeys : ∀ k, HasKey s.proc.hot.hotSpans k ↔ HasKey s.proc.hot.allSpans k :=
    mem_keys_firstCopies_nil spanKey _
  obtain ⟨spans, read, -, keys⟩ := query_everything s.proc.hot once.trace.stored
  have registered : registerSpans s =
      some (s.disk.cold.index.allBlockPaths.map (fun p => (p, rowsAt s.disk.cold.files p)),
        s.proc.hot.hotSpans) := by
    rw [registerSpans, coldUrls_stored stored]
    rfl
  refine ⟨once.once, _, _, spans, registered, read, fun k => ?_, fun k => ?_⟩
  · refine mem_keys_spansView.trans (Iff.trans (or_congr (hotKeys k) ?_) (keys k).symm)
    simp only [InBlocks, ColdState.Holds, List.mem_map, exists_exists_and_eq_and,
      Index.mem_allBlockPaths]
  · have distinct : (s.proc.hot.hotSpans.map spanKey).Nodup := nodup_keys_firstCopies spanKey [] _
    rw [count_spansView once distinct]
    simp only [hotKeys]

theorem SystemReachable.history {system : System} (reached : SystemReachable system) :
    HistoryReachable system :=
  Reachable.mono (fun _ begins => begins) (fun _ _ stepped => .system stepped) reached

/-- A span sent twice in one batch and flushed, and sent once more. -/
def resent : Live :=
  (((sealedAndFlushed [oneSpan, oneSpan]).append [] [oneSpan]).sync [(2, [oneSpan])]).push 2
    [oneSpan] []

theorem reachable_resent : SystemReachable (.live resent) := by
  have pending : (pushed [oneSpan, oneSpan]).pendingSegments 2 = [1] := by decide
  have flushed := reachable_sealedAndFlushed [oneSpan, oneSpan] pending
  have appended := Reachable.next flushed (.run (.appendFirst [oneSpan] rfl))
  have synced := Reachable.next appended (.run (.sync rfl))
  exact .next synced (.run (.push rfl))

/-- The flushed block holds the span once, and the view shows the copy of the hot tier. -/
theorem view_at_rest_resent :
    (resent.disk.cold.holders (spanKey oneSpan)).length = 1 ∧
    (∀ p, resent.disk.cold.index.Names p →
      ((rowsAt resent.disk.cold.files p).map spanKey).Nodup) ∧
    ∃ urls hot, registerSpans resent = some (urls, hot) ∧
      ((spansView urls hot).map spanKey).count (spanKey oneSpan) = 1 := by
  obtain ⟨once, urls, hot, -, registered, -, -, count⟩ := view_at_rest reachable_resent.history
  refine ⟨by decide, once, urls, hot, registered, ?_⟩
  rw [count, if_pos]
  decide

end Evald.Store
