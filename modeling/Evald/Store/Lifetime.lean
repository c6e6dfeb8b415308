import Evald.Store.Attic
import Evald.Store.Concurrent
import Evald.Store.QueryRun

/-! # The lifetime of a span

The whole life of a store: appends, seals, flushes, merges and sweeps, each of which may fail
halfway, crashes and recoveries at any point, and retention, which is the one step that takes
spans away.  `query_recent` says what is left: every ACKed key, unless some copy of it is
older than the cutoffs.
-/

namespace Evald.Store

open Evald.Lib

/-! ## A life -/

/-- One step of a store's life, beside the highest cutoff of its retention sweeps so far. -/
inductive LifeStep : Nat × System → Nat × System → Prop where
  | system {newest : Nat} {a b : System} (stepped : SystemStep a b) :
      LifeStep (newest, a) (newest, b)
  | store {newest : Nat} {wrote : Option BlockPath} {s s' : Live} (stepped : StoreStep wrote s s')
      (fresh : ∀ p, wrote = some p → ¬ s.disk.cold.index.Names p) :
      LifeStep (newest, .live s) (newest, .live s')
  | reclaim {newest : Nat} {s : Live} (cutoff : Nat) (locked : s.proc.compactor = .idle) :
      LifeStep (newest, .live s)
        (max newest cutoff, .live (s.setCold (reclaimBefore cutoff false s.disk.cold).1))
  /-- A compaction pass that gives up at a failed step. -/
  | abandonFlush {newest : Nat} {s : Live} :
      LifeStep (newest, .live s) (newest, .live (s.setCompactor .idle))
  /-- A merge that gets no further than its output file. -/
  | abandonMerge {newest : Nat} {s : Live} (dir : Slot) (chunk : List Candidate)
      (file : BlockFile) (locked : s.proc.compactor = .idle)
      (fresh : ¬ s.disk.cold.index.Names (outRel dir chunk)) :
      LifeStep (newest, .live s)
        (newest, .live (s.setFiles (s.disk.cold.files.insert (outRel dir chunk) file)))
  /-- A retention sweep that gets no further than its index transaction. -/
  | abandonReclaim {newest : Nat} {s : Live} (cutoff : Nat)
      (locked : s.proc.compactor = .idle) :
      LifeStep (newest, .live s)
        (max newest cutoff, .live (s.setCold { s.disk.cold with
          index := s.disk.cold.index.dropBlocks (dropPaths cutoff s.disk.cold.index) }))

/-- Every life starts on an empty data directory. -/
abbrev LifeReachable : Nat × System → Prop :=
  Reachable (fun life => life = (0, .down {})) LifeStep

/-! ## Nothing is made up -/

/-- The hot tier of a store, as far as it has one. -/
def System.hot : System → HotTier
  | .down _ => ∅
  | .replaying _ _ _ hot _ => hot
  | .sweeping _ _ hot _ => hot
  | .live s => s.proc.hot

def System.cold (system : System) : ColdState := system.remains.disk.cold

/-- Every span that can be read was appended, and no block has a row past its recorded start. -/
structure Genuine (system : System) : Prop where
  hot : ∀ n, ∀ span ∈ system.hot.spansOf n, span ∈ system.remains.appended
  cold : RowsOk (· ∈ system.remains.appended) system.cold

theorem Genuine.live {s s' : Live} (genuine : Genuine (.live s)) (invariant : LiveInvariant s)
    (known : Known s) (stepped : LiveStep s s') : Genuine (.live s') := by
  have hot : ∀ n, ∀ span ∈ s.proc.hot.spansOf n, span ∈ s.appended := genuine.hot
  have cold : RowsOk (· ∈ s.appended) s.disk.cold := genuine.cold
  have appended (pending : PendingAppends) (spans : List NormalizedSpan) :
      Genuine (.live (s.append pending spans)) :=
    ⟨fun n span member => List.mem_append_left spans (hot n span member),
      cold.mono (fun span old => List.mem_append_left spans old)⟩
  cases stepped with
  | appendFirst spans pc => exact appended [] spans
  | appendNext spans pc => exact appended _ spans
  | @push seqno spans pending pc =>
    -- what is pushed is in the active segment
    have pushed : ∀ span ∈ spans, span ∈ s.appended := by
      intro span member
      have mirrors := invariant.mirrors _ (invariant.above.trans_le invariant.published)
      rw [if_pos rfl, pc] at mirrors
      apply known.records s.proc.walActive
      rw [mirrors]
      simp [Writer.inFlight, PendingAppends.spans, member]
    refine ⟨fun n span member => ?_, cold⟩
    change span ∈ (s.proc.hot.push seqno spans).spansOf n at member
    rw [HotTier.spansOf_push] at member
    split at member
    · exact (List.mem_append.mp member).elim (hot n span) (pushed span)
    · exact hot n span member
  | sync pc | groupDone pc | rotate pc | publish pc | loadActive pc | listPending pc
  | skipAbsent pc absent | snapshot pc resident | deleteSegment pc | passDone pc =>
    exact ⟨hot, cold⟩
  | @writeBlock seqno written todo block rest priceTable now pc =>
    refine ⟨hot, cold.refile (fun p named => rowsAt_eq_of_getElem? ?_)⟩
    have compactorOk := invariant.compactor
    rw [pc] at compactorOk
    obtain ⟨pending, spans, -, plan, -⟩ := compactorOk
    have planned : block ∈ flushPlan seqno spans := by
      rw [← plan]
      exact List.mem_append_right _ List.mem_cons_self
    rw [writePlanned, getElem?_writeBlock, if_neg]
    intro same
    exact invariant.cold.flush_fresh (pending.between _ List.mem_cons_self).1 planned (same ▸ named)
  | @commit seqno written rest pc =>
    have compactorOk := invariant.compactor
    rw [pc] at compactorOk
    obtain ⟨-, spans, resident, plan, onDisk⟩ := compactorOk
    rw [List.append_nil] at plan
    subst plan
    refine ⟨hot, cold.commit onDisk (fun span member => hot seqno span ?_)⟩
    rwa [HotTier.spansOf_of_segment resident]
  | @dropSegment seqno rest pc =>
    refine ⟨fun n span member => hot n span ?_, cold⟩
    change span ∈ (s.proc.hot.dropSegment seqno).spansOf n at member
    rw [HotTier.spansOf_dropSegment] at member
    split at member
    · cases member
    · exact member

theorem Genuine.system {a b : System} (genuine : Genuine a) (invariant : SystemInvariant a)
    (stepped : SystemStep a b) : Genuine b := by
  have cold := genuine.cold
  have none : ∀ r : Remains, ∀ n, ∀ span ∈ HotTier.spansOf ∅ n, span ∈ r.appended := by
    intro r n span member
    rw [HotTier.spansOf_empty] at member
    cases member
  cases stepped with
  | run stepped => exact genuine.live invariant.1 invariant.2 stepped
  | crash _ kept durable => exact ⟨none _, cold⟩
  | openStore r => exact ⟨none r, cold⟩
  | deleteFlushed flushed => exact ⟨genuine.hot, cold⟩
  | @replay r watermark seqno maxSeqno todo hot above =>
    obtain ⟨-, replayed⟩ := invariant
    refine ⟨fun n span member => ?_, cold⟩
    change span ∈ (hot.loadSegment seqno (r.disk.recordsOf seqno)).spansOf n at member
    rw [HotTier.spansOf_loadSegment _ _ _ _
      (replayed.unread seqno (.inr List.mem_cons_self))] at member
    split at member
    · exact replayed.recoverable.known seqno span member
    · exact genuine.hot n span member
  | listOrphans => exact ⟨genuine.hot, cold⟩
  | @removeOrphan r p todo hot maxSeqno =>
    obtain ⟨unindexed, -⟩ := invariant
    refine ⟨genuine.hot, cold.refile (fun q named => rowsAt_eq_of_getElem? ?_)⟩
    change (r.disk.cold.files.erase p)[q]? = r.disk.cold.files[q]?
    rw [Std.ExtTreeMap.getElem?_erase, if_neg]
    intro same
    rw [Std.LawfulEqOrd.compare_eq_iff_eq] at same
    exact unindexed p List.mem_cons_self (same ▸ named)
  | openWal => exact ⟨genuine.hot, cold⟩

/-! ## A step with an attic -/

/-- The same store, with another cold tier. -/
def System.withCold (cold : ColdState) : System → System
  | .down r => .down { r with disk := { r.disk with cold := cold } }
  | .replaying r watermark todo hot maxSeqno =>
    .replaying { r with disk := { r.disk with cold := cold } } watermark todo hot maxSeqno
  | .sweeping r todo hot maxSeqno =>
    .sweeping { r with disk := { r.disk with cold := cold } } todo hot maxSeqno
  | .live s => .live (s.setCold cold)

/-- What the store with an attic does at a step of the store without one. -/
theorem LiveStep.withAttic {s s' : Live} {newest : Nat} {full : ColdState}
    (stepped : LiveStep s s') (invariant : LiveInvariant (s.setCold full))
    (attic : WithAttic newest s.disk.cold full) :
    ∃ full', WithAttic newest s'.disk.cold full' ∧
      LiveStep (s.setCold full) (s'.setCold full') := by
  have watermark : (s.setCold full).disk.watermark = s.disk.watermark := attic.watermark
  have pending (seqno : Nat) (rest : List Nat) (ok : PendingOk (s.setCold full) (seqno :: rest)) :
      0 < seqno := Nat.zero_lt_of_lt (ok.between seqno List.mem_cons_self).1
  cases stepped with
  | appendFirst spans pc => exact ⟨full, attic, .appendFirst spans pc⟩
  | appendNext spans pc => exact ⟨full, attic, .appendNext spans pc⟩
  | sync pc => exact ⟨full, attic, .sync pc⟩
  | push pc => exact ⟨full, attic, .push pc⟩
  | groupDone pc => exact ⟨full, attic, .groupDone pc⟩
  | rotate pc => exact ⟨full, attic, .rotate pc⟩
  | publish pc => exact ⟨full, attic, .publish pc⟩
  | loadActive pc => exact ⟨full, attic, .loadActive pc⟩
  | @listPending active pc =>
    have same : (s.setCold full).pendingSegments active = s.pendingSegments active := by
      unfold Live.pendingSegments
      rw [watermark]
      rfl
    have listed := LiveStep.listPending (s := s.setCold full) pc
    rw [same] at listed
    exact ⟨full, attic, listed⟩
  | skipAbsent pc absent => exact ⟨full, attic, .skipAbsent pc absent⟩
  | snapshot pc resident => exact ⟨full, attic, .snapshot pc resident⟩
  | @writeBlock seqno written todo block rest priceTable now pc =>
    have compactorOk := invariant.compactor
    change CompactorOk _ s.proc.compactor at compactorOk
    rw [pc] at compactorOk
    obtain ⟨ok, spans, -, plan, -⟩ := compactorOk
    have planned : block ∈ flushPlan seqno spans := by
      rw [← plan]
      exact List.mem_append_right _ List.mem_cons_self
    obtain ⟨hour, idx, path, -⟩ := mem_flushPlan planned
    -- what is flushed has a positive number and lies outside the attic
    have outside : ¬ InAttic block.1 := by
      rw [path]
      exact not_inAttic_flush (pending seqno rest ok)
    exact ⟨_, attic.insert outside _, .writeBlock priceTable now pc⟩
  | @commit seqno written rest pc =>
    have compactorOk := invariant.compactor
    change CompactorOk _ s.proc.compactor at compactorOk
    rw [pc] at compactorOk
    obtain ⟨ok, spans, -, plan, -⟩ := compactorOk
    rw [List.append_nil] at plan
    subst plan
    exact ⟨_, attic.commit (pending seqno rest ok) spans, .commit pc⟩
  | deleteSegment pc => exact ⟨full, attic, .deleteSegment pc⟩
  | dropSegment pc => exact ⟨full, attic, .dropSegment pc⟩
  | passDone pc => exact ⟨full, attic, .passDone pc⟩

/-- What no index names is the same with and without an attic. -/
theorem WithAttic.orphans {newest : Nat} {disk : Disk} {full : ColdState}
    (attic : WithAttic newest disk.cold full) :
    ({ disk with cold := full } : Disk).orphans = disk.orphans := by
  have stored : ∀ (files : Files) (p : BlockPath), p ∈ files.keys ↔ files[p]? ≠ none := by
    intro files p
    rw [Std.ExtTreeMap.mem_keys, Std.ExtTreeMap.mem_iff_isSome_getElem?,
      Option.isSome_iff_ne_none]
  refine ordered_ext (Std.ExtTreeMap.ordered_keys.sublist List.filter_sublist)
    (Std.ExtTreeMap.ordered_keys.sublist List.filter_sublist) (fun p => ?_)
  rw [Disk.orphans, Disk.orphans, List.mem_filter, List.mem_filter, stored, stored]
  simp only [decide_eq_true_eq, Index.mem_allBlockPaths]
  by_cases inside : InAttic p
  · constructor
    · rintro ⟨there, unnamed⟩
      exact absurd (attic.indexed p inside unnamed) there
    · rintro ⟨there, -⟩
      exact absurd (attic.unstored p inside) there
  · have files : full.files[p]? ≠ none ↔ disk.cold.files[p]? ≠ none := by
      have same := attic.files p inside
      rw [not_iff_not, ← Option.map_eq_none_iff (f := BlockFile.content), same,
        Option.map_eq_none_iff]
    exact and_congr files (not_congr (attic.names inside))

theorem SystemStep.withAttic {a b : System} {newest : Nat} {full : ColdState}
    (stepped : SystemStep a b) (invariant : SystemInvariant (a.withCold full))
    (attic : WithAttic newest a.cold full) :
    ∃ full', WithAttic newest b.cold full' ∧ SystemStep (a.withCold full) (b.withCold full') := by
  cases stepped with
  | @run s s' stepped =>
    obtain ⟨full', attic', stepped'⟩ := stepped.withAttic invariant.1 attic
    exact ⟨full', attic', .run stepped'⟩
  | crash _ kept durable =>
    refine ⟨full, attic, ?_⟩
    cases a with
    | down r => exact .crash _ kept durable
    | replaying r watermark todo hot maxSeqno => exact .crash _ kept durable
    | sweeping r todo hot maxSeqno => exact .crash _ kept durable
    | live s => exact .crash _ kept durable
  | openStore r =>
    have opened := SystemStep.openStore { r with disk := { r.disk with cold := full } }
    have same : ({ r.disk with cold := full } : Disk).watermark = r.disk.watermark :=
      attic.watermark
    rw [same] at opened
    exact ⟨full, attic, opened⟩
  | deleteFlushed flushed => exact ⟨full, attic, .deleteFlushed flushed⟩
  | replay above => exact ⟨full, attic, .replay above⟩
  | @listOrphans r watermark maxSeqno hot =>
    have listed := @SystemStep.listOrphans { r with disk := { r.disk with cold := full } }
      watermark maxSeqno hot
    have same : ({ r.disk with cold := full } : Disk).orphans = r.disk.orphans :=
      WithAttic.orphans attic
    rw [same] at listed
    exact ⟨full, attic, listed⟩
  -- an orphan is not indexed, so it goes from both
  | @removeOrphan r p todo hot maxSeqno =>
    obtain ⟨unindexed, -⟩ := invariant
    have erase : ∀ (files : Files) (q : BlockPath),
        (files.erase p)[q]? = if p = q then none else files[q]? := by
      intro files q
      rw [Std.ExtTreeMap.getElem?_erase]
      simp only [Std.LawfulEqOrd.compare_eq_iff_eq]
    have erased := @WithAttic.erase newest r.disk.cold full attic (r.disk.cold.files.erase p)
      (full.files.erase p) (fun q => p = q) (fun q same => same ▸ unindexed p List.mem_cons_self)
      (fun q same => by rw [erase, erase, if_pos same, if_pos same]; exact ⟨rfl, rfl⟩)
      (fun q other => by rw [erase, erase, if_neg other, if_neg other]; exact ⟨rfl, rfl⟩)
    exact ⟨_, erased, .removeOrphan⟩
  | openWal => exact ⟨full, attic, .openWal⟩

/-! ## Every life -/

/-- The invariant of a running store depends on the cold tier by what it holds. -/
theorem LiveInvariant.recold {s : Live} (invariant : LiveInvariant s)
    (locked : s.proc.compactor = .idle) {cold : ColdState} (trace : TraceInvariant cold)
    (watermark : cold.index.watermark = s.disk.watermark)
    (holds : ∀ k, cold.Holds k ↔ s.disk.cold.Holds k) : LiveInvariant (s.setCold cold) := by
  have same : (s.setCold cold).disk.watermark = s.disk.watermark := watermark
  refine ⟨trace, ?_, invariant.published, invariant.beyond, ?_, ?_, invariant.writer, ?_,
    invariant.fsynced, ?_⟩
  · rw [same]
    exact invariant.above
  · rw [same]
    exact invariant.mirrors
  · rw [same]
    exact fun n low k held => (holds k).mpr (invariant.retired n low k held)
  · change CompactorOk _ s.proc.compactor
    rw [locked]
    trivial
  · intro k
    rw [same]
    exact (invariant.account k).trans (or_congr_left (holds k).symm)

theorem Known.recold {s : Live} (known : Known s) (cold : ColdState) : Known (s.setCold cold) :=
  ⟨known.records, known.flushed⟩

/-- There is an attic with which the store is as a store that never dropped anything. -/
def LifeInvariant (life : Nat × System) : Prop :=
  ∃ full, WithAttic life.1 life.2.cold full ∧ SystemInvariant (life.2.withCold full) ∧
    Genuine (life.2.withCold full)

theorem LifeInvariant.start : LifeInvariant (0, .down {}) := by
  refine ⟨{}, .empty, recoverable_empty, ⟨fun n span member => ?_, ?_⟩⟩
  · change span ∈ HotTier.spansOf ∅ n at member
    rw [HotTier.spansOf_empty] at member
    cases member
  · refine ⟨fun p named => absurd named (Index.names_empty p), fun p start recorded => ?_⟩
    exact absurd (Index.names_of_recorded recorded) (Index.names_empty p)

/-- A chunk of indexed blocks is merged to a path that is not indexed. -/
theorem LifeInvariant.merge {newest : Nat} {s : Live} (invariant : LifeInvariant (newest, .live s))
    {after : MergeRun} {stamp : Nat} {dir : Slot} {chunk : List Candidate}
    (locked : s.proc.compactor = .idle) (named : ∀ c ∈ chunk, s.disk.cold.index.Names c.rel)
    (apart : ∀ c ∈ chunk, c.rel ≠ outRel dir chunk)
    (ran : mergeChunk stamp dir false
      { cold := s.disk.cold, report := { dryRun := false } } chunk = some after)
    (fresh : ¬ s.disk.cold.index.Names (outRel dir chunk)) :
    LifeInvariant (newest, .live (s.setCold after.cold)) := by
  obtain ⟨full, attic, ⟨live, known⟩, genuine⟩ := invariant
  have outside : ¬ InAttic (outRel dir chunk) := not_inAttic_outRel dir chunk
  have named' : ∀ c ∈ chunk, full.index.Names c.rel :=
    fun c member => (attic.names_of_names (named c member)).2
  have fresh' : ¬ full.index.Names (outRel dir chunk) :=
    fun taken => fresh ((attic.names outside).mp taken)
  have stored : ∀ c ∈ chunk, ∃ file, s.disk.cold.files[c.rel]? = some file := by
    intro c member
    obtain ⟨file, found⟩ := live.cold.stored c.rel (named' c member)
    have same := attic.files c.rel (attic.names_of_names (named c member)).1
    change full.files[c.rel]? = some file at found
    rw [found] at same
    obtain ⟨file', found', -⟩ := Option.map_eq_some_iff.mp same.symm
    exact ⟨file', found'⟩
  -- the same merge with the attic
  obtain ⟨_, ran', swaps⟩ := @mergeChunk_swaps stamp dir
    { cold := s.disk.cold, report := { dryRun := false } } chunk stored apart
  rw [ran] at ran'
  cases ran'
  obtain ⟨after', ran', swaps'⟩ := @mergeChunk_swaps stamp dir
    { cold := full, report := { dryRun := false } } chunk
    (fun c member => live.cold.stored c.rel (named' c member)) apart
  have rows : RowsOk (· ∈ s.appended) after'.cold :=
    @RowsOk.swap _ stamp dir chunk ⟨full, { dryRun := false }, _, _⟩ after' genuine.cold named'
      swaps'
  exact ⟨after'.cold, WithAttic.swap attic named swaps swaps',
    ⟨(live.merged locked named' apart ran' fresh').1, known.recold after'.cold⟩, genuine.hot, rows⟩

/-- The files that no index names change. -/
theorem LifeInvariant.refile {newest : Nat} {s : Live} {full : ColdState} {files files' : Files}
    (live : LiveInvariant (s.setCold full)) (known : Known (s.setCold full))
    (genuine : Genuine (.live (s.setCold full))) (locked : s.proc.compactor = .idle)
    (attic : WithAttic newest { s.disk.cold with files := files } { full with files := files' })
    (kept : ∀ p, full.index.Names p → files'[p]? = full.files[p]?) :
    LifeInvariant (newest, .live (s.setFiles files)) := by
  refine ⟨{ full with files := files' }, attic, ⟨?_, known.recold _⟩, genuine.hot, ?_⟩
  · exact live.recold locked (live.cold.refile rfl kept) rfl (ColdState.holds_refile kept)
  · exact RowsOk.refile genuine.cold (fun p named => rowsAt_eq_of_getElem? (kept p named))

/-- Files that are not indexed are unlinked; what is in the attic stays there. -/
theorem LifeInvariant.sweep {newest : Nat} {s : Live} (invariant : LifeInvariant (newest, .live s))
    (locked : s.proc.compactor = .idle) {paths : List BlockPath}
    (unindexed : ∀ p ∈ paths, ¬ s.disk.cold.index.Names p) :
    LifeInvariant (newest, .live (s.setFiles (eraseAll s.disk.cold.files paths))) := by
  obtain ⟨full, attic, ⟨live, known⟩, genuine⟩ := invariant
  have attic : WithAttic newest s.disk.cold full := attic
  let free := paths.filter (fun p => ¬ full.index.Names p)
  have kept : ∀ p, full.index.Names p → (eraseAll full.files free)[p]? = full.files[p]? := by
    intro p named
    apply getElem?_eraseAll_not_mem
    intro swept
    exact of_decide_eq_true (List.mem_filter.mp swept).2 named
  refine LifeInvariant.refile live known genuine locked (attic.refile (fun p outside => ?_)
    (fun p inside => ?_) (fun p _ named => kept p named) (fun p inside unnamed => ?_)) kept
  · by_cases swept : p ∈ paths
    · have unnamed : ¬ full.index.Names p :=
        fun named => unindexed p swept ((attic.names outside).mp named)
      rw [getElem?_eraseAll_mem swept,
        getElem?_eraseAll_mem (List.mem_filter.mpr ⟨swept, decide_eq_true unnamed⟩)]
    · rw [getElem?_eraseAll_not_mem swept,
        getElem?_eraseAll_not_mem (fun member => swept (List.mem_filter.mp member).1)]
      exact attic.files p outside
  · by_cases swept : p ∈ paths
    · exact getElem?_eraseAll_mem swept
    · rw [getElem?_eraseAll_not_mem swept]
      exact attic.unstored p inside
  · by_cases swept : p ∈ free
    · exact getElem?_eraseAll_mem swept
    · rw [getElem?_eraseAll_not_mem swept]
      exact attic.indexed p inside unnamed

/-- The blocks before the cutoff are no longer indexed. -/
theorem LifeInvariant.drop {newest : Nat} {s : Live} (invariant : LifeInvariant (newest, .live s))
    (cutoff : Nat) (locked : s.proc.compactor = .idle) :
    LifeInvariant (max newest cutoff, .live (s.setCold { s.disk.cold with
      index := s.disk.cold.index.dropBlocks (dropPaths cutoff s.disk.cold.index) })) := by
  obtain ⟨full, attic, ⟨live, known⟩, genuine⟩ := invariant
  have outside : ∀ p ∈ dropPaths cutoff s.disk.cold.index, ¬ InAttic p := by
    intro p dropped
    obtain ⟨start, recorded, -⟩ := mem_dropPaths.mp dropped
    exact (attic.names_of_names (Index.names_of_recorded recorded)).1
  obtain ⟨full', trace, ok, away⟩ := exists_putsAway _ outside live.cold genuine.cold
  refine ⟨full', attic.drop genuine.cold away, ⟨?_, known.recold full'⟩, genuine.hot, ok⟩
  exact LiveInvariant.recold live locked trace away.watermark away.holds

theorem LifeInvariant.step {life life' : Nat × System} (invariant : LifeInvariant life)
    (stepped : LifeStep life life') : LifeInvariant life' := by
  cases stepped with
  | system stepped =>
    obtain ⟨full, attic, system, genuine⟩ := invariant
    obtain ⟨full', attic', stepped'⟩ := stepped.withAttic system attic
    exact ⟨full', attic', system.step stepped', genuine.system system stepped'⟩
  | store stepped fresh =>
    cases stepped with
    | live stepped =>
      obtain ⟨full, attic, system, genuine⟩ := invariant
      obtain ⟨full', attic', stepped'⟩ := stepped.withAttic system.1 attic
      have ran := SystemStep.run stepped'
      exact ⟨full', attic', system.step ran, genuine.system system ran⟩
    | merge stamp dir chunk locked named apart ran =>
      exact invariant.merge locked named apart ran (fresh _ rfl)
    | sweep paths locked unindexed =>
      exact invariant.sweep locked unindexed
  | @reclaim newest s cutoff locked =>
    rw [reclaimBefore_eq]
    exact (invariant.drop cutoff locked).sweep locked
      (fun p gone named => (Index.names_dropBlocks.mp named).1 gone)
  -- a flush that is given up leaves files no row is read from
  | abandonFlush =>
    obtain ⟨full, attic, ⟨live, known⟩, genuine⟩ := invariant
    exact ⟨full, attic, ⟨LiveInvariant.setCompactor live trivial, known.records, known.flushed⟩,
      genuine.hot, genuine.cold⟩
  | @abandonMerge newest s dir chunk file locked fresh =>
    obtain ⟨full, attic, ⟨live, known⟩, genuine⟩ := invariant
    have outside := not_inAttic_outRel dir chunk
    refine LifeInvariant.refile live known genuine locked
      (WithAttic.insert attic outside file) (fun p named => ?_)
    rw [Std.ExtTreeMap.getElem?_insert, if_neg]
    intro same
    rw [Std.LawfulEqOrd.compare_eq_iff_eq] at same
    exact fresh ((attic.names outside).mp (same ▸ named))
  | abandonReclaim cutoff locked => exact invariant.drop cutoff locked

theorem LifeReachable.invariant {life : Nat × System} (reached : LifeReachable life) :
    LifeInvariant life :=
  Reachable.invariant (fun _ begins => begins ▸ LifeInvariant.start)
    (fun _ _ kept stepped => kept.step stepped) reached

/-- In every open store that any life leads to, a read of everything succeeds, shows each key
once and shows only spans that were appended.  It shows every key that was ACKed, unless a
copy of it was appended that started before the newest cutoff of retention. -/
theorem query_recent {newest : Nat} {s : Live} (reached : LifeReachable (newest, .live s)) :
    s.fsynced = s.settled ++ s.proc.writer.awaiting ∧
    ∃ rows, query s.proc.hot s.disk.cold none usizeMax = some rows ∧
      (rows.map spanKey).Nodup ∧ (∀ span ∈ rows, span ∈ s.appended) ∧
      ∀ k, HasKey s.settled k →
        (∀ span ∈ s.appended, spanKey span = k → newest ≤ span.startUnixNano) →
          HasKey rows k := by
  obtain ⟨full, attic, ⟨live, -⟩, genuine⟩ := LifeReachable.invariant reached
  have attic : WithAttic newest s.disk.cold full := attic
  have hot : ∀ n, ∀ span ∈ s.proc.hot.spansOf n, span ∈ s.appended := genuine.hot
  have ok : RowsOk (· ∈ s.appended) full := genuine.cold
  -- what is indexed on disk is indexed in the whole history, at the same place
  have stored : ∀ p, s.disk.cold.index.Names p → ∃ file, s.disk.cold.files[p]? = some file := by
    intro p named
    obtain ⟨outside, named'⟩ := attic.names_of_names named
    obtain ⟨file, found⟩ := live.cold.stored p named'
    have same := attic.files p outside
    change full.files[p]? = some file at found
    rw [found] at same
    obtain ⟨file', found', -⟩ := Option.map_eq_some_iff.mp same.symm
    exact ⟨file', found'⟩
  obtain ⟨rows, read, once, keys⟩ := query_everything s.proc.hot stored
  refine ⟨live.fsynced, rows, read, once, fun span member => ?_, fun k acked recent => ?_⟩
  · -- a row is from the hot tier or from an indexed block
    have storedListed : ∀ p ∈ listBlocks s.disk.cold.index none,
        ∃ file, s.disk.cold.files[p]? = some file :=
      fun p listed => stored p (Index.mem_allBlockPaths.mp listed)
    have whole : rows = newestFirst NormalizedSpan.startUnixNano
        (readSpans s.proc.hot s.disk.cold none) := by
      rw [query_eq storedListed (by decide), upTo, if_pos rfl, Option.some.injEq] at read
      exact read.symm
    rw [whole, mem_newestFirst, readSpans, combine] at member
    cases List.mem_append.mp member with
    | inl inHot =>
      have held := (List.mem_filter.mp (mem_of_mem_firstCopies inHot)).1
      obtain ⟨n, inSegment⟩ := HotTier.mem_allSpans.mp held
      exact hot n span inSegment
    | inr inCold =>
      have wanted := (List.mem_filter.mp (mem_of_mem_firstCopies inCold)).1
      have listed := (List.mem_filter.mp wanted).1
      obtain ⟨p, named, inBlock⟩ := List.mem_flatMap.mp listed
      obtain ⟨outside, named'⟩ := attic.names_of_names (Index.mem_allBlockPaths.mp named)
      exact ok.known p named' span (attic.rows outside ▸ inBlock)
  · apply (keys k).mpr
    cases (live.readable k).mpr (.inl acked) with
    | inl inHot => exact .inl inHot
    | inr inCold =>
      obtain ⟨p, named, held⟩ := inCold
      have held : HasKey (rowsAt full.files p) k := held
      by_cases inside : InAttic p
      · -- what is in the attic is older than a cutoff
        obtain ⟨span, member, key⟩ := List.mem_map.mp held
        have before := attic.old p inside named span member
        exact absurd before (not_lt.mpr (recent span (ok.known p named span member) key))
      · exact .inr ⟨p, (attic.names inside).mp named, attic.rows inside ▸ held⟩

theorem SystemReachable.life {system : System} (reached : SystemReachable system) :
    LifeReachable (0, system) := by
  induction reached with
  | start begins => exact .start (congrArg (Prod.mk 0) begins)
  | next _ stepped inductionHypothesis => exact .next inductionHypothesis (.system stepped)

/-- A span, and one that starts two hours later. -/
def hoursApart : List NormalizedSpan :=
  [oneSpan, { oneSpan with spanId := "2", startUnixNano := 7200000000000 }]

/-- Both are flushed, each to the block of its hour, and retention drops the first block. -/
theorem query_recent_hoursApart : ∃ rows,
    query (sealedAndFlushed hoursApart).proc.hot
      (reclaimBefore 3600000000000 false (sealedAndFlushed hoursApart).disk.cold).1 none usizeMax =
        some rows ∧
    (sealedAndFlushed hoursApart).disk.cold.index.allBlockPaths.length = 2 ∧
    (reclaimBefore 3600000000000 false
      (sealedAndFlushed hoursApart).disk.cold).1.index.allBlockPaths.length = 1 ∧
    HasKey rows (spanKey { oneSpan with spanId := "2", startUnixNano := 7200000000000 }) := by
  have pending : (pushed hoursApart).pendingSegments 2 = [1] := by decide
  have flushed := SystemReachable.life (reachable_sealedAndFlushed hoursApart pending)
  have reached := Reachable.next flushed (.reclaim 3600000000000 rfl)
  obtain ⟨-, rows, read, -, -, shown⟩ := query_recent reached
  refine ⟨rows, read, by decide, by decide, shown _ ?_ ?_⟩
  · decide
  · decide

end Evald.Store
