import Evald.Store.LiveInvariant

/-! # Crash safety

The store through its lives: a crash between any two steps cuts every segment
somewhere at or after its last fsync and loses the rest of the process; `Store::open`
then deletes or replays the segments, sweeps the files the index does not name and
opens the next segment, and may itself crash at any point.  `SystemInvariant` holds
in every state of every such run, and `query_readable` says what a read shows.
-/

namespace Evald.Store

open Evald.Lib

/-- What is left of the store when no process runs, with what `Live` also records. -/
structure Remains where
  disk : Disk := {}
  appended : List NormalizedSpan := []
  fsynced : List NormalizedSpan := []
  flushedSurvivors : List NormalizedSpan := []

inductive System where
  | down (r : Remains)
  /-- Recovery: the segments still to look at, the hot tier and the highest seqno so far. -/
  | replaying (r : Remains) (watermark : Nat) (todo : List Nat) (hot : HotTier) (maxSeqno : Nat)
  /-- The orphan sweep: the files still to unlink. -/
  | sweeping (r : Remains) (todo : List BlockPath) (hot : HotTier) (maxSeqno : Nat)
  | live (s : Live)

/-- A crash leaves the first `kept n` records of segment `n`. -/
def Disk.crash (disk : Disk) (kept : Nat → Nat) : Disk :=
  { disk with
    segments := disk.segments.map
      (fun n file => { file with records := file.records.take (kept n) }) }

def Disk.listSegmentSeqnos (disk : Disk) : List Nat := disk.segments.keys

/-- The files under `blocks/` that the index does not reference. -/
def Disk.orphans (disk : Disk) : List BlockPath :=
  disk.cold.files.keys.filter (fun p => p ∉ disk.cold.index.allBlockPaths)

def Disk.removeFile (disk : Disk) (p : BlockPath) : Disk :=
  { disk with cold := { disk.cold with files := disk.cold.files.erase p } }

def Remains.crash (r : Remains) (kept : Nat → Nat) : Remains :=
  { r with disk := r.disk.crash kept }

def Live.remains (s : Live) : Remains :=
  { disk := s.disk
    appended := s.appended
    fsynced := s.fsynced
    flushedSurvivors := s.flushedSurvivors }

/-- `Wal::open` on the segment after the last, and the tasks are spawned. -/
def Remains.openWal (r : Remains) (hot : HotTier) (maxSeqno : Nat) : Live :=
  { disk := r.disk.openSegment (maxSeqno + 1)
    proc := { hot := hot, walActive := maxSeqno + 1, activeSeqno := maxSeqno + 1 }
    appended := r.appended
    fsynced := r.fsynced
    settled := r.fsynced
    flushedSurvivors := r.flushedSurvivors }

def System.remains : System → Remains
  | .down r => r
  | .replaying r .. => r
  | .sweeping r .. => r
  | .live s => s.remains

inductive SystemStep : System → System → Prop where
  | run {s s' : Live} (stepped : LiveStep s s') : SystemStep (.live s) (.live s')
  | crash (system : System) (kept : Nat → Nat)
      (durable : ∀ n, (system.remains.disk.fileOf n).synced ≤ kept n) :
      SystemStep system (.down (system.remains.crash kept))
  | openStore (r : Remains) :
      SystemStep (.down r)
        (.replaying r r.disk.watermark r.disk.listSegmentSeqnos ∅ r.disk.watermark)
  | deleteFlushed {r : Remains} {watermark seqno maxSeqno : Nat} {todo : List Nat}
      {hot : HotTier} (flushed : seqno ≤ watermark) :
      SystemStep (.replaying r watermark (seqno :: todo) hot maxSeqno)
        (.replaying { r with disk := r.disk.deleteSegment seqno } watermark todo hot maxSeqno)
  | replay {r : Remains} {watermark seqno maxSeqno : Nat} {todo : List Nat} {hot : HotTier}
      (above : watermark < seqno) :
      SystemStep (.replaying r watermark (seqno :: todo) hot maxSeqno)
        (.replaying r watermark todo (hot.loadSegment seqno (r.disk.recordsOf seqno))
          (max maxSeqno seqno))
  | listOrphans {r : Remains} {watermark maxSeqno : Nat} {hot : HotTier} :
      SystemStep (.replaying r watermark [] hot maxSeqno)
        (.sweeping r r.disk.orphans hot maxSeqno)
  | removeOrphan {r : Remains} {p : BlockPath} {todo : List BlockPath} {hot : HotTier}
      {maxSeqno : Nat} :
      SystemStep (.sweeping r (p :: todo) hot maxSeqno)
        (.sweeping { r with disk := r.disk.removeFile p } todo hot maxSeqno)
  | openWal {r : Remains} {hot : HotTier} {maxSeqno : Nat} :
      SystemStep (.sweeping r [] hot maxSeqno) (.live (r.openWal hot maxSeqno))

/-- Every run starts on an empty data directory. -/
abbrev SystemReachable : System → Prop := Reachable (fun system => system = .down {}) SystemStep

/-! ## What a crash leaves -/

theorem Disk.fileOf_crash (disk : Disk) (kept : Nat → Nat) (n : Nat) :
    (disk.crash kept).fileOf n =
      { records := (disk.recordsOf n).take (kept n), synced := (disk.fileOf n).synced } := by
  unfold recordsOf fileOf crash
  rw [Std.ExtTreeMap.getD_eq_getD_getElem?, Std.ExtTreeMap.getElem?_map,
    Std.ExtTreeMap.getD_eq_getD_getElem?]
  cases disk.segments[n]? with
  | none => simp
  | some file => rfl

/-- A crash takes no fsynced record. -/
theorem Disk.syncedOf_crash {disk : Disk} {kept : Nat → Nat}
    (durable : ∀ n, (disk.fileOf n).synced ≤ kept n) (n : Nat) :
    (disk.crash kept).syncedOf n = disk.syncedOf n := by
  rw [syncedOf, recordsOf, fileOf_crash]
  dsimp only
  rw [List.take_take, min_eq_left (durable n), syncedOf]

theorem Disk.fileOf_of_not_mem {disk : Disk} {n : Nat} (absent : n ∉ disk.segments) :
    disk.fileOf n = {} :=
  Std.ExtTreeMap.getD_eq_fallback absent

/-- The durable state: the fsynced spans are in cold or in the segments above the
watermark. -/
structure Recoverable (r : Remains) : Prop where
  cold : TraceInvariant r.disk.cold
  retired : ∀ n, n ≤ r.disk.watermark → ∀ k, HasKey (r.disk.recordsOf n) k → r.disk.cold.Holds k
  account : ∀ k, HasKey r.fsynced k ∨ HasKey r.flushedSurvivors k ↔
    r.disk.cold.Holds k ∨ ∃ n, r.disk.watermark < n ∧ HasKey (r.disk.syncedOf n) k
  known : ∀ n, ∀ s ∈ r.disk.recordsOf n, s ∈ r.appended
  knownFlushed : ∀ s ∈ r.flushedSurvivors, s ∈ r.appended

theorem Recoverable.crash {r : Remains} (recoverable : Recoverable r) {kept : Nat → Nat}
    (durable : ∀ n, (r.disk.fileOf n).synced ≤ kept n) : Recoverable (r.crash kept) := by
  have records : ∀ n, (r.crash kept).disk.recordsOf n = (r.disk.recordsOf n).take (kept n) := by
    intro n
    change ((r.disk.crash kept).fileOf n).records = _
    rw [Disk.fileOf_crash]
  refine ⟨recoverable.cold, ?_, ?_, ?_, recoverable.knownFlushed⟩
  · intro n low k held
    rw [records] at held
    exact recoverable.retired n low k ((List.take_sublist _ _).map spanKey |>.subset held)
  · intro k
    refine (recoverable.account k).trans (or_congr_right ?_)
    refine exists_congr (fun n => and_congr_right (fun _ => ?_))
    change _ ↔ HasKey ((r.disk.crash kept).syncedOf n) k
    rw [Disk.syncedOf_crash durable]
  · intro n s member
    rw [records] at member
    exact recoverable.known n s (List.mem_of_mem_take member)

/-! ## From a running store -/

/-- Everything on disk was appended by someone. -/
structure Known (s : Live) : Prop where
  records : ∀ n, ∀ span ∈ s.disk.recordsOf n, span ∈ s.appended
  flushed : ∀ span ∈ s.flushedSurvivors, span ∈ s.appended

theorem Known.step {s s' : Live} (known : Known s) (stepped : LiveStep s s') : Known s' := by
  -- a record is written with the spans of its batch, and the batch is known
  have appended : ∀ pending spans, Known (s.append pending spans) := by
    intro pending spans
    refine ⟨fun n span member => ?_, fun span member =>
      List.mem_append_left spans (known.flushed span member)⟩
    change span ∈ ((s.disk.setFile s.proc.walActive _).fileOf n).records at member
    rw [Disk.fileOf_setFile] at member
    split at member
    · exact (List.mem_append.mp member).elim
        (fun old => List.mem_append_left spans (known.records _ span old))
        (fun new => List.mem_append_right s.appended new)
    · exact List.mem_append_left spans (known.records n span member)
  cases stepped with
  | appendFirst spans pc => exact appended [] spans
  | appendNext spans pc => exact appended _ spans
  | sync pc =>
    refine ⟨fun n span member => ?_, known.flushed⟩
    change span ∈ ((s.disk.setFile s.proc.walActive _).fileOf n).records at member
    rw [Disk.fileOf_setFile] at member
    split at member
    · exact known.records _ span member
    · exact known.records n span member
  | push pc => exact ⟨known.records, known.flushed⟩
  | groupDone pc => exact ⟨known.records, known.flushed⟩
  | rotate pc =>
    refine ⟨fun n span member => ?_, known.flushed⟩
    change span ∈ ((s.disk.openSegment (s.proc.walActive + 1)).fileOf n).records at member
    rw [Disk.fileOf_openSegment] at member
    exact known.records n span member
  | publish pc => exact ⟨known.records, known.flushed⟩
  | loadActive pc => exact ⟨known.records, known.flushed⟩
  | listPending pc => exact ⟨known.records, known.flushed⟩
  | skipAbsent pc absent => exact ⟨known.records, known.flushed⟩
  | snapshot pc resident => exact ⟨known.records, known.flushed⟩
  | writeBlock priceTable now pc => exact ⟨known.records, known.flushed⟩
  | commit pc =>
    refine ⟨known.records, fun span member => ?_⟩
    exact (List.mem_append.mp member).elim (known.flushed span)
      (fun new => known.records _ span (List.mem_of_mem_drop new))
  | @deleteSegment seqno rest pc =>
    refine ⟨fun n span member => ?_, known.flushed⟩
    change span ∈ ((s.disk.deleteSegment seqno).fileOf n).records at member
    rw [Disk.fileOf_deleteSegment] at member
    split at member
    · cases member
    · exact known.records n span member
  | dropSegment pc => exact ⟨known.records, known.flushed⟩
  | passDone pc => exact ⟨known.records, known.flushed⟩

/-- The synced part of the active segment is what was pushed of it and what is about
to be. -/
theorem LiveInvariant.syncedOf_active {s : Live} (invariant : LiveInvariant s) :
    s.disk.syncedOf s.proc.walActive =
      s.proc.hot.spansOf s.proc.walActive ++ s.proc.writer.awaiting := by
  have mirrors := invariant.mirrors _ (invariant.above.trans_le invariant.published)
  have writerOk := invariant.writer
  rw [if_pos rfl] at mirrors
  rw [Disk.syncedOf]
  cases pc : s.proc.writer with
  | idle =>
    rw [pc] at mirrors writerOk
    rw [writerOk, List.take_length, mirrors]
    rfl
  | rotated =>
    rw [pc] at mirrors writerOk
    rw [writerOk, List.take_length, mirrors]
    rfl
  | appending pending =>
    rw [pc] at mirrors writerOk
    rw [writerOk.2, mirrors, List.take_left]
    exact (List.append_nil _).symm
  | pushing pending =>
    rw [pc] at mirrors writerOk
    rw [writerOk.2, List.take_length, mirrors]
    rfl

theorem LiveInvariant.recoverable {s : Live} (invariant : LiveInvariant s) (known : Known s) :
    Recoverable s.remains := by
  have active : s.disk.watermark < s.proc.walActive :=
    invariant.above.trans_le invariant.published
  refine ⟨invariant.cold, fun n low k held => invariant.retired n low k (.inr held), fun k => ?_,
    known.records, known.flushed⟩
  have unflushed : (∃ n, s.disk.watermark < n ∧ HasKey (s.disk.syncedOf n) k) ↔
      (∃ n, s.disk.watermark < n ∧ n ≠ s.proc.walActive ∧ HasKey (s.disk.syncedOf n) k) ∨
        HasKey (s.proc.hot.spansOf s.proc.walActive) k ∨ HasKey s.proc.writer.awaiting k := by
    rw [← hasKey_append, ← invariant.syncedOf_active]
    constructor
    · rintro ⟨n, high, held⟩
      by_cases here : n = s.proc.walActive
      · exact .inr (here ▸ held)
      · exact .inl ⟨n, high, here, held⟩
    · rintro (⟨n, high, -, held⟩ | held)
      · exact ⟨n, high, held⟩
      · exact ⟨_, active, held⟩
  change HasKey s.fsynced k ∨ HasKey s.flushedSurvivors k ↔ s.disk.cold.Holds k ∨
    ∃ n, s.disk.watermark < n ∧ HasKey (s.disk.syncedOf n) k
  rw [invariant.fsynced, hasKey_append, or_right_comm, invariant.account, unflushed]
  simp only [or_assoc]

/-! ## Recovery -/

/-- Recovery in progress: the segments looked at so far are deleted or in the hot tier. -/
structure Replayed (r : Remains) (todo : List Nat) (hot : HotTier) (maxSeqno : Nat) : Prop where
  recoverable : Recoverable r
  distinct : todo.Nodup
  reaches : r.disk.watermark ≤ maxSeqno
  within : ∀ n ∈ r.disk.segments, n ∈ todo ∨ n ≤ maxSeqno
  resident : ∀ n, r.disk.watermark < n → n ∉ todo → hot.spansOf n = r.disk.recordsOf n
  unread : ∀ n, n ≤ r.disk.watermark ∨ n ∈ todo → hot.spansOf n = []

theorem replayed_open {r : Remains} (recoverable : Recoverable r) :
    Replayed r r.disk.listSegmentSeqnos ∅ r.disk.watermark where
  recoverable := recoverable
  distinct := Std.ExtTreeMap.nodup_keys
  reaches := le_rfl
  within := fun _ member => .inl (Std.ExtTreeMap.mem_keys.mpr member)
  resident := fun n _ absent => by
    rw [Disk.recordsOf, Disk.fileOf_of_not_mem (fun member =>
      absent (Std.ExtTreeMap.mem_keys.mpr member)), HotTier.spansOf_empty]
  unread := fun n _ => HotTier.spansOf_empty n

theorem Recoverable.deleteFlushed {r : Remains} (recoverable : Recoverable r) {seqno : Nat}
    (flushed : seqno ≤ r.disk.watermark) :
    Recoverable { r with disk := r.disk.deleteSegment seqno } := by
  have files : ∀ n, (r.disk.deleteSegment seqno).fileOf n =
      if seqno = n then {} else r.disk.fileOf n := fun n => Disk.fileOf_deleteSegment _ _ _
  have fewer : ∀ n, ∀ s ∈ (r.disk.deleteSegment seqno).recordsOf n, s ∈ r.disk.recordsOf n := by
    intro n s member
    rw [Disk.recordsOf, files] at member
    split at member
    · cases member
    · exact member
  refine ⟨recoverable.cold, ?_, ?_, ?_, recoverable.knownFlushed⟩
  · intro n low k held
    obtain ⟨s, member, rfl⟩ := List.mem_map.mp held
    exact recoverable.retired n low _ (List.mem_map_of_mem (fewer n s member))
  · intro k
    refine (recoverable.account k).trans (or_congr_right ?_)
    refine exists_congr (fun n => and_congr_right (fun high => ?_))
    change _ ↔ HasKey ((r.disk.deleteSegment seqno).syncedOf n) k
    rw [Disk.syncedOf, Disk.syncedOf, Disk.recordsOf, Disk.recordsOf, files,
      if_neg (flushed.trans_lt high).ne]
  · exact fun n s member => recoverable.known n s (fewer n s member)

theorem Replayed.deleteFlushed {r : Remains} {seqno maxSeqno : Nat} {todo : List Nat}
    {hot : HotTier} (replayed : Replayed r (seqno :: todo) hot maxSeqno)
    (flushed : seqno ≤ r.disk.watermark) :
    Replayed { r with disk := r.disk.deleteSegment seqno } todo hot maxSeqno where
  recoverable := replayed.recoverable.deleteFlushed flushed
  distinct := (List.nodup_cons.mp replayed.distinct).2
  reaches := replayed.reaches
  within := fun n member => by
    change n ∈ r.disk.segments.erase seqno at member
    rw [Std.ExtTreeMap.mem_erase] at member
    rcases replayed.within n member.2 with listed | low
    · rcases List.mem_cons.mp listed with rfl | later
      · exact absurd (Std.LawfulEqOrd.compare_eq_iff_eq.mpr rfl) member.1
      · exact .inl later
    · exact .inr low
  resident := fun n high unlisted => by
    have above : r.disk.watermark < n := high
    have other : seqno ≠ n := (flushed.trans_lt above).ne
    change _ = ((r.disk.deleteSegment seqno).fileOf n).records
    rw [Disk.fileOf_deleteSegment, if_neg other]
    exact replayed.resident n high (fun listed =>
      (List.mem_cons.mp listed).elim (fun same => other same.symm) unlisted)
  unread := fun n options => replayed.unread n (options.imp_right (List.mem_cons_of_mem seqno))

theorem Replayed.replay {r : Remains} {seqno maxSeqno : Nat} {todo : List Nat} {hot : HotTier}
    (replayed : Replayed r (seqno :: todo) hot maxSeqno) (above : r.disk.watermark < seqno) :
    Replayed r todo (hot.loadSegment seqno (r.disk.recordsOf seqno)) (max maxSeqno seqno) := by
  have fresh : hot.spansOf seqno = [] := replayed.unread seqno (.inr List.mem_cons_self)
  have hotOf : ∀ n, (hot.loadSegment seqno (r.disk.recordsOf seqno)).spansOf n =
      if seqno = n then r.disk.recordsOf seqno else hot.spansOf n :=
    fun n => HotTier.spansOf_loadSegment _ _ _ _ fresh
  obtain ⟨notLater, distinct⟩ := List.nodup_cons.mp replayed.distinct
  refine ⟨replayed.recoverable, distinct, replayed.reaches.trans (le_max_left _ _), ?_, ?_, ?_⟩
  · intro n member
    rcases replayed.within n member with listed | low
    · rcases List.mem_cons.mp listed with rfl | later
      · exact .inr (le_max_right _ _)
      · exact .inl later
    · exact .inr (low.trans (le_max_left _ _))
  · intro n high unlisted
    rw [hotOf]
    split
    · next same => rw [same]
    · next other =>
      exact replayed.resident n high (fun listed =>
        (List.mem_cons.mp listed).elim (fun same => other same.symm) unlisted)
  · intro n options
    rw [hotOf, if_neg]
    · exact replayed.unread n (options.imp_right (List.mem_cons_of_mem seqno))
    · rintro rfl
      exact options.elim (fun low => absurd above (not_lt.mpr low)) notLater

theorem Replayed.removeOrphan {r : Remains} {hot : HotTier} {maxSeqno : Nat} {p : BlockPath}
    (replayed : Replayed r [] hot maxSeqno) (orphan : ¬ r.disk.cold.index.Names p) :
    Replayed { r with disk := r.disk.removeFile p } [] hot maxSeqno := by
  have kept : ∀ q, r.disk.cold.index.Names q →
      (r.disk.cold.files.erase p)[q]? = r.disk.cold.files[q]? := by
    intro q named
    rw [Std.ExtTreeMap.getElem?_erase, if_neg]
    intro same
    rw [Std.LawfulEqOrd.compare_eq_iff_eq] at same
    exact orphan (same ▸ named)
  have holds := ColdState.holds_refile kept
  have recoverable := replayed.recoverable
  refine ⟨⟨recoverable.cold.refile rfl kept, ?_, ?_, recoverable.known, recoverable.knownFlushed⟩,
    replayed.distinct, replayed.reaches, replayed.within, replayed.resident, replayed.unread⟩
  · intro n low k held
    exact (holds k).mpr (recoverable.retired n low k held)
  · intro k
    exact (recoverable.account k).trans (or_congr_left (holds k).symm)

theorem Replayed.openWal {r : Remains} {hot : HotTier} {maxSeqno : Nat}
    (replayed : Replayed r [] hot maxSeqno) :
    LiveInvariant (r.openWal hot maxSeqno) ∧ Known (r.openWal hot maxSeqno) := by
  have recoverable := replayed.recoverable
  have files : ∀ n, (r.openWal hot maxSeqno).disk.fileOf n = r.disk.fileOf n :=
    fun n => Disk.fileOf_openSegment _ _ _
  have records : ∀ n, (r.openWal hot maxSeqno).disk.recordsOf n = r.disk.recordsOf n :=
    fun n => congrArg WalFile.records (files n)
  -- no file lies above the greatest number that was read
  have absent : ∀ n, maxSeqno < n → r.disk.fileOf n = {} := by
    intro n beyond
    refine Disk.fileOf_of_not_mem (fun member => ?_)
    rcases replayed.within n member with listed | low
    · cases listed
    · exact absurd beyond (not_lt.mpr low)
  have empty : ∀ n, maxSeqno < n → hot.spansOf n = [] := by
    intro n beyond
    rw [replayed.resident n (replayed.reaches.trans_lt beyond) List.not_mem_nil, Disk.recordsOf,
      absent n beyond]
  refine ⟨⟨recoverable.cold, Nat.lt_succ_of_le replayed.reaches, le_rfl, ?_, ?_, ?_, ?_, trivial,
    (List.append_nil _).symm, ?_⟩, ⟨?_, recoverable.knownFlushed⟩⟩
  · intro n far
    have beyond : maxSeqno < n := Nat.lt_of_succ_lt far
    exact ⟨empty n beyond, (files n).trans (absent n beyond)⟩
  · intro n high
    rw [records, ← replayed.resident n high List.not_mem_nil]
    change hot.spansOf n = hot.spansOf n ++ (if _ then [] else [])
    rw [ite_self, List.append_nil]
  · intro n low k held
    rcases held with inHot | inFile
    · have none : hot.spansOf n = [] := replayed.unread n (.inl low)
      change HasKey (hot.spansOf n) k at inHot
      rw [none] at inHot
      exact absurd inHot not_hasKey_nil
    · rw [records] at inFile
      exact recoverable.retired n low k inFile
  · change ((r.openWal hot maxSeqno).disk.fileOf (maxSeqno + 1)).synced =
      ((r.openWal hot maxSeqno).disk.fileOf (maxSeqno + 1)).records.length
    rw [files, absent _ (Nat.lt_succ_self maxSeqno)]
    rfl
  · intro k
    refine (recoverable.account k).trans (or_congr_right ?_)
    have synced : ∀ n, (r.openWal hot maxSeqno).disk.syncedOf n = r.disk.syncedOf n := by
      intro n
      rw [Disk.syncedOf, Disk.syncedOf, records, files]
    -- the segment that is opened is new, in memory and on disk
    have activeHot : ¬ HasKey (hot.spansOf (maxSeqno + 1)) k := by
      rw [empty _ (Nat.lt_succ_self maxSeqno)]
      exact not_hasKey_nil
    have activeFile : ¬ HasKey (r.disk.syncedOf (maxSeqno + 1)) k := by
      rw [Disk.syncedOf, Disk.recordsOf, absent _ (Nat.lt_succ_self maxSeqno)]
      exact not_hasKey_nil
    change _ ↔ (∃ n, r.disk.watermark < n ∧ n ≠ maxSeqno + 1 ∧
      HasKey ((r.openWal hot maxSeqno).disk.syncedOf n) k) ∨ HasKey (hot.spansOf (maxSeqno + 1)) k
    rw [or_iff_left activeHot]
    simp only [synced]
    constructor
    · rintro ⟨n, high, held⟩
      refine ⟨n, high, ?_, held⟩
      rintro rfl
      exact activeFile held
    · rintro ⟨n, high, -, held⟩
      exact ⟨n, high, held⟩
  · intro n s member
    rw [records] at member
    exact recoverable.known n s member

/-! ## Every run -/

def SystemInvariant : System → Prop
  | .down r => Recoverable r
  | .replaying r watermark todo hot maxSeqno =>
    watermark = r.disk.watermark ∧ Replayed r todo hot maxSeqno
  | .sweeping r todo hot maxSeqno =>
    (∀ p ∈ todo, ¬ r.disk.cold.index.Names p) ∧ Replayed r [] hot maxSeqno
  | .live s => LiveInvariant s ∧ Known s

theorem SystemInvariant.recoverable {system : System} (invariant : SystemInvariant system) :
    Recoverable system.remains := by
  cases system with
  | down r => exact invariant
  | replaying r watermark todo hot maxSeqno => exact invariant.2.recoverable
  | sweeping r todo hot maxSeqno => exact invariant.2.recoverable
  | live s => exact invariant.1.recoverable invariant.2

theorem SystemInvariant.step {system system' : System} (invariant : SystemInvariant system)
    (stepped : SystemStep system system') : SystemInvariant system' := by
  cases stepped with
  | run stepped => exact ⟨invariant.1.step stepped, invariant.2.step stepped⟩
  | crash _ kept durable => exact invariant.recoverable.crash durable
  | openStore r => exact ⟨rfl, replayed_open invariant⟩
  | deleteFlushed flushed =>
    obtain ⟨rfl, replayed⟩ := invariant
    exact ⟨rfl, replayed.deleteFlushed flushed⟩
  | replay above =>
    obtain ⟨rfl, replayed⟩ := invariant
    exact ⟨rfl, replayed.replay above⟩
  | listOrphans =>
    refine ⟨fun p listed => ?_, invariant.2⟩
    have unlisted := of_decide_eq_true (List.mem_filter.mp listed).2
    rwa [Index.mem_allBlockPaths] at unlisted
  | removeOrphan =>
    obtain ⟨orphan, orphans⟩ := List.forall_mem_cons.mp invariant.1
    exact ⟨orphans, invariant.2.removeOrphan orphan⟩
  | openWal => exact invariant.2.openWal

theorem recoverable_empty : Recoverable {} where
  cold := traceInvariant_empty
  retired := fun n _ k held => by
    rw [Disk.recordsOf, Disk.fileOf_of_not_mem Std.ExtTreeMap.not_mem_empty] at held
    exact absurd held not_hasKey_nil
  account := fun k => by
    constructor
    · rintro (held | held)
      · exact absurd held not_hasKey_nil
      · exact absurd held not_hasKey_nil
    · rintro (⟨p, named, -⟩ | ⟨n, -, held⟩)
      · exact absurd named (Index.names_empty p)
      · rw [Disk.syncedOf, Disk.recordsOf, Disk.fileOf_of_not_mem Std.ExtTreeMap.not_mem_empty]
          at held
        exact absurd held not_hasKey_nil
  known := fun n s member => by
    rw [Disk.recordsOf, Disk.fileOf_of_not_mem Std.ExtTreeMap.not_mem_empty] at member
    cases member
  knownFlushed := fun s member => by cases member

theorem SystemReachable.invariant {system : System} (reached : SystemReachable system) :
    SystemInvariant system :=
  Reachable.invariant (fun _ begins => begins ▸ recoverable_empty)
    (fun _ _ kept stepped => kept.step stepped) reached

/-! ## What a read shows -/

/-- The span was written, a crash came before its fsync completed, and recovery found it
in its segment. -/
def Live.Survived (s : Live) (k : SpanKey) : Prop :=
  HasKey s.flushedSurvivors k ∨
    ∃ n, s.disk.watermark < n ∧ n ≠ s.proc.walActive ∧ HasKey (s.disk.unsyncedOf n) k

theorem LiveInvariant.readable {s : Live} (invariant : LiveInvariant s) (k : SpanKey) :
    HasKey s.proc.hot.allSpans k ∨ s.disk.cold.Holds k ↔ HasKey s.settled k ∨ s.Survived k := by
  have active : s.disk.watermark < s.proc.walActive :=
    invariant.above.trans_le invariant.published
  have sealed : ∀ n, s.disk.watermark < n → n ≠ s.proc.walActive →
      (HasKey (s.proc.hot.spansOf n) k ↔
        HasKey (s.disk.syncedOf n) k ∨ HasKey (s.disk.unsyncedOf n) k) := by
    intro n high other
    have mirrors := invariant.mirrors n high
    rw [if_neg other, List.append_nil] at mirrors
    rw [← mirrors, Disk.recordsOf_eq_append, hasKey_append]
  have inHot : HasKey s.proc.hot.allSpans k ↔ ∃ n, HasKey (s.proc.hot.spansOf n) k :=
    HotTier.mem_keys_allSpans
  rw [Live.Survived, ← or_assoc, invariant.account, inHot]
  constructor
  · rintro (⟨n, held⟩ | held)
    · rcases le_or_gt n s.disk.watermark with low | high
      · exact .inl (.inl (invariant.retired n low k (.inl held)))
      · by_cases here : n = s.proc.walActive
        · exact .inl (.inr (.inr (here ▸ held)))
        · rcases (sealed n high here).mp held with synced | unsynced
          · exact .inl (.inr (.inl ⟨n, high, here, synced⟩))
          · exact .inr ⟨n, high, here, unsynced⟩
    · exact .inl (.inl held)
  · rintro ((held | ⟨n, high, other, held⟩ | held) | ⟨n, high, other, held⟩)
    · exact .inr held
    · exact .inl ⟨n, (sealed n high other).mpr (.inl held)⟩
    · exact .inl ⟨_, held⟩
    · exact .inl ⟨n, (sealed n high other).mpr (.inr held)⟩

/-- In every open store any run gets to, crashes and recoveries included, a read of
everything succeeds and shows each key once.  It shows what was pushed, which is every
fsynced span but those of the group the writer is about to push, and beyond that only
spans that were written and that recovery found behind the last fsync. -/
theorem query_readable {s : Live} (reached : SystemReachable (.live s)) :
    s.fsynced = s.settled ++ s.proc.writer.awaiting ∧
    (∀ k, s.Survived k → HasKey s.appended k) ∧
    ∃ spans, query s.proc.hot s.disk.cold none usizeMax = some spans ∧
      (spans.map spanKey).Nodup ∧
      ∀ k, k ∈ spans.map spanKey ↔ HasKey s.settled k ∨ s.Survived k := by
  obtain ⟨invariant, known⟩ := SystemReachable.invariant reached
  refine ⟨invariant.fsynced, fun k survived => ?_, ?_⟩
  · rcases survived with flushed | ⟨n, -, -, unsynced⟩
    · exact List.map_subset spanKey known.flushed flushed
    · obtain ⟨span, member, rfl⟩ := List.mem_map.mp unsynced
      exact List.mem_map_of_mem (known.records n span (List.mem_of_mem_drop member))
  · obtain ⟨spans, read, once, keys⟩ := query_everything s.proc.hot
      (fun p named => invariant.cold.stored p named)
    exact ⟨spans, read, once, fun k => (keys k).trans (invariant.readable k)⟩

def oneSpan : NormalizedSpan := { traceId := "a", spanId := "1", startUnixNano := 0 }

/-- A fresh store whose first group is written and not fsynced. -/
def written : Live := (Remains.openWal {} ∅ 0).append [] [oneSpan]

/-- The same group, fsynced and not pushed. -/
def committed : Live := written.sync [(1, [oneSpan])]

/-- The store that recovers what a crash right after the write left. -/
def recovered : Live :=
  (written.remains.crash (fun _ => 1)).openWal (HotTier.loadSegment ∅ 1 [oneSpan]) 1

theorem reachable_fresh : SystemReachable (.live (Remains.openWal {} ∅ 0)) := by
  have opened : SystemReachable (.replaying {} 0 [] ∅ 0) := by
    have empty : SystemReachable (.down {}) := .start rfl
    have begun := Reachable.next empty (SystemStep.openStore {})
    have noSegment : ({} : Remains).disk.listSegmentSeqnos = [] := by decide
    rw [noSegment] at begun
    exact begun
  have listed : SystemReachable (.sweeping {} [] ∅ 0) := by
    have begun := Reachable.next opened .listOrphans
    have noFile : ({} : Remains).disk.orphans = [] := by decide
    rw [noFile] at begun
    exact begun
  exact .next listed .openWal

theorem reachable_written : SystemReachable (.live written) :=
  .next reachable_fresh (.run (.appendFirst [oneSpan] rfl))

theorem reachable_committed : SystemReachable (.live committed) :=
  .next reachable_written (.run (.sync rfl))

theorem fileOf_written (n : Nat) :
    written.disk.fileOf n = if 1 = n then { records := [oneSpan] } else {} := by
  have fresh : ∀ n, (Remains.openWal {} ∅ 0).disk.fileOf n = {} := by
    intro n
    change (({} : Disk).openSegment 1).fileOf n = {}
    rw [Disk.fileOf_openSegment, Disk.fileOf_of_not_mem Std.ExtTreeMap.not_mem_empty]
  change ((Remains.openWal {} ∅ 0).disk.setFile 1 _).fileOf n = _
  rw [Disk.fileOf_setFile, fresh]
  split
  · change WalFile.mk (((Remains.openWal {} ∅ 0).disk.fileOf 1).records ++ [oneSpan])
      ((Remains.openWal {} ∅ 0).disk.fileOf 1).synced = _
    rw [fresh]
    rfl
  · exact fresh n

theorem reachable_recovered : SystemReachable (.live recovered) := by
  have nothingSynced : ∀ n, (written.disk.fileOf n).synced ≤ 1 := by
    intro n
    rw [fileOf_written]
    split <;> exact Nat.zero_le 1
  have down : SystemReachable (.down (written.remains.crash (fun _ => 1))) :=
    .next reachable_written (.crash _ _ nothingSynced)
  have opened : SystemReachable (.replaying (written.remains.crash (fun _ => 1)) 0 [1] ∅ 0) := by
    have begun := Reachable.next down (SystemStep.openStore _)
    have oneSegment : (written.remains.crash (fun _ => 1)).disk.listSegmentSeqnos = [1] := by
      decide
    rw [oneSegment] at begun
    exact begun
  have replayed : SystemReachable (.replaying (written.remains.crash (fun _ => 1)) 0 []
      (HotTier.loadSegment ∅ 1 [oneSpan]) 1) := by
    have read := Reachable.next opened (.replay (by decide))
    have record : (written.remains.crash (fun _ => 1)).disk.recordsOf 1 = [oneSpan] := by
      change ((written.disk.crash (fun _ => 1)).fileOf 1).records = _
      rw [Disk.fileOf_crash, Disk.recordsOf, fileOf_written]
      rfl
    rw [record] at read
    exact read
  have swept : SystemReachable (.sweeping (written.remains.crash (fun _ => 1)) []
      (HotTier.loadSegment ∅ 1 [oneSpan]) 1) := by
    have listed := Reachable.next replayed .listOrphans
    have noFile : (written.remains.crash (fun _ => 1)).disk.orphans = [] := by decide
    rw [noFile] at listed
    exact listed
  exact .next swept .openWal

theorem query_readable_recovered :
    recovered.fsynced = recovered.settled ++ recovered.proc.writer.awaiting ∧
    (∀ k, recovered.Survived k → HasKey recovered.appended k) ∧
    ∃ spans, query recovered.proc.hot recovered.disk.cold none usizeMax = some spans ∧
      (spans.map spanKey).Nodup ∧
      ∀ k, k ∈ spans.map spanKey ↔ HasKey recovered.settled k ∨ recovered.Survived k :=
  query_readable reachable_recovered

/-- Neither direction of "exactly the fsynced keys" holds in every reachable state: a
crash may spare a span before its fsync, and a fsynced span is not readable until it is
pushed. -/
theorem query_not_exactly_fsynced :
    (∃ s spans k, SystemReachable (.live s) ∧ query s.proc.hot s.disk.cold none usizeMax =
      some spans ∧ k ∈ spans.map spanKey ∧ ¬ HasKey s.fsynced k) ∧
    ∃ s spans k, SystemReachable (.live s) ∧ query s.proc.hot s.disk.cold none usizeMax =
      some spans ∧ k ∉ spans.map spanKey ∧ HasKey s.fsynced k := by
  have readRecovered : (query recovered.proc.hot recovered.disk.cold none usizeMax).map
      (List.map spanKey) = some [spanKey oneSpan] := by decide
  have readCommitted : (query committed.proc.hot committed.disk.cold none usizeMax).map
      (List.map spanKey) = some [] := by decide
  obtain ⟨shown, read, keys⟩ := Option.map_eq_some_iff.mp readRecovered
  obtain ⟨nothing, readNone, noKeys⟩ := Option.map_eq_some_iff.mp readCommitted
  refine ⟨⟨recovered, shown, spanKey oneSpan, reachable_recovered, read, ?_, ?_⟩,
    ⟨committed, nothing, spanKey oneSpan, reachable_committed, readNone, ?_, ?_⟩⟩
  · rw [keys]
    exact List.mem_singleton_self _
  · exact not_hasKey_nil
  · rw [noKeys]
    exact List.not_mem_nil
  · exact List.mem_singleton_self _

end Evald.Store
