import Evald.Store.Live

/-! # The invariant of the running store

A segment above the watermark has the same records on disk and in the hot tier,
but for the writer's group in flight; a segment at or below it is in the cold tier;
and the cold tier and the hot tier together hold what was pushed, plus what a
recovery had found beyond the last fsync.  One lemma for each step says that it is
kept.
-/

namespace Evald.Store

open Evald.Lib

/-- The key of one of the spans. -/
abbrev HasKey (spans : List NormalizedSpan) (k : SpanKey) : Prop := k ∈ spans.map spanKey

theorem hasKey_append {xs ys : List NormalizedSpan} {k : SpanKey} :
    HasKey (xs ++ ys) k ↔ HasKey xs k ∨ HasKey ys k := by
  simp only [HasKey, List.map_append, List.mem_append]

theorem not_hasKey_nil {k : SpanKey} : ¬ HasKey [] k := List.not_mem_nil

/-- The segments a pass still has to flush: in order, sealed, above the watermark, with
nothing resident in between. -/
structure PendingOk (s : Live) (pending : List Nat) : Prop where
  ordered : pending.Pairwise (· < ·)
  between : ∀ m ∈ pending, s.disk.watermark < m ∧ m < s.proc.activeSeqno
  gaps : ∀ n m, s.disk.watermark < n → m ∈ pending → n < m →
    n ∈ pending ∨ s.proc.hot.spansOf n = []

def CompactorOk (s : Live) : Compactor → Prop
  | .idle => True
  | .loaded active => active ≤ s.proc.activeSeqno
  | .listed pending => PendingOk s pending
  | .flushing seqno written todo rest =>
    PendingOk s (seqno :: rest) ∧ ∃ spans, s.proc.hot.segment seqno = some spans ∧
      written ++ todo = flushPlan seqno spans ∧ Written s.disk.cold.files written
  | .committed seqno rest => seqno ≤ s.disk.watermark ∧ PendingOk s rest
  | .deleted seqno rest => seqno ≤ s.disk.watermark ∧ PendingOk s rest

/-- How far the active segment is synced, and where the group in flight landed. -/
def WriterOk (s : Live) : Writer → Prop
  | .idle => (s.disk.fileOf s.proc.walActive).synced = (s.disk.recordsOf s.proc.walActive).length
  | .rotated =>
    (s.disk.fileOf s.proc.walActive).synced = (s.disk.recordsOf s.proc.walActive).length
  | .appending pending => (∀ e ∈ pending, e.1 = s.proc.walActive) ∧
    (s.disk.fileOf s.proc.walActive).synced = (s.proc.hot.spansOf s.proc.walActive).length
  | .pushing pending => (∀ e ∈ pending, e.1 = s.proc.walActive) ∧
    (s.disk.fileOf s.proc.walActive).synced = (s.disk.recordsOf s.proc.walActive).length

structure LiveInvariant (s : Live) : Prop where
  cold : TraceInvariant s.disk.cold
  above : s.disk.watermark < s.proc.activeSeqno
  published : s.proc.activeSeqno ≤ s.proc.walActive
  beyond : ∀ n, s.proc.walActive < n → s.proc.hot.spansOf n = [] ∧ s.disk.fileOf n = {}
  mirrors : ∀ n, s.disk.watermark < n → s.disk.recordsOf n =
    s.proc.hot.spansOf n ++ (if n = s.proc.walActive then s.proc.writer.inFlight else [])
  retired : ∀ n, n ≤ s.disk.watermark → ∀ k,
    HasKey (s.proc.hot.spansOf n) k ∨ HasKey (s.disk.recordsOf n) k → s.disk.cold.Holds k
  writer : WriterOk s s.proc.writer
  compactor : CompactorOk s s.proc.compactor
  fsynced : s.fsynced = s.settled ++ s.proc.writer.awaiting
  account : ∀ k, HasKey s.settled k ∨ HasKey s.flushedSurvivors k ↔
    s.disk.cold.Holds k ∨
      (∃ n, s.disk.watermark < n ∧ n ≠ s.proc.walActive ∧ HasKey (s.disk.syncedOf n) k) ∨
      HasKey (s.proc.hot.spansOf s.proc.walActive) k

/-! ## What the writer leaves alone -/

theorem PendingOk.frame {s s' : Live} {pending : List Nat} (ok : PendingOk s pending)
    (watermark : s'.disk.watermark = s.disk.watermark)
    (published : s.proc.activeSeqno ≤ s'.proc.activeSeqno)
    (resident : ∀ n, n < s.proc.activeSeqno →
      s'.proc.hot.spansOf n = s.proc.hot.spansOf n) : PendingOk s' pending where
  ordered := ok.ordered
  between := fun m member => by
    obtain ⟨low, high⟩ := ok.between m member
    exact ⟨watermark ▸ low, high.trans_le published⟩
  gaps := fun n m low member below => by
    rw [resident n (below.trans (ok.between m member).2)]
    exact ok.gaps n m (watermark ▸ low) member below

theorem CompactorOk.frame {s s' : Live} {pc : Compactor} (ok : CompactorOk s pc)
    (cold : s'.disk.cold = s.disk.cold) (published : s.proc.activeSeqno ≤ s'.proc.activeSeqno)
    (resident : ∀ n, n < s.proc.activeSeqno →
      s'.proc.hot.segment n = s.proc.hot.segment n) : CompactorOk s' pc := by
  have watermark : s'.disk.watermark = s.disk.watermark := by rw [Disk.watermark, cold]; rfl
  have spans : ∀ n, n < s.proc.activeSeqno →
      s'.proc.hot.spansOf n = s.proc.hot.spansOf n := by
    intro n below
    have same := resident n below
    cases found : s.proc.hot.segment n with
    | none =>
      rw [HotTier.spansOf_of_segment_none found,
        HotTier.spansOf_of_segment_none (same.trans found)]
    | some spans =>
      rw [HotTier.spansOf_of_segment found, HotTier.spansOf_of_segment (same.trans found)]
  cases pc with
  | idle => trivial
  | loaded active => exact le_trans ok published
  | listed pending => exact PendingOk.frame ok watermark published spans
  | flushing seqno written todo rest =>
    obtain ⟨pendingOk, spans', found, plan, onDisk⟩ := ok
    have below := (pendingOk.between seqno List.mem_cons_self).2
    refine ⟨pendingOk.frame watermark published spans, spans', (resident seqno below).trans found,
      plan, ?_⟩
    rw [cold]
    exact onDisk
  | committed seqno rest =>
    exact ⟨watermark ▸ ok.1, ok.2.frame watermark published spans⟩
  | deleted seqno rest =>
    exact ⟨watermark ▸ ok.1, ok.2.frame watermark published spans⟩

theorem WriterOk.frame {s s' : Live} {pc : Writer} (ok : WriterOk s pc)
    (active : s'.proc.walActive = s.proc.walActive)
    (file : s'.disk.fileOf s.proc.walActive = s.disk.fileOf s.proc.walActive)
    (resident : s'.proc.hot.spansOf s.proc.walActive = s.proc.hot.spansOf s.proc.walActive) :
    WriterOk s' pc := by
  cases pc with
  | idle =>
    simp only [WriterOk, Disk.recordsOf, active, file] at ok ⊢
    exact ok
  | rotated =>
    simp only [WriterOk, Disk.recordsOf, active, file] at ok ⊢
    exact ok
  | appending pending =>
    simp only [WriterOk, active, file, resident] at ok ⊢
    exact ok
  | pushing pending =>
    simp only [WriterOk, Disk.recordsOf, active, file] at ok ⊢
    exact ok

/-! ## Writer steps -/

theorem PendingAppends.spans_append (pending more : PendingAppends) :
    PendingAppends.spans (pending ++ more) = pending.spans ++ more.spans :=
  List.flatMap_append

theorem LiveInvariant.append {s : Live} (invariant : LiveInvariant s) {pending : PendingAppends}
    (inFlight : s.proc.writer.inFlight = pending.spans) (awaiting : s.proc.writer.awaiting = [])
    (landed : ∀ e ∈ pending, e.1 = s.proc.walActive)
    (synced : (s.disk.fileOf s.proc.walActive).synced =
      (s.proc.hot.spansOf s.proc.walActive).length)
    (spans : List NormalizedSpan) : LiveInvariant (s.append pending spans) := by
  have low : s.disk.watermark < s.proc.walActive := invariant.above.trans_le invariant.published
  have files : ∀ n, (s.append pending spans).disk.fileOf n =
      if s.proc.walActive = n then
        { records := s.disk.recordsOf s.proc.walActive ++ spans
          synced := (s.disk.fileOf s.proc.walActive).synced }
      else s.disk.fileOf n := fun n => Disk.fileOf_setFile _ _ _ _
  have otherFile : ∀ n, n ≠ s.proc.walActive →
      (s.append pending spans).disk.fileOf n = s.disk.fileOf n :=
    fun n other => by rw [files, if_neg other.symm]
  refine ⟨invariant.cold, invariant.above, invariant.published, ?_, ?_, ?_, ?_, ?_, ?_, ?_⟩
  · intro n far
    obtain ⟨empty, file⟩ := invariant.beyond n far
    exact ⟨empty, (otherFile n (ne_of_gt far)).trans file⟩
  -- the active file holds what is resident and what is in flight, the new spans last
  · intro n high
    rw [Disk.recordsOf, files]
    by_cases here : s.proc.walActive = n
    · subst here
      rw [if_pos rfl]
      dsimp only
      rw [invariant.mirrors _ low, if_pos rfl, inFlight, List.append_assoc]
      change _ = _ ++ (if s.proc.walActive = s.proc.walActive then
        PendingAppends.spans (pending ++ [(s.proc.walActive, spans)]) else [])
      rw [if_pos rfl, PendingAppends.spans_append]
      simp [PendingAppends.spans, Live.append]
    · rw [if_neg here]
      have old := invariant.mirrors n high
      rw [if_neg (Ne.symm here)] at old
      change _ = _ ++ (if n = s.proc.walActive then _ else [])
      rw [if_neg (Ne.symm here)]
      exact old
  · intro n high k held
    refine invariant.retired n high k (held.imp_right fun inFile => ?_)
    have other : n ≠ s.proc.walActive := ne_of_lt (lt_of_le_of_lt high low)
    rwa [Disk.recordsOf, otherFile n other] at inFile
  · refine ⟨fun e member => ?_, ?_⟩
    · rcases List.mem_append.mp member with old | new
      · exact landed e old
      · rw [List.mem_singleton.mp new]
        rfl
    · change ((s.append pending spans).disk.fileOf s.proc.walActive).synced = _
      rw [files, if_pos rfl]
      exact synced
  · exact invariant.compactor.frame rfl le_rfl (fun _ _ => rfl)
  · have old := invariant.fsynced
    rw [awaiting] at old
    exact old
  · intro k
    refine (invariant.account k).trans (or_congr_right (or_congr_left ?_))
    refine exists_congr (fun n => and_congr_right (fun _ => and_congr_right (fun other => ?_)))
    rw [Disk.syncedOf, Disk.syncedOf, Disk.recordsOf, Disk.recordsOf, otherFile n other]

theorem LiveInvariant.sync {s : Live} (invariant : LiveInvariant s) {pending : PendingAppends}
    (pc : s.proc.writer = .appending pending) : LiveInvariant (s.sync pending) := by
  have low : s.disk.watermark < s.proc.walActive := invariant.above.trans_le invariant.published
  have files : ∀ n, (s.sync pending).disk.fileOf n =
      if s.proc.walActive = n then
        { records := s.disk.recordsOf s.proc.walActive
          synced := (s.disk.recordsOf s.proc.walActive).length }
      else s.disk.fileOf n := fun n => Disk.fileOf_setFile _ _ _ _
  -- a sync changes no record, only how many of them are durable
  have records : ∀ n, (s.sync pending).disk.recordsOf n = s.disk.recordsOf n := by
    intro n
    rw [Disk.recordsOf, files]
    split
    · next here => rw [← here]
    · rfl
  have writerOk := invariant.writer
  rw [pc] at writerOk
  refine ⟨invariant.cold, invariant.above, invariant.published, ?_, ?_, ?_, ?_, ?_, ?_, ?_⟩
  · intro n far
    have beyond : s.proc.walActive < n := far
    obtain ⟨empty, file⟩ := invariant.beyond n beyond
    exact ⟨empty, by rw [files, if_neg beyond.ne]; exact file⟩
  · intro n high
    have old := invariant.mirrors n high
    rw [pc] at old
    rw [records]
    exact old
  · intro n high k held
    rw [records] at held
    exact invariant.retired n high k held
  · refine ⟨writerOk.1, ?_⟩
    rw [records]
    change ((s.sync pending).disk.fileOf s.proc.walActive).synced = _
    rw [files, if_pos rfl]
    rfl
  · exact invariant.compactor.frame rfl le_rfl (fun _ _ => rfl)
  · change s.fsynced ++ pending.spans = _
    rw [invariant.fsynced, pc]
    simp [Live.sync, Writer.awaiting]
  · intro k
    refine (invariant.account k).trans (or_congr_right (or_congr_left ?_))
    refine exists_congr (fun n => and_congr_right (fun _ => and_congr_right (fun other => ?_)))
    rw [Disk.syncedOf, Disk.syncedOf, records, files, if_neg other.symm]

theorem LiveInvariant.push {s : Live} (invariant : LiveInvariant s) {seqno : Nat}
    {spans : List NormalizedSpan} {pending : PendingAppends}
    (pc : s.proc.writer = .pushing ((seqno, spans) :: pending)) :
    LiveInvariant (s.push seqno spans pending) := by
  have low : s.disk.watermark < s.proc.walActive := invariant.above.trans_le invariant.published
  have writerOk := invariant.writer
  rw [pc] at writerOk
  obtain ⟨landed, synced⟩ := writerOk
  -- what waits was written to the segment that is still the active one
  have here : seqno = s.proc.walActive := landed _ List.mem_cons_self
  subst here
  have hot : ∀ n, (s.push s.proc.walActive spans pending).proc.hot.spansOf n =
      if s.proc.walActive = n then s.proc.hot.spansOf n ++ spans else s.proc.hot.spansOf n :=
    fun n => HotTier.spansOf_push _ _ _ _
  refine ⟨invariant.cold, invariant.above, invariant.published, ?_, ?_, ?_, ?_, ?_, ?_, ?_⟩
  · intro n far
    have beyond : s.proc.walActive < n := far
    obtain ⟨empty, file⟩ := invariant.beyond n beyond
    exact ⟨by rw [hot, if_neg beyond.ne]; exact empty, file⟩
  · intro n high
    have old := invariant.mirrors n high
    rw [pc] at old
    rw [hot]
    by_cases active : n = s.proc.walActive
    · subst active
      rw [if_pos rfl] at old ⊢
      change s.disk.recordsOf s.proc.walActive = _ ++ (if s.proc.walActive = s.proc.walActive then
        PendingAppends.spans pending else [])
      rw [old, if_pos rfl, List.append_assoc]
      rfl
    · rw [if_neg active] at old
      rw [if_neg (Ne.symm active)]
      change _ = _ ++ (if n = s.proc.walActive then _ else [])
      rw [if_neg active]
      exact old
  · intro n high k held
    rw [hot, if_neg (ne_of_gt (lt_of_le_of_lt high low))] at held
    exact invariant.retired n high k held
  · exact ⟨fun e member => landed e (List.mem_cons_of_mem _ member), synced⟩
  · refine invariant.compactor.frame rfl le_rfl (fun n below => ?_)
    exact HotTier.segment_push_other spans (ne_of_gt (below.trans_le invariant.published))
  · have old := invariant.fsynced
    rw [pc] at old
    change s.fsynced = (s.settled ++ spans) ++ PendingAppends.spans pending
    rw [old, List.append_assoc]
    rfl
  · intro k
    have old := invariant.account k
    change HasKey (s.settled ++ spans) k ∨ HasKey s.flushedSurvivors k ↔ s.disk.cold.Holds k ∨
      (∃ n, s.disk.watermark < n ∧ n ≠ s.proc.walActive ∧ HasKey (s.disk.syncedOf n) k) ∨
      HasKey ((s.push s.proc.walActive spans pending).proc.hot.spansOf s.proc.walActive) k
    rw [hot, if_pos rfl, hasKey_append, hasKey_append, or_right_comm, old, or_assoc, or_assoc]

theorem LiveInvariant.groupDone {s : Live} (invariant : LiveInvariant s)
    (pc : s.proc.writer = .pushing []) :
    LiveInvariant { s with proc := { s.proc with writer := .idle } } := by
  have writerOk := invariant.writer
  have mirrors := invariant.mirrors
  have fsynced := invariant.fsynced
  rw [pc] at writerOk mirrors fsynced
  exact ⟨invariant.cold, invariant.above, invariant.published, invariant.beyond, mirrors,
    invariant.retired, writerOk.2, invariant.compactor.frame rfl le_rfl (fun _ _ => rfl), fsynced,
    invariant.account⟩

theorem LiveInvariant.rotate {s : Live} (invariant : LiveInvariant s)
    (pc : s.proc.writer = .idle) : LiveInvariant s.rotate := by
  have low : s.disk.watermark < s.proc.walActive := invariant.above.trans_le invariant.published
  have files : ∀ n, s.rotate.disk.fileOf n = s.disk.fileOf n :=
    fun n => Disk.fileOf_openSegment _ _ _
  obtain ⟨freshHot, freshFile⟩ := invariant.beyond _ (Nat.lt_succ_self s.proc.walActive)
  have freshRecords : s.disk.recordsOf (s.proc.walActive + 1) = [] := by
    rw [Disk.recordsOf, freshFile]
  have writerOk := invariant.writer
  have fsynced := invariant.fsynced
  rw [pc] at writerOk fsynced
  have mirrorsAll : ∀ n, s.disk.watermark < n →
      s.disk.recordsOf n = s.proc.hot.spansOf n := by
    intro n high
    have old := invariant.mirrors n high
    rw [pc] at old
    simpa [Writer.inFlight] using old
  have oldSynced : s.disk.syncedOf s.proc.walActive = s.proc.hot.spansOf s.proc.walActive := by
    rw [Disk.syncedOf, writerOk, List.take_length, mirrorsAll _ low]
  refine ⟨invariant.cold, invariant.above, invariant.published.trans (Nat.le_succ _), ?_, ?_, ?_,
    ?_, ?_, fsynced, ?_⟩
  · intro n far
    obtain ⟨empty, file⟩ := invariant.beyond n (Nat.lt_of_succ_lt far)
    exact ⟨empty, (files n).trans file⟩
  · intro n high
    rw [Disk.recordsOf, files]
    change s.disk.recordsOf n = s.proc.hot.spansOf n ++ (if _ then [] else [])
    rw [mirrorsAll n high]
    simp
  · intro n high k held
    rw [Disk.recordsOf, files] at held
    exact invariant.retired n high k held
  · change (s.rotate.disk.fileOf (s.proc.walActive + 1)).synced =
      (s.rotate.disk.fileOf (s.proc.walActive + 1)).records.length
    rw [files, freshFile]
    rfl
  · exact invariant.compactor.frame rfl le_rfl (fun _ _ => rfl)
  · intro k
    refine (invariant.account k).trans ?_
    -- the old active segment is now one of those that wait for a flush
    have sameSynced : ∀ n, s.rotate.disk.syncedOf n = s.disk.syncedOf n := by
      intro n
      rw [Disk.syncedOf, Disk.syncedOf, Disk.recordsOf, Disk.recordsOf, files]
    have fresh : ¬ HasKey (s.disk.syncedOf (s.proc.walActive + 1)) k := by
      rw [Disk.syncedOf, freshRecords, List.take_nil]
      exact not_hasKey_nil
    change _ ↔ _ ∨ (∃ n, s.disk.watermark < n ∧ n ≠ s.proc.walActive + 1 ∧
      HasKey (s.rotate.disk.syncedOf n) k) ∨ HasKey (s.proc.hot.spansOf (s.proc.walActive + 1)) k
    rw [freshHot]
    simp only [sameSynced]
    refine or_congr .rfl ?_
    constructor
    · rintro (⟨n, high, other, held⟩ | held)
      · refine .inl ⟨n, high, ?_, held⟩
        rintro rfl
        exact fresh held
      · exact .inl ⟨s.proc.walActive, low, by omega, oldSynced ▸ held⟩
    · rintro (⟨n, high, other, held⟩ | held)
      · by_cases active : n = s.proc.walActive
        · subst active
          exact .inr (oldSynced ▸ held)
        · exact .inl ⟨n, high, active, held⟩
      · exact absurd held not_hasKey_nil

theorem LiveInvariant.publish {s : Live} (invariant : LiveInvariant s)
    (pc : s.proc.writer = .rotated) : LiveInvariant s.publish := by
  have writerOk := invariant.writer
  have mirrors := invariant.mirrors
  have fsynced := invariant.fsynced
  rw [pc] at writerOk mirrors fsynced
  exact ⟨invariant.cold, invariant.above.trans_le invariant.published, le_rfl, invariant.beyond,
    mirrors, invariant.retired, writerOk,
    invariant.compactor.frame rfl invariant.published (fun _ _ => rfl), fsynced,
    invariant.account⟩

/-! ## Compactor steps -/

/-- A step that moves only the compactor's program counter. -/
theorem LiveInvariant.setCompactor {s : Live} (invariant : LiveInvariant s) {pc : Compactor}
    (ok : CompactorOk s pc) : LiveInvariant (s.setCompactor pc) :=
  { invariant with compactor := ok.frame rfl le_rfl (fun _ _ => rfl) }

theorem mem_pendingSegments {s : Live} {active n : Nat} :
    n ∈ s.pendingSegments active ↔ n ∈ s.proc.hot.segnos ∧ s.disk.watermark < n ∧ n < active := by
  simp [Live.pendingSegments]

theorem pendingOk_pendingSegments {s : Live} {active : Nat} (low : active ≤ s.proc.activeSeqno) :
    PendingOk s (s.pendingSegments active) where
  ordered := by
    have ordered : s.proc.hot.segnos.Pairwise (fun a b => compare a b = .lt) :=
      Std.ExtTreeMap.ordered_keys
    exact (ordered.imp (fun less => Nat.compare_eq_lt.mp less)).sublist List.filter_sublist
  between := fun m member => by
    obtain ⟨-, above, sealed⟩ := mem_pendingSegments.mp member
    exact ⟨above, sealed.trans_le low⟩
  gaps := fun n m above member below => by
    obtain ⟨-, -, sealed⟩ := mem_pendingSegments.mp member
    by_cases resident : n ∈ s.proc.hot.segnos
    · exact .inl (mem_pendingSegments.mpr ⟨resident, above, below.trans sealed⟩)
    · exact .inr (HotTier.spansOf_of_segment_none (HotTier.segment_none_of_not_mem_segnos resident))

theorem PendingOk.head_lt {s : Live} {seqno : Nat} {rest : List Nat}
    (ok : PendingOk s (seqno :: rest)) : ∀ m ∈ rest, seqno < m :=
  (List.pairwise_cons.mp ok.ordered).1

/-- A segment below the next one to flush holds nothing. -/
theorem PendingOk.empty_below {s : Live} {seqno n : Nat} {rest : List Nat}
    (ok : PendingOk s (seqno :: rest)) (above : s.disk.watermark < n) (below : n < seqno) :
    s.proc.hot.spansOf n = [] := by
  rcases ok.gaps n seqno above List.mem_cons_self below with listed | empty
  · rcases List.mem_cons.mp listed with rfl | later
    · exact absurd below (Nat.lt_irrefl n)
    · exact absurd (ok.head_lt n later) (Nat.lt_asymm below)
  · exact empty

theorem PendingOk.skip {s : Live} {seqno : Nat} {rest : List Nat}
    (ok : PendingOk s (seqno :: rest)) (empty : s.proc.hot.spansOf seqno = []) :
    PendingOk s rest where
  ordered := (List.pairwise_cons.mp ok.ordered).2
  between := fun m member => ok.between m (List.mem_cons_of_mem seqno member)
  gaps := fun n m above member below => by
    rcases ok.gaps n m above (List.mem_cons_of_mem seqno member) below with listed | none
    · rcases List.mem_cons.mp listed with rfl | later
      · exact .inr empty
      · exact .inl later
    · exact .inr none

/-- What is stored under the index does not change with a file it does not name. -/
theorem ColdState.holds_refile {cold : ColdState} {files : Files}
    (kept : ∀ p, cold.index.Names p → files[p]? = cold.files[p]?) (k : SpanKey) :
    ColdState.Holds { cold with files := files } k ↔ cold.Holds k := by
  refine exists_congr (fun p => and_congr_right (fun named => ?_))
  rw [rowsAt_eq_of_getElem? (kept p named)]

theorem LiveInvariant.writeBlock {s : Live} (invariant : LiveInvariant s) {seqno : Nat}
    {written todo : List (BlockPath × List NormalizedSpan)}
    {block : BlockPath × List NormalizedSpan} {rest : List Nat} (priceTable : String) (now : Nat)
    (pc : s.proc.compactor = .flushing seqno written (block :: todo) rest) :
    LiveInvariant
      ((s.setFiles (writePlanned priceTable now seqno s.disk.cold.files block)).setCompactor
        (.flushing seqno (written ++ [block]) todo rest)) := by
  have compactorOk := invariant.compactor
  rw [pc] at compactorOk
  obtain ⟨pending, spans, found, plan, onDisk⟩ := compactorOk
  have planned : ∀ b ∈ written ++ [block], b ∈ flushPlan seqno spans := by
    intro b member
    rw [← plan, List.append_cons]
    exact List.mem_append_left todo member
  -- the block is not indexed yet, so no row that is read changes
  have fresh : ¬ s.disk.cold.index.Names block.1 :=
    invariant.cold.flush_fresh (pending.between seqno List.mem_cons_self).1
      (planned block (by simp))
  have kept : ∀ p, s.disk.cold.index.Names p →
      (writePlanned priceTable now seqno s.disk.cold.files block)[p]? = s.disk.cold.files[p]? := by
    intro p named
    rw [writePlanned, getElem?_writeBlock, if_neg]
    rintro rfl
    exact fresh named
  have holds := ColdState.holds_refile kept
  have distinct : ((written ++ [block]).map Prod.fst).Nodup := by
    have paths := nodup_paths_flushPlan seqno spans
    rw [← plan, List.append_cons, List.map_append] at paths
    exact paths.of_append_left
  refine ⟨invariant.cold.refile rfl kept, invariant.above, invariant.published, invariant.beyond,
    invariant.mirrors, ?_, invariant.writer, ?_, invariant.fsynced, ?_⟩
  · intro n low k held
    exact (holds k).mpr (invariant.retired n low k held)
  · refine ⟨pending.frame rfl le_rfl (fun _ _ => rfl), spans, found, ?_, ?_⟩
    · rw [← plan, ← List.append_cons]
    · exact Written.next onDisk distinct priceTable now seqno
  · intro k
    exact (invariant.account k).trans (or_congr_left (holds k).symm)

/-- A flush adds the keys of its segment to what the index holds. -/
theorem holds_commitPlan {cold : ColdState} {seqno : Nat} {spans : List NormalizedSpan}
    (written : Written cold.files (flushPlan seqno spans)) (k : SpanKey) :
    ColdState.Holds
      { cold with
        index := cold.index.commitFlush seqno
          ((flushPlan seqno spans).map (fun b => blockMeta b.1 b.2)) } k ↔
      cold.Holds k ∨ HasKey spans k := by
  rw [HasKey, ← mem_keys_flushPlan seqno]
  have rowsOf : ∀ block ∈ flushPlan seqno spans, rowsAt cold.files block.1 = block.2 := by
    intro block member
    obtain ⟨file, found, rows⟩ := written block member
    rw [rowsAt, found]
    exact rows
  constructor
  · rintro ⟨p, named, held⟩
    rcases names_commitPlan.mp named with ⟨block, member, rfl⟩ | old
    · exact .inr ⟨block, member, rowsOf block member ▸ held⟩
    · exact .inl ⟨p, old, held⟩
  · rintro (⟨p, named, held⟩ | ⟨block, member, held⟩)
    · exact ⟨p, names_commitPlan.mpr (.inr named), held⟩
    · refine ⟨block.1, names_commitPlan.mpr (.inl ⟨block, member, rfl⟩), ?_⟩
      change k ∈ (rowsAt cold.files block.1).map spanKey
      rw [rowsOf block member]
      exact held

theorem LiveInvariant.commit {s : Live} (invariant : LiveInvariant s) {seqno : Nat}
    {written : List (BlockPath × List NormalizedSpan)} {rest : List Nat}
    (pc : s.proc.compactor = .flushing seqno written [] rest) :
    LiveInvariant ((s.commit seqno written).setCompactor (.committed seqno rest)) := by
  have compactorOk := invariant.compactor
  rw [pc] at compactorOk
  obtain ⟨pending, spans, found, plan, onDisk⟩ := compactorOk
  rw [List.append_nil] at plan
  subst plan
  obtain ⟨above, sealed⟩ := pending.between seqno List.mem_cons_self
  have notActive : ∀ n, n ≤ seqno → n ≠ s.proc.walActive :=
    fun n low => ((low.trans_lt sealed).trans_le invariant.published).ne
  have resident : s.proc.hot.spansOf seqno = spans := HotTier.spansOf_of_segment found
  -- between the two watermarks nothing is in flight
  have records : ∀ n, s.disk.watermark < n → n ≤ seqno →
      s.disk.recordsOf n = s.proc.hot.spansOf n := by
    intro n high low
    rw [invariant.mirrors n high, if_neg (notActive n low), List.append_nil]
  have holds := holds_commitPlan onDisk
  refine ⟨invariant.cold.commit above onDisk, sealed, invariant.published, invariant.beyond, ?_,
    ?_, invariant.writer, ?_, invariant.fsynced, ?_⟩
  · intro n high
    exact invariant.mirrors n (above.trans high)
  · intro n low k held
    refine (holds k).mpr ?_
    have within : n ≤ seqno := low
    rcases le_or_gt n s.disk.watermark with flushed | fresh
    · exact .inl (invariant.retired n flushed k held)
    · have here : HasKey (s.proc.hot.spansOf n) k := by
        rcases held with inHot | onDisk
        · exact inHot
        · rwa [← records n fresh within]
      rcases within.lt_or_eq with below | same
      · rw [pending.empty_below fresh below] at here
        exact absurd here not_hasKey_nil
      · rw [same, resident] at here
        exact .inr here
  · refine ⟨le_rfl, (List.pairwise_cons.mp pending.ordered).2, ?_, ?_⟩
    · intro m member
      exact ⟨pending.head_lt m member, (pending.between m (List.mem_cons_of_mem _ member)).2⟩
    · intro n m high member below
      have beyond : seqno < n := high
      rcases pending.gaps n m (above.trans beyond) (List.mem_cons_of_mem _ member) below with
        listed | empty
      · exact .inl ((List.mem_cons.mp listed).resolve_left beyond.ne')
      · exact .inr empty
  · intro k
    have split : HasKey spans k ↔
        HasKey (s.disk.syncedOf seqno) k ∨ HasKey (s.disk.unsyncedOf seqno) k := by
      rw [← resident, ← records seqno above le_rfl, Disk.recordsOf_eq_append, hasKey_append]
    -- of the segments that waited, this one goes and the ones below it are empty
    have unflushed : (∃ n, s.disk.watermark < n ∧ n ≠ s.proc.walActive ∧
          HasKey (s.disk.syncedOf n) k) ↔
        HasKey (s.disk.syncedOf seqno) k ∨
          ∃ n, seqno < n ∧ n ≠ s.proc.walActive ∧ HasKey (s.disk.syncedOf n) k := by
      constructor
      · rintro ⟨n, high, other, held⟩
        rcases lt_trichotomy n seqno with below | rfl | beyond
        · rw [Disk.syncedOf, records n high below.le, pending.empty_below high below,
            List.take_nil] at held
          exact absurd held not_hasKey_nil
        · exact .inl held
        · exact .inr ⟨n, beyond, other, held⟩
      · rintro (held | ⟨n, beyond, other, held⟩)
        · exact ⟨seqno, above, notActive seqno le_rfl, held⟩
        · exact ⟨n, above.trans beyond, other, held⟩
    change HasKey s.settled k ∨ HasKey (s.flushedSurvivors ++ s.disk.unsyncedOf seqno) k ↔
      ColdState.Holds _ k ∨ (∃ n, seqno < n ∧ n ≠ s.proc.walActive ∧
        HasKey (s.disk.syncedOf n) k) ∨ HasKey (s.proc.hot.spansOf s.proc.walActive) k
    rw [hasKey_append, ← or_assoc, invariant.account, unflushed]
    refine Iff.trans ?_ (or_congr_left (holds k).symm)
    rw [split]
    simp only [or_assoc, or_left_comm, or_comm]

theorem LiveInvariant.deleteSegment {s : Live} (invariant : LiveInvariant s) {seqno : Nat}
    {rest : List Nat} (pc : s.proc.compactor = .committed seqno rest) :
    LiveInvariant ((s.deleteSegment seqno).setCompactor (.deleted seqno rest)) := by
  have compactorOk := invariant.compactor
  rw [pc] at compactorOk
  obtain ⟨flushed, pending⟩ := compactorOk
  have files : ∀ n, (s.deleteSegment seqno).disk.fileOf n =
      if seqno = n then {} else s.disk.fileOf n := fun n => Disk.fileOf_deleteSegment _ _ _
  -- the file that goes is behind the watermark
  have kept : ∀ n, s.disk.watermark < n →
      (s.deleteSegment seqno).disk.fileOf n = s.disk.fileOf n :=
    fun n high => by rw [files, if_neg (flushed.trans_lt high).ne]
  have active : s.disk.watermark < s.proc.walActive :=
    invariant.above.trans_le invariant.published
  refine ⟨invariant.cold, invariant.above, invariant.published, ?_, ?_, ?_, ?_, ?_,
    invariant.fsynced, ?_⟩
  · intro n far
    obtain ⟨empty, file⟩ := invariant.beyond n far
    exact ⟨empty, (kept n (active.trans far)).trans file⟩
  · intro n high
    change ((s.deleteSegment seqno).disk.fileOf n).records = _
    rw [kept n high]
    exact invariant.mirrors n high
  · intro n low k held
    refine invariant.retired n low k (held.imp_right fun inFile => ?_)
    change HasKey ((s.deleteSegment seqno).disk.fileOf n).records k at inFile
    rw [files] at inFile
    split at inFile
    · exact absurd inFile not_hasKey_nil
    · exact inFile
  · exact invariant.writer.frame rfl (kept _ active) rfl
  · exact ⟨flushed, pending.frame rfl le_rfl (fun _ _ => rfl)⟩
  · intro k
    refine (invariant.account k).trans (or_congr_right (or_congr_left ?_))
    refine exists_congr (fun n => and_congr_right (fun high => and_congr_right (fun _ => ?_)))
    change _ ↔ HasKey ((s.deleteSegment seqno).disk.syncedOf n) k
    rw [Disk.syncedOf, Disk.syncedOf, Disk.recordsOf, Disk.recordsOf, kept n high]

theorem LiveInvariant.dropSegment {s : Live} (invariant : LiveInvariant s) {seqno : Nat}
    {rest : List Nat} (pc : s.proc.compactor = .deleted seqno rest) :
    LiveInvariant ((s.dropSegment seqno).setCompactor (.listed rest)) := by
  have compactorOk := invariant.compactor
  rw [pc] at compactorOk
  obtain ⟨flushed, pending⟩ := compactorOk
  have hot : ∀ n, (s.dropSegment seqno).proc.hot.spansOf n =
      if seqno = n then [] else s.proc.hot.spansOf n := fun n => HotTier.spansOf_dropSegment _ _ _
  -- the segment that goes is behind the watermark
  have kept : ∀ n, s.disk.watermark < n →
      (s.dropSegment seqno).proc.hot.spansOf n = s.proc.hot.spansOf n :=
    fun n high => by rw [hot, if_neg (flushed.trans_lt high).ne]
  have active : s.disk.watermark < s.proc.walActive :=
    invariant.above.trans_le invariant.published
  refine ⟨invariant.cold, invariant.above, invariant.published, ?_, ?_, ?_, ?_, ?_,
    invariant.fsynced, ?_⟩
  · intro n far
    obtain ⟨empty, file⟩ := invariant.beyond n far
    exact ⟨(kept n (active.trans far)).trans empty, file⟩
  · intro n high
    have old := invariant.mirrors n high
    rw [← kept n high] at old
    exact old
  · intro n low k held
    refine invariant.retired n low k (held.imp_left fun inHot => ?_)
    change HasKey ((s.dropSegment seqno).proc.hot.spansOf n) k at inHot
    rw [hot] at inHot
    split at inHot
    · exact absurd inHot not_hasKey_nil
    · exact inHot
  · exact invariant.writer.frame rfl rfl (kept _ active)
  · refine ⟨pending.ordered, pending.between, fun n m high member below => ?_⟩
    have old := pending.gaps n m high member below
    rw [← kept n high] at old
    exact old
  · intro k
    have old := invariant.account k
    rw [← kept _ active] at old
    exact old

theorem LiveInvariant.step {s s' : Live} (invariant : LiveInvariant s)
    (stepped : LiveStep s s') : LiveInvariant s' := by
  have compactorOk := invariant.compactor
  -- one lemma for each step that moves spans, the others change a program counter
  cases stepped with
  | appendFirst spans pc =>
    have writerOk := invariant.writer
    have mirrors := invariant.mirrors _ (invariant.above.trans_le invariant.published)
    rw [if_pos rfl] at mirrors
    rw [pc] at writerOk mirrors
    refine invariant.append (by rw [pc]; rfl) (by rw [pc]; rfl) (fun e member => by cases member)
      ?_ spans
    rw [writerOk, mirrors]
    simp [Writer.inFlight]
  | appendNext spans pc =>
    have writerOk := invariant.writer
    rw [pc] at writerOk
    exact invariant.append (by rw [pc]; rfl) (by rw [pc]; rfl) writerOk.1 writerOk.2 spans
  | sync pc => exact invariant.sync pc
  | push pc => exact invariant.push pc
  | groupDone pc => exact invariant.groupDone pc
  | rotate pc => exact invariant.rotate pc
  | publish pc => exact invariant.publish pc
  | loadActive pc => exact invariant.setCompactor le_rfl
  | listPending pc =>
    rw [pc] at compactorOk
    exact invariant.setCompactor (pendingOk_pendingSegments compactorOk)
  | skipAbsent pc absent =>
    rw [pc] at compactorOk
    exact invariant.setCompactor
      (PendingOk.skip compactorOk (HotTier.spansOf_of_segment_none absent))
  | snapshot pc resident =>
    rw [pc] at compactorOk
    exact invariant.setCompactor
      ⟨compactorOk, _, resident, rfl, fun block member => by cases member⟩
  | writeBlock priceTable now pc => exact invariant.writeBlock priceTable now pc
  | commit pc => exact invariant.commit pc
  | deleteSegment pc => exact invariant.deleteSegment pc
  | dropSegment pc => exact invariant.dropSegment pc
  | passDone pc => exact invariant.setCompactor trivial

end Evald.Store
