import Evald.Store.QueryRun

/-! # The writer and the compactor when steps fail

The steps of the running store together with the ones that fail: an append, an fsync, a
rotation, and each sub-step of a flush.  A failed flush step ends its pass where it
stands.  `Watched` records beside the store what was pushed under each segment, the
last snapshot taken of it and the segments whose file could not be deleted after their
commit.  `pushed_in_snapshot` says that a snapshot has everything ever pushed under its
segment; `stranded_iff` that the segments a pass leaves behind are exactly those whose
delete failed.
-/

namespace Evald.Store

open Evald.Lib

/-- An append that fails after some of its records were written. -/
def Live.tearAppend (s : Live) (spans : List NormalizedSpan) (kept : Nat) : Live :=
  let file := s.disk.fileOf s.proc.walActive
  { s with
    disk := s.disk.setFile s.proc.walActive { file with records := file.records ++ spans.take kept } }

/-- A group that is given up. -/
def Live.refuseGroup (s : Live) : Live := { s with proc := { s.proc with writer := .idle } }

/-- One step of the writer or the compactor that fails. -/
inductive FaultStep : Live → Live → Prop where
  /-- The batch is refused; the file may keep some of its records. -/
  | appendFailed {s : Live} (spans : List NormalizedSpan) (kept : Nat)
      (pc : s.proc.writer = .idle ∨ ∃ pending, s.proc.writer = .appending pending) :
      FaultStep s (s.tearAppend spans kept)
  /-- The group is refused, and nothing of it is pushed. -/
  | syncFailed {s : Live} {pending : PendingAppends} (pc : s.proc.writer = .appending pending) :
      FaultStep s s.refuseGroup
  /-- The next segment's file may be there already. -/
  | rotateFailed {s : Live} (created : Bool) (pc : s.proc.writer = .idle) :
      FaultStep s
        { s with disk := if created then s.disk.openSegment (s.proc.walActive + 1) else s.disk }
  | watermarkFailed {s : Live} {active : Nat} (pc : s.proc.compactor = .loaded active) :
      FaultStep s (s.setCompactor .idle)
  | writeBlockFailed {s : Live} {seqno : Nat} {written todo : List (BlockPath × List NormalizedSpan)}
      {block : BlockPath × List NormalizedSpan} {rest : List Nat}
      (pc : s.proc.compactor = .flushing seqno written (block :: todo) rest) :
      FaultStep s (s.setCompactor .idle)
  | commitFailed {s : Live} {seqno : Nat} {written : List (BlockPath × List NormalizedSpan)}
      {rest : List Nat} (pc : s.proc.compactor = .flushing seqno written [] rest) :
      FaultStep s (s.setCompactor .idle)

/-- A store since it was opened.  The last three fields are for the statements below. -/
structure Watched where
  live : Live
  /-- Everything in the hot tier or pushed to it since, by segment. -/
  pushed : Nat → List NormalizedSpan
  /-- The last snapshot the compactor took of a segment. -/
  snapshots : Nat → Option (List NormalizedSpan) := fun _ => none
  /-- The segments whose file could not be deleted after their commit. -/
  undeleted : List Nat := []

namespace Watched

abbrev hot (w : Watched) : HotTier := w.live.proc.hot

abbrev watermark (w : Watched) : Nat := w.live.disk.watermark

def push (w : Watched) (seqno : Nat) (spans : List NormalizedSpan) (pending : PendingAppends) :
    Watched :=
  { w with
    live := w.live.push seqno spans pending
    pushed := fun n => if seqno = n then w.pushed n ++ spans else w.pushed n }

def snapshot (w : Watched) (seqno : Nat) (spans : List NormalizedSpan) (rest : List Nat) :
    Watched :=
  { w with
    live := w.live.setCompactor (.flushing seqno [] (flushPlan seqno spans) rest)
    snapshots := fun n => if seqno = n then some spans else w.snapshots n }

end Watched

/-- A step that neither pushes a batch nor takes a snapshot. -/
structure Unrecorded (s s' : Live) : Prop where
  push : ∀ entry pending, s.proc.writer = .pushing (entry :: pending) →
    s'.proc.writer = s.proc.writer
  snapshot : ∀ pending, s.proc.compactor = .listed pending →
    ∀ seqno todo rest, s'.proc.compactor ≠ .flushing seqno [] todo rest

inductive WatchedStep : Watched → Watched → Prop where
  | push {w : Watched} {seqno : Nat} {spans : List NormalizedSpan} {pending : PendingAppends}
      (pc : w.live.proc.writer = .pushing ((seqno, spans) :: pending)) :
      WatchedStep w (w.push seqno spans pending)
  | snapshot {w : Watched} {seqno : Nat} {rest : List Nat} {spans : List NormalizedSpan}
      (pc : w.live.proc.compactor = .listed (seqno :: rest))
      (resident : w.hot.segment seqno = some spans) :
      WatchedStep w (w.snapshot seqno spans rest)
  | other {w : Watched} {s' : Live} (stepped : LiveStep w.live s')
      (unrecorded : Unrecorded w.live s') : WatchedStep w { w with live := s' }
  | fault {w : Watched} {s' : Live} (stepped : FaultStep w.live s') :
      WatchedStep w { w with live := s' }
  /-- The commit stands; the pass ends with the hot group still there. -/
  | deleteFailed {w : Watched} {seqno : Nat} {rest : List Nat}
      (pc : w.live.proc.compactor = .committed seqno rest) :
      WatchedStep w
        { w with live := w.live.setCompactor .idle, undeleted := seqno :: w.undeleted }

/-! ## The invariant -/

/-- The batches of the group in flight. -/
def Writer.entries : Writer → PendingAppends
  | .appending pending => pending
  | .pushing pending => pending
  | _ => []

/-- The committed segment whose hot group is still to be dropped. -/
def Compactor.retiring : Compactor → List Nat
  | .committed seqno _ => [seqno]
  | .deleted seqno _ => [seqno]
  | _ => []

/-- The segments still to flush: in order, above the watermark, sealed, and with nothing
resident in between. -/
structure Todo (w : Watched) (pending : List Nat) : Prop where
  ordered : pending.Pairwise (· < ·)
  between : ∀ m ∈ pending, w.watermark < m ∧ m < w.live.proc.activeSeqno
  gaps : ∀ n m, w.watermark < n → m ∈ pending → n < m → n ∈ pending ∨ w.hot.segment n = none

/-- The segment is resident as it was when its last snapshot was taken. -/
def Snapshotted (w : Watched) (seqno : Nat) (spans : List NormalizedSpan) : Prop :=
  w.snapshots seqno = some spans ∧ w.hot.segment seqno = some spans

def PassOk (w : Watched) : Compactor → Prop
  | .idle => True
  | .loaded active => active ≤ w.live.proc.activeSeqno
  | .listed pending => Todo w pending
  | .flushing seqno written todo rest => Todo w (seqno :: rest) ∧
    ∃ spans, Snapshotted w seqno spans ∧ written ++ todo = flushPlan seqno spans
  | .committed seqno rest => seqno ≤ w.watermark ∧ Todo w rest ∧ ∃ spans, Snapshotted w seqno spans
  | .deleted seqno rest => seqno ≤ w.watermark ∧ Todo w rest ∧ ∃ spans, Snapshotted w seqno spans

structure WatchInvariant (w : Watched) : Prop where
  published : w.live.proc.activeSeqno ≤ w.live.proc.walActive
  above : w.watermark < w.live.proc.activeSeqno
  landed : ∀ entry ∈ w.live.proc.writer.entries, entry.1 = w.live.proc.walActive
  taken : ∀ n spans, w.snapshots n = some spans →
    n < w.live.proc.activeSeqno ∧ w.pushed n = spans
  resident : ∀ n spans, w.hot.segment n = some spans → w.pushed n = spans
  absent : ∀ n, w.watermark < n → w.hot.segment n = none → w.pushed n = []
  stranded : ∀ n spans, w.hot.segment n = some spans → n ≤ w.watermark →
    n ∈ w.undeleted ∨ n ∈ w.live.proc.compactor.retiring
  undeleted : ∀ n ∈ w.undeleted, n ≤ w.watermark ∧ n ∉ w.live.proc.compactor.retiring ∧
    ∃ spans, w.hot.segment n = some spans
  pass : PassOk w w.live.proc.compactor

/-! ## Writer steps -/

theorem Todo.frame {w w' : Watched} {pending : List Nat} (todo : Todo w pending)
    (watermark : w'.watermark = w.watermark)
    (published : w.live.proc.activeSeqno ≤ w'.live.proc.activeSeqno)
    (same : ∀ n, n < w.live.proc.activeSeqno → w'.hot.segment n = w.hot.segment n) :
    Todo w' pending where
  ordered := todo.ordered
  between := fun m member => by
    obtain ⟨low, high⟩ := todo.between m member
    exact ⟨watermark ▸ low, high.trans_le published⟩
  gaps := fun n m low member below => by
    rw [same n (below.trans (todo.between m member).2)]
    exact todo.gaps n m (watermark ▸ low) member below

/-- A pass does not notice a change above the published seqno. -/
theorem PassOk.frame {w w' : Watched} {pc : Compactor} (ok : PassOk w pc)
    (invariant : WatchInvariant w) (watermark : w'.watermark = w.watermark)
    (published : w.live.proc.activeSeqno ≤ w'.live.proc.activeSeqno)
    (same : ∀ n, n < w.live.proc.activeSeqno → w'.hot.segment n = w.hot.segment n)
    (snapshots : w'.snapshots = w.snapshots) : PassOk w' pc := by
  have snapshotted : ∀ n spans, Snapshotted w n spans → Snapshotted w' n spans := by
    intro n spans held
    have below := (invariant.taken n spans held.1).1
    exact ⟨by rw [snapshots]; exact held.1, (same n below).trans held.2⟩
  cases pc with
  | idle => trivial
  | loaded active => exact le_trans ok published
  | listed pending => exact Todo.frame ok watermark published same
  | flushing seqno written todo rest =>
    obtain ⟨todoOk, spans, held, plan⟩ := ok
    exact ⟨todoOk.frame watermark published same, spans, snapshotted _ _ held, plan⟩
  | committed seqno rest =>
    obtain ⟨low, todoOk, spans, held⟩ := ok
    exact ⟨watermark ▸ low, todoOk.frame watermark published same, spans, snapshotted _ _ held⟩
  | deleted seqno rest =>
    obtain ⟨low, todoOk, spans, held⟩ := ok
    exact ⟨watermark ▸ low, todoOk.frame watermark published same, spans, snapshotted _ _ held⟩

/-- A step that leaves the hot tier, the watermark and the pass alone. -/
theorem WatchInvariant.quiet {w : Watched} (invariant : WatchInvariant w) {s' : Live}
    (hot : s'.proc.hot = w.hot) (watermark : s'.disk.watermark = w.watermark)
    (compactor : s'.proc.compactor = w.live.proc.compactor)
    (later : w.live.proc.activeSeqno ≤ s'.proc.activeSeqno)
    (published : s'.proc.activeSeqno ≤ s'.proc.walActive)
    (landed : ∀ entry ∈ s'.proc.writer.entries, entry.1 = s'.proc.walActive) :
    WatchInvariant { w with live := s' } where
  published := published
  above := by
    change s'.disk.watermark < s'.proc.activeSeqno
    rw [watermark]
    exact invariant.above.trans_le later
  landed := landed
  taken := fun n spans snapped => by
    obtain ⟨below, same⟩ := invariant.taken n spans snapped
    exact ⟨below.trans_le later, same⟩
  resident := fun n spans found => by
    change s'.proc.hot.segment n = some spans at found
    rw [hot] at found
    exact invariant.resident n spans found
  absent := fun n high none => by
    change s'.disk.watermark < n at high
    change s'.proc.hot.segment n = _ at none
    rw [watermark] at high
    rw [hot] at none
    exact invariant.absent n high none
  stranded := fun n spans found low => by
    change s'.proc.hot.segment n = some spans at found
    change n ≤ s'.disk.watermark at low
    change n ∈ w.undeleted ∨ n ∈ s'.proc.compactor.retiring
    rw [hot] at found
    rw [watermark] at low
    rw [compactor]
    exact invariant.stranded n spans found low
  undeleted := fun n member => by
    change n ≤ s'.disk.watermark ∧ n ∉ s'.proc.compactor.retiring ∧
      ∃ spans, s'.proc.hot.segment n = some spans
    rw [watermark, compactor, hot]
    exact invariant.undeleted n member
  -- a pass under way looks only at what did not change
  pass := by
    change PassOk _ s'.proc.compactor
    rw [compactor]
    have same : ∀ n, n < w.live.proc.activeSeqno → s'.proc.hot.segment n = w.hot.segment n :=
      fun n _ => by rw [hot]
    exact PassOk.frame invariant.pass invariant watermark later same rfl

theorem WatchInvariant.push {w : Watched} (invariant : WatchInvariant w) {seqno : Nat}
    {spans : List NormalizedSpan} {pending : PendingAppends}
    (pc : w.live.proc.writer = .pushing ((seqno, spans) :: pending)) :
    WatchInvariant (w.push seqno spans pending) := by
  have landed : ∀ entry ∈ (seqno, spans) :: pending, entry.1 = w.live.proc.walActive := by
    have all := invariant.landed
    rw [pc] at all
    exact all
  have active : seqno = w.live.proc.walActive := landed _ List.mem_cons_self
  have sealed : ∀ n, n < w.live.proc.activeSeqno → seqno ≠ n := by
    intro n below same
    have := invariant.published
    omega
  have above : w.watermark < seqno := by
    have := invariant.above
    have := invariant.published
    omega
  -- what was pushed under the segment so far is what is resident of it
  have before : w.pushed seqno = w.hot.getD seqno [] := by
    cases found : w.hot.segment seqno with
    | none =>
      rw [invariant.absent seqno above found]
      exact (HotTier.spansOf_of_segment_none found).symm
    | some old =>
      rw [invariant.resident seqno old found]
      exact (HotTier.spansOf_of_segment found).symm
  have here : (w.hot.push seqno spans).segment seqno = some (w.pushed seqno ++ spans) := by
    rw [before, HotTier.segment, HotTier.push, Std.ExtTreeMap.getElem?_insert_self]
  have other : ∀ n, seqno ≠ n → (w.hot.push seqno spans).segment n = w.hot.segment n :=
    fun n differ => HotTier.segment_push_other spans differ
  refine ⟨invariant.published, invariant.above, ?_, ?_, ?_, ?_, ?_, ?_, ?_⟩
  · exact fun entry member => landed entry (List.mem_cons_of_mem _ member)
  · intro n taken snapped
    obtain ⟨below, same⟩ := invariant.taken n taken snapped
    refine ⟨below, ?_⟩
    change (if seqno = n then w.pushed n ++ spans else w.pushed n) = taken
    rw [if_neg (sealed n below)]
    exact same
  · intro n found resident
    change (w.hot.push seqno spans).segment n = some found at resident
    change (if seqno = n then w.pushed n ++ spans else w.pushed n) = found
    split
    · next same =>
      rw [← same, here] at resident
      rw [← same]
      exact Option.some.inj resident
    · next differ =>
      rw [other n differ] at resident
      exact invariant.resident n found resident
  · intro n high none
    change (w.hot.push seqno spans).segment n = _ at none
    change (if seqno = n then w.pushed n ++ spans else w.pushed n) = []
    split
    · next same =>
      rw [← same, here] at none
      cases none
    · next differ =>
      rw [other n differ] at none
      exact invariant.absent n high none
  · intro n found resident low
    change (w.hot.push seqno spans).segment n = some found at resident
    change n ≤ w.watermark at low
    rw [other n (by omega)] at resident
    exact invariant.stranded n found resident low
  · intro n member
    obtain ⟨low, notRetiring, found, resident⟩ := invariant.undeleted n member
    refine ⟨low, notRetiring, found, ?_⟩
    change (w.hot.push seqno spans).segment n = some found
    rw [other n (by omega)]
    exact resident
  · exact invariant.pass.frame invariant rfl le_rfl (fun n below => other n (sealed n below)) rfl

/-! ## Compactor steps -/

/-- A step of the pass before its commit, or one that ends it there. -/
theorem WatchInvariant.setCompactor {w : Watched} (invariant : WatchInvariant w) {s' : Live}
    {pc : Compactor} (proc : s'.proc = { w.live.proc with compactor := pc })
    (watermark : s'.disk.watermark = w.watermark)
    (before : w.live.proc.compactor.retiring = []) (after : pc.retiring = [])
    (ok : PassOk { w with live := s' } pc) : WatchInvariant { w with live := s' } := by
  have hot : s'.proc.hot = w.hot := by rw [proc]
  have active : s'.proc.activeSeqno = w.live.proc.activeSeqno := by rw [proc]
  have compactor : s'.proc.compactor = pc := by rw [proc]
  have walActive : s'.proc.walActive = w.live.proc.walActive := by rw [proc]
  have writer : s'.proc.writer = w.live.proc.writer := by rw [proc]
  refine ⟨?_, ?_, ?_, ?_, ?_, ?_, ?_, ?_, ?_⟩ <;>
    simp only [Watched.watermark, Watched.hot, hot, active, compactor, walActive, writer, watermark,
      after]
  · exact invariant.published
  · exact invariant.above
  · exact invariant.landed
  · exact invariant.taken
  · exact invariant.resident
  · exact invariant.absent
  · intro n spans found low
    have stranded := invariant.stranded n spans found low
    rwa [before] at stranded
  · intro n member
    obtain ⟨low, -, found⟩ := invariant.undeleted n member
    exact ⟨low, List.not_mem_nil, found⟩
  · exact ok

theorem WatchInvariant.snapshot {w : Watched} (invariant : WatchInvariant w) {seqno : Nat}
    {rest : List Nat} {spans : List NormalizedSpan}
    (pc : w.live.proc.compactor = .listed (seqno :: rest))
    (resident : w.hot.segment seqno = some spans) :
    WatchInvariant (w.snapshot seqno spans rest) := by
  have todo : Todo w (seqno :: rest) := by
    have ok := invariant.pass
    rw [pc] at ok
    exact ok
  have retiring : w.live.proc.compactor.retiring = [] := by rw [pc]; rfl
  refine ⟨invariant.published, invariant.above, invariant.landed, ?_, invariant.resident,
    invariant.absent, ?_, ?_, ?_⟩
  · intro n taken snapped
    change (if seqno = n then some spans else w.snapshots n) = some taken at snapped
    split at snapped
    · next same =>
      cases snapped
      exact ⟨same ▸ (todo.between seqno List.mem_cons_self).2,
        same ▸ invariant.resident seqno spans resident⟩
    · exact invariant.taken n taken snapped
  · intro n found isResident low
    have stranded := invariant.stranded n found isResident low
    rw [retiring] at stranded
    exact stranded
  · intro n member
    obtain ⟨low, -, found⟩ := invariant.undeleted n member
    exact ⟨low, List.not_mem_nil, found⟩
  · have frame : Todo (w.snapshot seqno spans rest) (seqno :: rest) :=
      todo.frame rfl le_rfl (fun _ _ => rfl)
    exact ⟨frame, spans, ⟨if_pos rfl, resident⟩, rfl⟩

theorem WatchInvariant.commit {w : Watched} (invariant : WatchInvariant w) {seqno : Nat}
    {written : List (BlockPath × List NormalizedSpan)} {rest : List Nat}
    (pc : w.live.proc.compactor = .flushing seqno written [] rest) :
    WatchInvariant
      { w with live := (w.live.commit seqno written).setCompactor (.committed seqno rest) } := by
  have ok := invariant.pass
  rw [pc] at ok
  obtain ⟨todo, spans, snapshotted, -⟩ := ok
  have retiring : w.live.proc.compactor.retiring = [] := by rw [pc]; rfl
  obtain ⟨up, below⟩ := todo.between seqno List.mem_cons_self
  obtain ⟨later, ordered⟩ := List.pairwise_cons.mp todo.ordered
  have watermark : ((w.live.commit seqno written).setCompactor
      (.committed seqno rest)).disk.watermark = seqno := rfl
  refine ⟨invariant.published, ?_, invariant.landed, invariant.taken, invariant.resident,
    ?_, ?_, ?_, ?_⟩
  · change _ < w.live.proc.activeSeqno
    rw [Watched.watermark, watermark]
    exact below
  · intro n high none
    rw [Watched.watermark, watermark] at high
    exact invariant.absent n (up.trans high) none
  · -- nothing is resident between the old watermark and the new one but the segment itself
    intro n found resident low
    rw [Watched.watermark, watermark] at low
    by_cases old : n ≤ w.watermark
    · have stranded := invariant.stranded n found resident old
      rw [retiring] at stranded
      exact .inl (stranded.resolve_right List.not_mem_nil)
    · right
      by_cases same : n = seqno
      · exact same ▸ List.mem_singleton_self n
      · exfalso
        cases todo.gaps n seqno (by omega) List.mem_cons_self (by omega) with
        | inl listed =>
          cases listed with
          | head => exact same rfl
          | tail _ listed => exact absurd (later n listed) (by omega)
        | inr none =>
          change w.hot.segment n = some found at resident
          rw [none] at resident
          cases resident
  · intro n member
    obtain ⟨low, -, found⟩ := invariant.undeleted n member
    rw [Watched.watermark, watermark]
    refine ⟨by omega, ?_, found⟩
    intro isSeqno
    have same : n = seqno := List.mem_singleton.mp isSeqno
    omega
  · refine ⟨le_rfl, ⟨ordered, fun m member => ?_, fun n m low member before => ?_⟩, spans,
      snapshotted⟩
    · rw [Watched.watermark, watermark]
      exact ⟨later m member, (todo.between m (List.mem_cons_of_mem _ member)).2⟩
    · rw [Watched.watermark, watermark] at low
      cases todo.gaps n m (up.trans low) (List.mem_cons_of_mem _ member) before with
      | inl listed =>
        cases listed with
        | head => exact absurd low (lt_irrefl _)
        | tail _ listed => exact .inl listed
      | inr none => exact .inr none

theorem WatchInvariant.dropSegment {w : Watched} (invariant : WatchInvariant w) {seqno : Nat}
    {rest : List Nat} (pc : w.live.proc.compactor = .deleted seqno rest) :
    WatchInvariant
      { w with live := (w.live.dropSegment seqno).setCompactor (.listed rest) } := by
  have ok := invariant.pass
  rw [pc] at ok
  obtain ⟨low, todo, -⟩ := ok
  have retiring : w.live.proc.compactor.retiring = [seqno] := by rw [pc]; rfl
  have other : ∀ n, seqno ≠ n → (w.hot.dropSegment seqno).segment n = w.hot.segment n :=
    fun n differ => HotTier.segment_dropSegment_other differ
  have gone : (w.hot.dropSegment seqno).segment seqno = none := by
    rw [HotTier.segment, HotTier.dropSegment, Std.ExtTreeMap.getElem?_erase_self]
  -- what is still resident is another segment
  have kept : ∀ n found, (w.hot.dropSegment seqno).segment n = some found →
      seqno ≠ n ∧ w.hot.segment n = some found := by
    intro n found resident
    have differ : seqno ≠ n := by
      intro same
      rw [← same, gone] at resident
      cases resident
    exact ⟨differ, (other n differ).symm.trans resident⟩
  refine ⟨invariant.published, invariant.above, invariant.landed, invariant.taken, ?_, ?_, ?_,
    ?_, ?_⟩
  · exact fun n found resident => invariant.resident n found (kept n found resident).2
  · intro n high none
    change w.watermark < n at high
    change (w.hot.dropSegment seqno).segment n = _ at none
    rw [other n (by omega)] at none
    exact invariant.absent n high none
  · intro n found resident below
    obtain ⟨differ, was⟩ := kept n found resident
    have stranded := invariant.stranded n found was below
    rw [retiring, List.mem_singleton] at stranded
    exact .inl (stranded.resolve_right differ.symm)
  · intro n member
    obtain ⟨below, notRetiring, found, resident⟩ := invariant.undeleted n member
    rw [retiring, List.mem_singleton] at notRetiring
    exact ⟨below, List.not_mem_nil, found, (other n (Ne.symm notRetiring)).trans resident⟩
  · refine ⟨todo.ordered, todo.between, fun n m high member before => ?_⟩
    change w.watermark < n at high
    refine (todo.gaps n m high member before).imp_right (fun none => ?_)
    change (w.hot.dropSegment seqno).segment n = _
    rw [other n (by omega)]
    exact none

theorem WatchInvariant.deleteFailed {w : Watched} (invariant : WatchInvariant w) {seqno : Nat}
    {rest : List Nat} (pc : w.live.proc.compactor = .committed seqno rest) :
    WatchInvariant
      { w with live := w.live.setCompactor .idle, undeleted := seqno :: w.undeleted } := by
  have ok := invariant.pass
  rw [pc] at ok
  obtain ⟨low, -, spans, -, resident⟩ := ok
  have retiring : w.live.proc.compactor.retiring = [seqno] := by rw [pc]; rfl
  refine ⟨invariant.published, invariant.above, invariant.landed, invariant.taken,
    invariant.resident, invariant.absent, ?_, ?_, trivial⟩
  · intro n found isResident below
    have stranded := invariant.stranded n found isResident below
    rw [retiring, List.mem_singleton] at stranded
    cases stranded with
    | inl old => exact .inl (List.mem_cons_of_mem _ old)
    | inr same => exact .inl (same ▸ List.mem_cons_self)
  · intro n member
    cases member with
    | head => exact ⟨low, List.not_mem_nil, spans, resident⟩
    | tail _ old =>
      obtain ⟨below, -, found⟩ := invariant.undeleted n old
      exact ⟨below, List.not_mem_nil, found⟩

/-! ## Every step -/

theorem todo_pendingSegments {w : Watched} {active : Nat}
    (low : active ≤ w.live.proc.activeSeqno) : Todo w (w.live.pendingSegments active) := by
  have listed : ∀ n, n ∈ w.live.pendingSegments active ↔
      n ∈ w.hot.segnos ∧ w.watermark < n ∧ n < active := by
    intro n
    simp [Live.pendingSegments]
  refine ⟨?_, fun m member => ?_, fun n m high member before => ?_⟩
  · have keys : w.hot.segnos.Pairwise (fun a b => compare a b = .lt) :=
      Std.ExtTreeMap.ordered_keys
    refine (keys.imp (fun before => ?_)).filter _
    exact Nat.compare_eq_lt.mp before
  · obtain ⟨-, above, below⟩ := (listed m).mp member
    exact ⟨above, below.trans_le low⟩
  · by_cases resident : n ∈ w.hot.segnos
    · exact .inl ((listed n).mpr ⟨resident, high, before.trans ((listed m).mp member).2.2⟩)
    · exact .inr (HotTier.segment_none_of_not_mem_segnos resident)

theorem WatchInvariant.live {w : Watched} (invariant : WatchInvariant w) {s' : Live}
    (stepped : LiveStep w.live s') (unrecorded : Unrecorded w.live s') :
    WatchInvariant { w with live := s' } := by
  have ok := invariant.pass
  have landed := invariant.landed
  -- a push and a snapshot are recorded, so they are none of these steps
  cases stepped with
  | appendFirst spans pc =>
    refine invariant.quiet rfl rfl rfl le_rfl invariant.published ?_
    intro entry member
    rw [List.mem_singleton.mp member]
    rfl
  | @appendNext pending spans pc =>
    rw [pc] at landed
    refine invariant.quiet rfl rfl rfl le_rfl invariant.published ?_
    intro entry member
    cases List.mem_append.mp member with
    | inl old => exact landed entry old
    | inr new =>
      rw [List.mem_singleton.mp new]
      rfl
  | sync pc =>
    rw [pc] at landed
    exact invariant.quiet rfl rfl rfl le_rfl invariant.published landed
  | @push seqno spans pending pc =>
    have same : Writer.pushing pending = w.live.proc.writer := unrecorded.push _ _ pc
    rw [pc] at same
    injection same with same
    exact absurd same.symm (List.cons_ne_self _ _)
  | groupDone pc =>
    exact invariant.quiet rfl rfl rfl le_rfl invariant.published
      (fun entry member => by cases member)
  | rotate pc =>
    refine invariant.quiet rfl rfl rfl le_rfl (Nat.le_succ_of_le invariant.published) ?_
    intro entry member
    cases member
  | publish pc =>
    exact invariant.quiet rfl rfl rfl invariant.published le_rfl
      (fun entry member => by cases member)
  | loadActive pc => exact invariant.setCompactor rfl rfl (by rw [pc]; rfl) rfl le_rfl
  | @listPending active pc =>
    rw [pc] at ok
    refine invariant.setCompactor rfl rfl (by rw [pc]; rfl) rfl ?_
    exact (todo_pendingSegments ok).frame rfl le_rfl (fun _ _ => rfl)
  | @skipAbsent seqno rest pc none =>
    rw [pc] at ok
    have todo : Todo w (seqno :: rest) := ok
    refine invariant.setCompactor rfl rfl (by rw [pc]; rfl) rfl ?_
    refine ⟨(List.pairwise_cons.mp todo.ordered).2,
      fun m member => todo.between m (List.mem_cons_of_mem _ member),
      fun n m high member before => ?_⟩
    cases todo.gaps n m high (List.mem_cons_of_mem _ member) before with
    | inl listed =>
      cases listed with
      | head => exact .inr none
      | tail _ listed => exact .inl listed
    | inr absent => exact .inr absent
  | snapshot pc resident => exact absurd rfl (unrecorded.snapshot _ pc _ _ _)
  | @writeBlock seqno written todo block rest priceTable now pc =>
    rw [pc] at ok
    obtain ⟨todoOk, spans, snapshotted, plan⟩ := ok
    refine invariant.setCompactor rfl rfl (by rw [pc]; rfl) rfl ?_
    refine ⟨todoOk.frame rfl le_rfl (fun _ _ => rfl), spans, snapshotted, ?_⟩
    rw [List.append_assoc]
    exact plan
  | commit pc => exact invariant.commit pc
  | @deleteSegment seqno rest pc =>
    rw [pc] at ok
    have retiring : w.live.proc.compactor.retiring = [seqno] := by rw [pc]; rfl
    obtain ⟨low, todo, spans, snapshotted⟩ := ok
    refine ⟨invariant.published, invariant.above, invariant.landed, invariant.taken,
      invariant.resident, invariant.absent, ?_, ?_, ?_⟩
    · intro n found resident below
      have stranded := invariant.stranded n found resident below
      rw [retiring] at stranded
      exact stranded
    · intro n member
      have was := invariant.undeleted n member
      rw [retiring] at was
      exact was
    · exact ⟨low, todo.frame rfl le_rfl (fun _ _ => rfl), spans, snapshotted⟩
  | dropSegment pc => exact invariant.dropSegment pc
  | passDone pc => exact invariant.setCompactor rfl rfl (by rw [pc]; rfl) rfl trivial

theorem WatchInvariant.fault {w : Watched} (invariant : WatchInvariant w) {s' : Live}
    (stepped : FaultStep w.live s') : WatchInvariant { w with live := s' } := by
  cases stepped with
  | appendFailed spans kept pc =>
    exact invariant.quiet rfl rfl rfl le_rfl invariant.published invariant.landed
  | syncFailed pc =>
    exact invariant.quiet rfl rfl rfl le_rfl invariant.published
      (fun entry member => by cases member)
  | rotateFailed created pc =>
    cases created with
    | false => exact invariant.quiet rfl rfl rfl le_rfl invariant.published invariant.landed
    | true => exact invariant.quiet rfl rfl rfl le_rfl invariant.published invariant.landed
  | watermarkFailed pc => exact invariant.setCompactor rfl rfl (by rw [pc]; rfl) rfl trivial
  | writeBlockFailed pc => exact invariant.setCompactor rfl rfl (by rw [pc]; rfl) rfl trivial
  | commitFailed pc => exact invariant.setCompactor rfl rfl (by rw [pc]; rfl) rfl trivial

theorem WatchInvariant.step {w w' : Watched} (invariant : WatchInvariant w)
    (stepped : WatchedStep w w') : WatchInvariant w' := by
  cases stepped with
  | push pc => exact invariant.push pc
  | snapshot pc resident => exact invariant.snapshot pc resident
  | other stepped unrecorded => exact invariant.live stepped unrecorded
  | fault stepped => exact invariant.fault stepped
  | deleteFailed pc => exact invariant.deleteFailed pc

/-! ## From the opening on -/

/-- The hot tier holds what recovery loads: segments above the watermark, up to the last
one on disk. -/
structure Loaded (r : Remains) (hot : HotTier) (maxSeqno : Nat) : Prop where
  reaches : r.disk.watermark ≤ maxSeqno
  resident : ∀ n spans, hot.segment n = some spans → r.disk.watermark < n ∧ n ≤ maxSeqno

def RecoveryOk : System → Prop
  | .replaying r watermark _ hot maxSeqno => watermark = r.disk.watermark ∧ Loaded r hot maxSeqno
  | .sweeping r _ hot maxSeqno => Loaded r hot maxSeqno
  | _ => True

theorem Loaded.replay {r : Remains} {hot : HotTier} {maxSeqno seqno : Nat}
    (loaded : Loaded r hot maxSeqno) (above : r.disk.watermark < seqno)
    (spans : List NormalizedSpan) :
    Loaded r (hot.loadSegment seqno spans) (max maxSeqno seqno) where
  reaches := loaded.reaches.trans (le_max_left _ _)
  resident := fun n found isResident => by
    have options : seqno = n ∨ hot.segment n = some found := by
      unfold HotTier.loadSegment at isResident
      split at isResident
      · exact .inr isResident
      · by_cases same : seqno = n
        · exact .inl same
        · rw [HotTier.segment, Std.ExtTreeMap.getElem?_insert, if_neg (by simpa using same)]
            at isResident
          exact .inr isResident
    cases options with
    | inl same => exact ⟨same ▸ above, same ▸ le_max_right _ _⟩
    | inr old =>
      obtain ⟨high, low⟩ := loaded.resident n found old
      exact ⟨high, low.trans (le_max_left _ _)⟩

theorem RecoveryOk.step {system system' : System} (ok : RecoveryOk system)
    (stepped : SystemStep system system') : RecoveryOk system' := by
  cases stepped with
  | run stepped => trivial
  | crash system kept durable => trivial
  | openStore r =>
    refine ⟨rfl, le_rfl, fun n spans resident => ?_⟩
    rw [HotTier.segment, Std.ExtTreeMap.getElem?_empty] at resident
    cases resident
  | deleteFlushed flushed => exact ⟨ok.1, ok.2.reaches, ok.2.resident⟩
  | replay above =>
    obtain ⟨same, loaded⟩ := ok
    exact ⟨same, loaded.replay (same ▸ above) _⟩
  | listOrphans => exact ok.2
  | removeOrphan => exact ⟨ok.reaches, ok.resident⟩
  | openWal => trivial

/-- A store just opened, on any data directory. -/
def WatchedStart (w : Watched) : Prop :=
  ∃ r hot maxSeqno,
    Reachable (fun system => ∃ before, system = .down before) SystemStep
      (.sweeping r [] hot maxSeqno) ∧
    w = { live := r.openWal hot maxSeqno, pushed := hot.spansOf }

abbrev WatchedReachable : Watched → Prop := Reachable WatchedStart WatchedStep

theorem WatchedStart.invariant {w : Watched} (start : WatchedStart w) : WatchInvariant w := by
  obtain ⟨r, hot, maxSeqno, opened, rfl⟩ := start
  have initially : ∀ system, (∃ before, system = System.down before) → RecoveryOk system := by
    rintro _ ⟨before, rfl⟩
    trivial
  have loaded : Loaded r hot maxSeqno :=
    Reachable.invariant initially (fun _ _ ok stepped => ok.step stepped) opened
  refine ⟨le_rfl, Nat.lt_succ_of_le loaded.reaches, ?_, ?_, ?_, ?_, ?_, ?_, trivial⟩
  · intro entry member
    cases member
  · intro n spans taken
    cases taken
  · exact fun n spans resident => HotTier.spansOf_of_segment resident
  · exact fun n _ absent => HotTier.spansOf_of_segment_none absent
  · intro n spans resident low
    exact absurd (loaded.resident n spans resident).1 (not_lt.mpr low)
  · intro n member
    cases member

theorem WatchedReachable.invariant {w : Watched} (reached : WatchedReachable w) :
    WatchInvariant w :=
  Reachable.invariant (fun _ begins => begins.invariant) (fun _ _ kept stepped => kept.step stepped)
    reached

theorem Unrecorded.writer {s s' : Live} (same : s'.proc.compactor = s.proc.compactor)
    (nothing : ∀ entry pending, s.proc.writer ≠ .pushing (entry :: pending)) :
    Unrecorded s s' where
  push := fun entry pending pc => absurd pc (nothing entry pending)
  snapshot := fun pending pc seqno todo rest taken => by
    rw [same, pc] at taken
    cases taken

theorem Unrecorded.compactor {s s' : Live} (same : s'.proc.writer = s.proc.writer)
    (nothing : ∀ seqno todo rest, s'.proc.compactor ≠ .flushing seqno [] todo rest) :
    Unrecorded s s' where
  push := fun _ _ _ => same
  snapshot := fun _ _ => nothing

/-- Nothing the store can do is left out. -/
theorem LiveStep.watched {w : Watched} {s' : Live} (stepped : LiveStep w.live s') :
    ∃ w', w'.live = s' ∧ WatchedStep w w' := by
  have other : Unrecorded w.live s' → ∃ w', w'.live = s' ∧ WatchedStep w w' :=
    fun unrecorded => ⟨_, rfl, .other stepped unrecorded⟩
  cases stepped with
  | push pc => exact ⟨_, rfl, .push pc⟩
  | snapshot pc resident => exact ⟨_, rfl, .snapshot pc resident⟩
  | appendFirst _ pc | appendNext _ pc | sync pc | groupDone pc | rotate pc | publish pc =>
    exact other (.writer rfl (fun entry pending => by rw [pc]; simp))
  | writeBlock _ _ pc =>
    apply other
    exact .compactor rfl (fun seqno todo rest taken => by simp [Live.setCompactor] at taken)
  | loadActive | listPending | skipAbsent | commit | deleteSegment | dropSegment | passDone =>
    apply other
    exact .compactor rfl (fun seqno todo rest taken => by cases taken)

/-! ## What a snapshot holds -/

/-- Every snapshot holds all that was and will be pushed under its segment, a flush
writes just that, and the group dropped in the end is still the one it was taken of. -/
theorem pushed_in_snapshot {w : Watched} (reached : WatchedReachable w) :
    (∀ seqno spans, w.snapshots seqno = some spans → w.pushed seqno = spans) ∧
    (∀ seqno written todo rest, w.live.proc.compactor = .flushing seqno written todo rest →
      ∃ spans, w.snapshots seqno = some spans ∧ written ++ todo = flushPlan seqno spans) ∧
    ∀ seqno rest, w.live.proc.compactor = .deleted seqno rest →
      ∃ spans, w.snapshots seqno = some spans ∧ w.hot.segment seqno = some spans := by
  have invariant := reached.invariant
  have pass := invariant.pass
  refine ⟨fun seqno spans taken => (invariant.taken seqno spans taken).2, ?_, ?_⟩
  · intro seqno written todo rest pc
    rw [pc] at pass
    obtain ⟨-, spans, snapshotted, plan⟩ := pass
    exact ⟨spans, snapshotted.1, plan⟩
  · intro seqno rest pc
    rw [pc] at pass
    obtain ⟨-, -, spans, snapshotted⟩ := pass
    exact ⟨spans, snapshotted⟩

/-! ## What a pass leaves behind -/

/-- When a pass ends without an error, the segments at or below the watermark that are
still in the hot tier are those whose file could not be deleted, in that pass or before. -/
theorem stranded_iff {w : Watched} (reached : WatchedReachable w)
    (finished : w.live.proc.compactor = .listed []) :
    (∀ n, (n ∈ w.hot.segnos ∧ n ≤ w.watermark) ↔ n ∈ w.undeleted) ∧
      ((∀ n ∈ w.hot.segnos, w.watermark < n) ↔ w.undeleted = []) := by
  have invariant := reached.invariant
  have stranded : ∀ n, (n ∈ w.hot.segnos ∧ n ≤ w.watermark) ↔ n ∈ w.undeleted := by
    intro n
    constructor
    · intro ⟨member, low⟩
      obtain ⟨spans, resident⟩ := HotTier.segment_of_mem_segnos member
      have left := invariant.stranded n spans resident low
      rw [finished] at left
      exact left.resolve_right List.not_mem_nil
    · intro member
      obtain ⟨low, -, spans, resident⟩ := invariant.undeleted n member
      exact ⟨HotTier.mem_segnos_of_segment resident, low⟩
  refine ⟨stranded, ?_⟩
  rw [List.eq_nil_iff_forall_not_mem]
  refine forall_congr' (fun n => ?_)
  rw [← stranded n]
  constructor
  · intro above ⟨member, low⟩
    exact absurd (above member) (not_lt.mpr low)
  · intro none member
    exact not_le.mp (fun low => none ⟨member, low⟩)

/-! ## One segment -/

/-- One batch in segment 1, sealed, and about to be listed. -/
def sealedSegment : Live :=
  { pushed [oneSpan] with
    proc := { (pushed [oneSpan]).proc with writer := .idle } }.rotate.publish

/-- A pass in which a block cannot be written, and a second one that lists the segment again, takes
its snapshot, writes its block and commits it. -/
def committedSegment : Live :=
  let blocks := flushPlan 1 [oneSpan]
  let files := blocks.foldl (writePlanned "t" 0 1) sealedSegment.disk.cold.files
  ((sealedSegment.setFiles files).commit 1 blocks).setCompactor (.committed 1 [])

def oneSpanPushed : Nat → List NormalizedSpan :=
  fun n => if 1 = n then HotTier.spansOf ∅ n ++ [oneSpan] else HotTier.spansOf ∅ n

def oneSpanTaken : Nat → Option (List NormalizedSpan) :=
  fun n => if 1 = n then some [oneSpan] else none

theorem reachable_sweeping :
    Reachable (fun system => ∃ before, system = .down before) SystemStep (.sweeping {} [] ∅ 0) := by
  have empty : Reachable (fun system => ∃ before, system = .down before) SystemStep
    (.down ({} : Remains)) := .start ⟨_, rfl⟩
  have opened := Reachable.next empty (SystemStep.openStore {})
  have noSegment : ({} : Remains).disk.listSegmentSeqnos = [] := by decide
  have noFile : ({} : Remains).disk.orphans = [] := by decide
  rw [noSegment] at opened
  have listed := Reachable.next opened .listOrphans
  rw [noFile] at listed
  exact listed

theorem reachable_sealedSegment :
    WatchedReachable { live := sealedSegment, pushed := oneSpanPushed } := by
  have fresh : WatchedReachable { live := Remains.openWal {} ∅ 0, pushed := HotTier.spansOf ∅ } :=
    .start ⟨{}, ∅, 0, reachable_sweeping, rfl⟩
  have appended := Reachable.next fresh (.other (.appendFirst [oneSpan] rfl)
    (.writer rfl (fun _ _ pc => by cases pc)))
  have synced := Reachable.next appended (.other (.sync rfl)
    (.writer rfl (fun _ _ pc => by cases pc)))
  have pushed := Reachable.next synced (.push rfl)
  have group := Reachable.next pushed (.other (.groupDone rfl)
    (.writer rfl (fun _ _ pc => by cases pc)))
  have rotated := Reachable.next group (.other (.rotate rfl)
    (.writer rfl (fun _ _ pc => by cases pc)))
  exact .next rotated (.other (.publish rfl) (.writer rfl (fun _ _ pc => by cases pc)))

/-- A pass up to its snapshot. -/
theorem reachable_snapshot {taken : Nat → Option (List NormalizedSpan)}
    (idle : WatchedReachable
      { live := sealedSegment, pushed := oneSpanPushed, snapshots := taken }) :
    WatchedReachable
      { live := sealedSegment.setCompactor (.flushing 1 [] (flushPlan 1 [oneSpan]) []),
        pushed := oneSpanPushed,
        snapshots := fun n => if 1 = n then some [oneSpan] else taken n } := by
  have resident : sealedSegment.proc.hot.segment 1 = some [oneSpan] := segment_pushed [oneSpan]
  have pending : sealedSegment.pendingSegments 2 = [1] := by decide
  have loaded := Reachable.next idle (.other (.loadActive rfl)
    (.compactor rfl (fun _ _ _ pc => by cases pc)))
  have listed := Reachable.next loaded (.other (.listPending rfl)
    (.compactor rfl (fun _ _ _ pc => by cases pc)))
  change WatchedReachable
    { live := sealedSegment.setCompactor (.listed (sealedSegment.pendingSegments 2)),
      pushed := oneSpanPushed, snapshots := taken } at listed
  rw [pending] at listed
  exact .next listed (.snapshot rfl resident)

theorem reachable_committedSegment :
    WatchedReachable
      { live := committedSegment, pushed := oneSpanPushed, snapshots := oneSpanTaken } := by
  obtain ⟨block, plan⟩ : ∃ block, flushPlan 1 [oneSpan] = [block] :=
    List.length_eq_one_iff.mp (by decide)
  have first := reachable_snapshot reachable_sealedSegment
  rw [plan] at first
  have failed := Reachable.next first (.fault (.writeBlockFailed rfl))
  have again := reachable_snapshot failed
  have same : (fun n => if 1 = n then some [oneSpan] else
      if 1 = n then some [oneSpan] else none) = oneSpanTaken := by
    funext n
    unfold oneSpanTaken
    split <;> rfl
  rw [same, plan] at again
  have written := Reachable.next again (.other (.writeBlock "t" 0 rfl)
    (.compactor rfl (fun _ _ _ pc => by cases pc)))
  have committed := Reachable.next written (.other (.commit rfl)
    (.compactor rfl (fun _ _ _ pc => by cases pc)))
  unfold committedSegment
  rw [plan]
  exact committed

theorem pushed_in_snapshot_oneSpan : oneSpanPushed 1 = [oneSpan] :=
  (pushed_in_snapshot reachable_committedSegment).1 1 [oneSpan] rfl

/-- The pass ends with the segment deleted and dropped. -/
def flushedSegment : Live :=
  ((committedSegment.deleteSegment 1).dropSegment 1).setCompactor (.listed [])

theorem reachable_flushedSegment :
    WatchedReachable
      { live := flushedSegment, pushed := oneSpanPushed, snapshots := oneSpanTaken } := by
  have deleted := Reachable.next reachable_committedSegment (.other (.deleteSegment rfl)
    (.compactor rfl (fun _ _ _ pc => by cases pc)))
  exact .next deleted (.other (.dropSegment rfl) (.compactor rfl (fun _ _ _ pc => by cases pc)))

theorem stranded_iff_flushedSegment :
    flushedSegment.disk.watermark = 1 ∧
      ∀ n ∈ flushedSegment.proc.hot.segnos, flushedSegment.disk.watermark < n :=
  ⟨rfl, (stranded_iff reachable_flushedSegment rfl).2.mpr rfl⟩

/-- A delete fails after its commit; the next pass finds nothing to do, and the segment's
span still counts. -/
theorem segment_stranded :
    ∃ w, WatchedReachable w ∧ w.live.proc.compactor = .listed [] ∧
      ∃ n ∈ w.hot.segnos, n ≤ w.watermark ∧ w.hot.len = 1 := by
  have failed := Reachable.next reachable_committedSegment (.deleteFailed rfl)
  have loaded := Reachable.next failed (.other (.loadActive rfl)
    (.compactor rfl (fun _ _ _ pc => by cases pc)))
  have listed := Reachable.next loaded (.other (.listPending rfl)
    (.compactor rfl (fun _ _ _ pc => by cases pc)))
  have nothing : (committedSegment.setCompactor .idle).pendingSegments 2 = [] := by decide
  refine ⟨_, listed, congrArg Compactor.listed nothing, 1, ?_⟩
  change 1 ∈ sealedSegment.proc.hot.segnos ∧ committedSegment.disk.watermark ≥ 1 ∧
    sealedSegment.proc.hot.len = 1
  decide

end Evald.Store
