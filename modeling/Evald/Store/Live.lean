import Evald.Store.TraceIndex

/-! # The running store

The writer task and the compactor of an open store, step by step: a group of
appends is written, fsynced and only then pushed to the hot tier; a seal opens the
next segment before it is published; a flush writes its blocks, commits them with
the watermark, deletes the segment file and only then drops the hot group.
`LiveInvariant` ties the tiers together and every step keeps it.
-/

namespace Evald.Store

open Evald.Lib

/-- A segment file: its records, the first `synced` of them durable. -/
structure WalFile where
  records : List NormalizedSpan := []
  synced : Nat := 0

structure Disk where
  segments : Std.ExtTreeMap Nat WalFile := ∅
  cold : ColdState := {}

namespace Disk

/-- A missing segment reads as empty. -/
def fileOf (disk : Disk) (seqno : Nat) : WalFile := disk.segments.getD seqno {}

def recordsOf (disk : Disk) (seqno : Nat) : List NormalizedSpan := (disk.fileOf seqno).records

/-- The records that a crash cannot take. -/
def syncedOf (disk : Disk) (seqno : Nat) : List NormalizedSpan :=
  (disk.recordsOf seqno).take (disk.fileOf seqno).synced

/-- The records whose fsync has not completed. -/
def unsyncedOf (disk : Disk) (seqno : Nat) : List NormalizedSpan :=
  (disk.recordsOf seqno).drop (disk.fileOf seqno).synced

def watermark (disk : Disk) : Nat := disk.cold.index.watermark

/-- `open_segment_file`: create the file, or reopen it for appending. -/
def openSegment (disk : Disk) (seqno : Nat) : Disk :=
  { disk with segments := disk.segments.insertIfNew seqno {} }

def setFile (disk : Disk) (seqno : Nat) (file : WalFile) : Disk :=
  { disk with segments := disk.segments.insert seqno file }

def deleteSegment (disk : Disk) (seqno : Nat) : Disk :=
  { disk with segments := disk.segments.erase seqno }

end Disk

/-- Appended batches with the segment each one landed in. -/
abbrev PendingAppends := List (Nat × List NormalizedSpan)

def PendingAppends.spans (pending : PendingAppends) : List NormalizedSpan :=
  pending.flatMap Prod.snd

/-- Where the writer task stands. -/
inductive Writer where
  | idle
  /-- Phase 1: written, not fsynced. -/
  | appending (pending : PendingAppends)
  /-- Phase 2: fsynced, these still to be pushed and ACKed. -/
  | pushing (pending : PendingAppends)
  /-- Rotated to the next segment, which is not published yet. -/
  | rotated

/-- Where a compaction pass stands. -/
inductive Compactor where
  | idle
  | loaded (active : Nat)
  | listed (pending : List Nat)
  | flushing (seqno : Nat) (written todo : List (BlockPath × List NormalizedSpan))
      (rest : List Nat)
  | committed (seqno : Nat) (rest : List Nat)
  | deleted (seqno : Nat) (rest : List Nat)

structure Proc where
  hot : HotTier := ∅
  /-- The writer's own segment. -/
  walActive : Nat
  /-- What the writer has published of it. -/
  activeSeqno : Nat
  writer : Writer := .idle
  compactor : Compactor := .idle

/-- An open store.  The last four fields are for the statements below: every span ever
written; those whose fsync completed; those of them that were also pushed; and the
spans of a flushed segment that a crash had spared before their fsync. -/
structure Live where
  disk : Disk
  proc : Proc
  appended : List NormalizedSpan := []
  fsynced : List NormalizedSpan := []
  settled : List NormalizedSpan := []
  flushedSurvivors : List NormalizedSpan := []

/-- Written, and not yet in the hot tier. -/
def Writer.inFlight : Writer → List NormalizedSpan
  | .appending pending => pending.spans
  | .pushing pending => pending.spans
  | _ => []

/-- Fsynced, and not yet in the hot tier. -/
def Writer.awaiting : Writer → List NormalizedSpan
  | .pushing pending => pending.spans
  | _ => []

namespace Live

/-- `append_nosync` on the active segment. -/
def append (s : Live) (pending : PendingAppends) (spans : List NormalizedSpan) : Live :=
  let file := s.disk.fileOf s.proc.walActive
  { s with
    disk := s.disk.setFile s.proc.walActive { file with records := file.records ++ spans }
    proc := { s.proc with writer := .appending (pending ++ [(s.proc.walActive, spans)]) }
    appended := s.appended ++ spans }

/-- The fsync that commits the group. -/
def sync (s : Live) (pending : PendingAppends) : Live :=
  let file := s.disk.fileOf s.proc.walActive
  { s with
    disk := s.disk.setFile s.proc.walActive { file with synced := file.records.length }
    proc := { s.proc with writer := .pushing pending }
    fsynced := s.fsynced ++ pending.spans }

/-- Insert, then ACK. -/
def push (s : Live) (seqno : Nat) (spans : List NormalizedSpan) (pending : PendingAppends) :
    Live :=
  { s with
    proc := { s.proc with hot := s.proc.hot.push seqno spans, writer := .pushing pending }
    settled := s.settled ++ spans }

/-- `seal_and_rotate`. -/
def rotate (s : Live) : Live :=
  { s with
    disk := s.disk.openSegment (s.proc.walActive + 1)
    proc := { s.proc with walActive := s.proc.walActive + 1, writer := .rotated } }

def publish (s : Live) : Live :=
  { s with proc := { s.proc with activeSeqno := s.proc.walActive, writer := .idle } }

def setCompactor (s : Live) (compactor : Compactor) : Live :=
  { s with proc := { s.proc with compactor := compactor } }

def setFiles (s : Live) (files : Files) : Live :=
  { s with disk := { s.disk with cold := { s.disk.cold with files := files } } }

/-- The sealed segments above the watermark, in order. -/
def pendingSegments (s : Live) (active : Nat) : List Nat :=
  s.proc.hot.segnos.filter (fun n => s.disk.watermark < n && n < active)

def commit (s : Live) (seqno : Nat) (blocks : List (BlockPath × List NormalizedSpan)) : Live :=
  { s with
    disk := { s.disk with
      cold := { s.disk.cold with
        index := s.disk.cold.index.commitFlush seqno
          (blocks.map (fun b => blockMeta b.1 b.2)) } }
    flushedSurvivors := s.flushedSurvivors ++ s.disk.unsyncedOf seqno }

def deleteSegment (s : Live) (seqno : Nat) : Live :=
  { s with disk := s.disk.deleteSegment seqno }

def dropSegment (s : Live) (seqno : Nat) : Live :=
  { s with proc := { s.proc with hot := s.proc.hot.dropSegment seqno } }

end Live

/-- One atomic step of the writer or the compactor.  A seal may come at any point at
which the writer is between groups. -/
inductive LiveStep : Live → Live → Prop where
  | appendFirst {s : Live} (spans : List NormalizedSpan) (pc : s.proc.writer = .idle) :
      LiveStep s (s.append [] spans)
  | appendNext {s : Live} {pending : PendingAppends} (spans : List NormalizedSpan)
      (pc : s.proc.writer = .appending pending) : LiveStep s (s.append pending spans)
  | sync {s : Live} {pending : PendingAppends} (pc : s.proc.writer = .appending pending) :
      LiveStep s (s.sync pending)
  | push {s : Live} {seqno : Nat} {spans : List NormalizedSpan} {pending : PendingAppends}
      (pc : s.proc.writer = .pushing ((seqno, spans) :: pending)) :
      LiveStep s (s.push seqno spans pending)
  | groupDone {s : Live} (pc : s.proc.writer = .pushing []) :
      LiveStep s { s with proc := { s.proc with writer := .idle } }
  | rotate {s : Live} (pc : s.proc.writer = .idle) : LiveStep s s.rotate
  | publish {s : Live} (pc : s.proc.writer = .rotated) : LiveStep s s.publish
  | loadActive {s : Live} (pc : s.proc.compactor = .idle) :
      LiveStep s (s.setCompactor (.loaded s.proc.activeSeqno))
  | listPending {s : Live} {active : Nat} (pc : s.proc.compactor = .loaded active) :
      LiveStep s (s.setCompactor (.listed (s.pendingSegments active)))
  | skipAbsent {s : Live} {seqno : Nat} {rest : List Nat}
      (pc : s.proc.compactor = .listed (seqno :: rest))
      (absent : s.proc.hot.segment seqno = none) : LiveStep s (s.setCompactor (.listed rest))
  | snapshot {s : Live} {seqno : Nat} {rest : List Nat} {spans : List NormalizedSpan}
      (pc : s.proc.compactor = .listed (seqno :: rest))
      (resident : s.proc.hot.segment seqno = some spans) :
      LiveStep s (s.setCompactor (.flushing seqno [] (flushPlan seqno spans) rest))
  | writeBlock {s : Live} {seqno : Nat} {written todo : List (BlockPath × List NormalizedSpan)}
      {block : BlockPath × List NormalizedSpan} {rest : List Nat} (priceTable : String)
      (now : Nat) (pc : s.proc.compactor = .flushing seqno written (block :: todo) rest) :
      LiveStep s ((s.setFiles (writePlanned priceTable now seqno s.disk.cold.files block)).setCompactor
        (.flushing seqno (written ++ [block]) todo rest))
  | commit {s : Live} {seqno : Nat} {written : List (BlockPath × List NormalizedSpan)}
      {rest : List Nat} (pc : s.proc.compactor = .flushing seqno written [] rest) :
      LiveStep s ((s.commit seqno written).setCompactor (.committed seqno rest))
  | deleteSegment {s : Live} {seqno : Nat} {rest : List Nat}
      (pc : s.proc.compactor = .committed seqno rest) :
      LiveStep s ((s.deleteSegment seqno).setCompactor (.deleted seqno rest))
  | dropSegment {s : Live} {seqno : Nat} {rest : List Nat}
      (pc : s.proc.compactor = .deleted seqno rest) :
      LiveStep s ((s.dropSegment seqno).setCompactor (.listed rest))
  | passDone {s : Live} (pc : s.proc.compactor = .listed []) :
      LiveStep s (s.setCompactor .idle)

/-! ## Segment files -/

namespace Disk

theorem fileOf_setFile (disk : Disk) (seqno n : Nat) (file : WalFile) :
    (disk.setFile seqno file).fileOf n = if seqno = n then file else disk.fileOf n := by
  rw [fileOf, setFile, Std.ExtTreeMap.getD_insert]
  simp only [Std.LawfulEqOrd.compare_eq_iff_eq]
  rfl

theorem fileOf_deleteSegment (disk : Disk) (seqno n : Nat) :
    (disk.deleteSegment seqno).fileOf n = if seqno = n then {} else disk.fileOf n := by
  rw [fileOf, deleteSegment, Std.ExtTreeMap.getD_erase]
  simp only [Std.LawfulEqOrd.compare_eq_iff_eq]
  rfl

/-- Opening a segment file changes no record. -/
@[simp] theorem fileOf_openSegment (disk : Disk) (seqno n : Nat) :
    (disk.openSegment seqno).fileOf n = disk.fileOf n := by
  rw [fileOf, fileOf, openSegment, Std.ExtTreeMap.getD_insertIfNew]
  split
  · next added =>
    obtain ⟨same, absent⟩ := added
    rw [Std.LawfulEqOrd.compare_eq_iff_eq] at same
    rw [← same, Std.ExtTreeMap.getD_eq_fallback absent]
  · rfl

theorem recordsOf_eq_append (disk : Disk) (n : Nat) :
    disk.recordsOf n = disk.syncedOf n ++ disk.unsyncedOf n :=
  (List.take_append_drop _ _).symm

end Disk

end Evald.Store
