import Evald.Store.Key
import Evald.Lib.Frame

/-! # One WAL segment

The writer appends batches to the active segment and fsyncs a group of them at a
time; recovery reads the file back up to its first bad frame.  A `write_all` that
fails leaves the first bytes of its buffer in the file, and the next append goes
behind them.  `acked_spans_survive` is what recovery gives back: every span ACKed,
in every run in which nothing is ACKed behind a torn frame.
-/

namespace Evald.Store

open Evald.Lib

/-- How a `write_all` ended: all bytes written, or an error after `reached` of them. -/
inductive WriteResult where
  | ok
  | failed (reached : Nat)
  deriving DecidableEq, Repr

/-- The active segment.  `synced` bytes of the file are durable. -/
structure ActiveSegment where
  file : Bytes := []
  synced : Nat := 0
  activeCount : Nat := 0

/-- Append a batch without the fsync.  The flag is whether it was accepted. -/
def ActiveSegment.appendNosync (codec : FrameCodec NormalizedSpan) (wal : ActiveSegment)
    (spans : List NormalizedSpan) (write : WriteResult) : ActiveSegment × Bool :=
  if spans.isEmpty then (wal, true)
  else
    match encodeRecords codec spans with
    | none => (wal, false)
    | some buf =>
      match write with
      | .ok =>
        ({ wal with file := wal.file ++ buf, activeCount := wal.activeCount + spans.length }, true)
      | .failed reached => ({ wal with file := wal.file ++ buf.take reached }, false)

def ActiveSegment.sync (wal : ActiveSegment) : ActiveSegment :=
  { wal with synced := wal.file.length }

/-- One queued append and how its write ends. -/
structure Append where
  spans : List NormalizedSpan
  write : WriteResult

/-- One turn of the writer: the appends it drained, whether the hot tier was over its
limit, and whether the group's fsync succeeds. -/
structure CommitGroup where
  overLimit : Bool := false
  appends : List Append
  syncOk : Bool := true

/-- The segment, the spans of every batch ACKed `Ok` so far, in ACK order. -/
structure SegmentRun where
  wal : ActiveSegment := {}
  acked : List NormalizedSpan := []

/-- Phase 1: an append that fails is ACKed `Err` and excluded from the commit. -/
def appendPending (codec : FrameCodec NormalizedSpan)
    (state : ActiveSegment × List (List NormalizedSpan)) (append : Append) :
    ActiveSegment × List (List NormalizedSpan) :=
  match state.1.appendNosync codec append.spans append.write with
  | (wal, true) => (wal, state.2 ++ [append.spans])
  | (wal, false) => (wal, state.2)

/-- Phase 2: one fsync commits the whole group. -/
def writeGroup (codec : FrameCodec NormalizedSpan) (run : SegmentRun) (group : CommitGroup) :
    SegmentRun :=
  if group.overLimit then run
  else
    let (wal, pending) := group.appends.foldl (appendPending codec) (run.wal, [])
    if pending.isEmpty then { run with wal := wal }
    else if group.syncOk then { wal := wal.sync, acked := run.acked ++ pending.flatten }
    else { run with wal := wal }

def writeGroups (codec : FrameCodec NormalizedSpan) (groups : List CommitGroup) : SegmentRun :=
  groups.foldl (writeGroup codec) {}

/-- What recovery reads from a segment file, and the file it leaves. -/
def readSegment (codec : FrameCodec NormalizedSpan) (file : Bytes) :
    List NormalizedSpan × Bytes :=
  let (spans, goodLen) := decodeRecords codec file
  (spans, file.take goodLen)

/-! ## What a group leaves in the file -/

/-- One append as the file sees it. -/
structure WriteEvent where
  spans : List NormalizedSpan
  write : WriteResult
  accepted : Bool
  committed : Bool

def CommitGroup.events (group : CommitGroup) : List WriteEvent :=
  group.appends.map (fun a => ⟨a.spans, a.write, !group.overLimit, group.syncOk⟩)

/-- The failed write left part of a frame behind. -/
def TearsFrame (codec : FrameCodec NormalizedSpan) (spans : List NormalizedSpan)
    (write : WriteResult) : Prop :=
  ∃ reached buf, write = .failed reached ∧ encodeRecords codec spans = some buf ∧
    ∀ k, encodeRecords codec (spans.take k) ≠ some (buf.take reached)

/-- The batch is written whole and holds spans. -/
def Lands (codec : FrameCodec NormalizedSpan) (spans : List NormalizedSpan)
    (write : WriteResult) : Prop :=
  write = .ok ∧ (encodeRecords codec spans).isSome ∧ spans ≠ []

def WriteEvent.Torn (codec : FrameCodec NormalizedSpan) (e : WriteEvent) : Prop :=
  e.accepted = true ∧ TearsFrame codec e.spans e.write

/-- The batch is ACKed `Ok` and holds spans. -/
def WriteEvent.Acked (codec : FrameCodec NormalizedSpan) (e : WriteEvent) : Prop :=
  e.accepted = true ∧ e.committed = true ∧ Lands codec e.spans e.write

/-- No batch with spans is ACKed behind a torn frame. -/
def NothingBehindTorn (codec : FrameCodec NormalizedSpan) (groups : List CommitGroup) : Prop :=
  (groups.flatMap CommitGroup.events).Pairwise
    (fun earlier later => earlier.Torn codec → ¬ later.Acked codec)

/-- The cases of one append: it lands whole; it fails and leaves whole frames; it
tears a frame; or it holds no span. -/
theorem appendNosync_cases (codec : FrameCodec NormalizedSpan) (wal : ActiveSegment)
    (spans : List NormalizedSpan) (write : WriteResult) :
    ∃ buf, (wal.appendNosync codec spans write).1.file = wal.file ++ buf ∧
      (wal.appendNosync codec spans write).1.synced = wal.synced ∧
      (((wal.appendNosync codec spans write).2 = true ∧
          encodeRecords codec spans = some buf ∧ (Lands codec spans write ∨ spans = [])) ∨
        ((wal.appendNosync codec spans write).2 = false ∧ ¬ Lands codec spans write ∧
          ((∃ k, encodeRecords codec (spans.take k) = some buf) ∨
            TearsFrame codec spans write))) := by
  unfold ActiveSegment.appendNosync
  by_cases empty : spans = []
  · subst empty
    exact ⟨[], by simp, rfl, .inl ⟨rfl, rfl, .inr rfl⟩⟩
  · have isNonempty : ¬ spans.isEmpty = true := by simpa using empty
    rw [if_neg isNonempty]
    cases encoded : encodeRecords codec spans with
    | none =>
      have unwritten : ¬ Lands codec spans write := by
        rintro ⟨-, written, -⟩
        rw [encoded] at written
        cases written
      exact ⟨[], by simp, rfl, .inr ⟨rfl, unwritten, .inl ⟨0, rfl⟩⟩⟩
    | some buf =>
      cases write with
      | ok => exact ⟨buf, rfl, rfl, .inl ⟨rfl, rfl, .inl ⟨rfl, by rw [encoded]; rfl, empty⟩⟩⟩
      | failed reached =>
        have unwritten : ¬ Lands codec spans (.failed reached) := by
          rintro ⟨impossible, -⟩
          cases impossible
        refine ⟨buf.take reached, rfl, rfl, .inr ⟨rfl, unwritten, ?_⟩⟩
        by_cases whole : ∃ k, encodeRecords codec (spans.take k) = some (buf.take reached)
        · exact .inl whole
        · push Not at whole
          exact .inr ⟨reached, buf, rfl, encoded, whole⟩

/-- What the appends of a group do to the file: whole frames of everything that
landed, then torn bytes if a frame was torn. -/
theorem foldl_appendPending (codec : FrameCodec NormalizedSpan) (appends : List Append)
    (wal : ActiveSegment) (pending : List (List NormalizedSpan)) :
    ∃ wal' more, appends.foldl (appendPending codec) (wal, pending) = (wal', pending ++ more) ∧
      wal'.synced = wal.synced ∧ wal.file <+: wal'.file ∧
      (appends.Pairwise (fun earlier later => TearsFrame codec earlier.spans earlier.write →
          ¬ Lands codec later.spans later.write) →
        ∃ frames good rest, wal'.file = wal.file ++ (good ++ rest) ∧
          encodeRecords codec frames = some good ∧ more.flatten.Sublist frames ∧
          ((∀ a ∈ appends, ¬ TearsFrame codec a.spans a.write) → rest = [])) ∧
      (more.flatten ≠ [] → ∃ a ∈ appends, Lands codec a.spans a.write) := by
  -- on the appends: each frame lands whole, is refused at a frame's end, or is torn
  induction appends generalizing wal pending with
  | nil =>
    refine ⟨wal, [], by simp, rfl, List.prefix_rfl, fun _ => ⟨[], [], [], by simp, rfl, ?_, ?_⟩,
      fun nonempty => absurd rfl nonempty⟩
    · exact List.Sublist.slnil
    · exact fun _ => rfl
  | cons a appends inductionHypothesis =>
    obtain ⟨buf, file, synced, outcome⟩ := appendNosync_cases codec wal a.spans a.write
    rcases outcome with ⟨accepted, encoded, lands⟩ | ⟨refused, unlanded, left⟩
    · obtain ⟨wal', more, loop, sameSynced, grown, frames, nonempty⟩ :=
        inductionHypothesis (wal.appendNosync codec a.spans a.write).1 (pending ++ [a.spans])
      have stepped : appendPending codec (wal, pending) a =
          ((wal.appendNosync codec a.spans a.write).1, pending ++ [a.spans]) := by
        unfold appendPending
        split <;> simp_all
      refine ⟨wal', a.spans :: more, ?_, sameSynced.trans synced, ?_, ?_, ?_⟩
      · rw [List.foldl_cons, stepped, loop, List.append_assoc, List.singleton_append]
      · rw [file] at grown
        exact (List.prefix_append _ _).trans grown
      · intro ordered
        obtain ⟨xs, good, rest, split, whole, held, clean⟩ :=
          frames (List.pairwise_cons.mp ordered).2
        refine ⟨a.spans ++ xs, buf ++ good, rest, ?_, encodeRecords_append encoded whole, ?_, ?_⟩
        · rw [split, file]
          simp only [List.append_assoc]
        · rw [List.flatten_cons]
          exact (List.Sublist.refl _).append held
        · exact fun none => clean (fun b member => none b (List.mem_cons_of_mem _ member))
      · intro held
        rcases lands with lands | empty
        · exact ⟨a, List.mem_cons_self, lands⟩
        · rw [List.flatten_cons, empty, List.nil_append] at held
          obtain ⟨b, member, landed⟩ := nonempty held
          exact ⟨b, List.mem_cons_of_mem _ member, landed⟩
    · obtain ⟨wal', more, loop, sameSynced, grown, frames, nonempty⟩ :=
        inductionHypothesis (wal.appendNosync codec a.spans a.write).1 pending
      have stepped : appendPending codec (wal, pending) a =
          ((wal.appendNosync codec a.spans a.write).1, pending) := by
        unfold appendPending
        split <;> simp_all
      refine ⟨wal', more, by rw [List.foldl_cons, stepped, loop], sameSynced.trans synced, ?_, ?_,
        fun held => ?_⟩
      · rw [file] at grown
        exact (List.prefix_append _ _).trans grown
      · intro ordered
        obtain ⟨xs, good, rest, split, whole, held, clean⟩ :=
          frames (List.pairwise_cons.mp ordered).2
        rcases left with ⟨k, leftWhole⟩ | torn
        · refine ⟨a.spans.take k ++ xs, buf ++ good, rest, ?_,
            encodeRecords_append leftWhole whole, held.trans (List.sublist_append_right _ _), ?_⟩
          · rw [split, file]
            simp only [List.append_assoc]
          · exact fun none => clean (fun b member => none b (List.mem_cons_of_mem _ member))
        · -- nothing lands behind a torn frame, so there is nothing to hold
          have nothing : more.flatten = [] := by
            by_contra held
            obtain ⟨b, member, landed⟩ := nonempty held
            exact (List.pairwise_cons.mp ordered).1 b member torn landed
          obtain ⟨tail, tailEq⟩ := grown
          refine ⟨[], [], buf ++ tail, ?_, rfl, by rw [nothing], ?_⟩
          · rw [← tailEq, file]
            simp only [List.append_assoc, List.nil_append]
          · exact fun none => absurd torn (none a List.mem_cons_self)
      · obtain ⟨b, member, landed⟩ := nonempty held
        exact ⟨b, List.mem_cons_of_mem _ member, landed⟩

/-! ## What recovery gives back -/

/-- The durable part of the file starts with whole frames of everything ACKed, and
the file is nothing but whole frames while no frame has been torn. -/
structure SegmentInvariant (codec : FrameCodec NormalizedSpan) (events : List WriteEvent)
    (run : SegmentRun) : Prop where
  durable : ∃ frames safe rest, run.wal.file = safe ++ rest ∧
    encodeRecords codec frames = some safe ∧ run.acked.Sublist frames ∧
    safe.length ≤ run.wal.synced
  synced : run.wal.synced ≤ run.wal.file.length
  whole : (∀ e ∈ events, ¬ e.Torn codec) → ∃ frames,
    encodeRecords codec frames = some run.wal.file ∧ run.acked.Sublist frames

theorem SegmentInvariant.unchanged {codec : FrameCodec NormalizedSpan}
    {events more : List WriteEvent} {run : SegmentRun}
    (invariant : SegmentInvariant codec events run) :
    SegmentInvariant codec (events ++ more) run where
  durable := invariant.durable
  synced := invariant.synced
  whole := fun none => invariant.whole (fun e member => none e (List.mem_append_left _ member))

theorem SegmentInvariant.writeGroup {codec : FrameCodec NormalizedSpan}
    {events : List WriteEvent} {run : SegmentRun}
    (invariant : SegmentInvariant codec events run) (group : CommitGroup)
    (inOrder : group.events.Pairwise (fun earlier later =>
      earlier.Torn codec → ¬ later.Acked codec))
    (behind : ∀ earlier ∈ events, ∀ later ∈ group.events,
      earlier.Torn codec → ¬ later.Acked codec) :
    SegmentInvariant codec (events ++ group.events) (writeGroup codec run group) := by
  obtain ⟨wal', more, loop, sameSynced, grown, frames, landed⟩ :=
    foldl_appendPending codec group.appends run.wal []
  rw [List.nil_append] at loop
  by_cases limited : group.overLimit = true
  · rw [Store.writeGroup, if_pos limited]
    exact invariant.unchanged
  have accepts : (!group.overLimit) = true := by simpa using limited
  have event : ∀ a ∈ group.appends,
      (⟨a.spans, a.write, !group.overLimit, group.syncOk⟩ : WriteEvent) ∈ group.events :=
    fun a member => List.mem_map_of_mem member
  have tornEvent : ∀ a ∈ group.appends, TearsFrame codec a.spans a.write →
      ∃ e ∈ group.events, e.Torn codec :=
    fun a member torn => ⟨_, event a member, accepts, torn⟩
  have ackedEvent : group.syncOk = true → more.flatten ≠ [] →
      ∃ e ∈ group.events, e.Acked codec := by
    intro commits nonempty
    obtain ⟨a, member, lands⟩ := landed nonempty
    exact ⟨_, event a member, accepts, commits, lands⟩
  obtain ⟨tail, tailEq⟩ := grown
  -- a group that ACKs nothing only lets the file grow
  have grows : SegmentInvariant codec (events ++ group.events) { run with wal := wal' } := by
    obtain ⟨xs, safe, rest, split, encoded, held, within⟩ := invariant.durable
    refine ⟨⟨xs, safe, rest ++ tail, ?_, encoded, held, by rw [sameSynced]; exact within⟩, ?_, ?_⟩
    · dsimp only
      rw [← tailEq, split, List.append_assoc]
    · have before := invariant.synced
      have length := congrArg List.length tailEq
      rw [List.length_append] at length
      dsimp only
      omega
    · intro none
      obtain ⟨ws, wholeBefore, heldBefore⟩ :=
        invariant.whole (fun e member => none e (List.mem_append_left _ member))
      have untorn : ∀ a ∈ group.appends, ¬ TearsFrame codec a.spans a.write := by
        intro a member torn
        obtain ⟨e, eMember, eTorn⟩ := tornEvent a member torn
        exact none e (List.mem_append_right _ eMember) eTorn
      obtain ⟨ys, good, rest', split', goodEncoded, -, clean⟩ :=
        frames (List.pairwise_of_forall_mem_list
          (fun a aMember b _ torn => absurd torn (untorn a aMember)))
      refine ⟨ws ++ ys, ?_, heldBefore.trans (List.sublist_append_left _ _)⟩
      dsimp only
      rw [split', clean untorn, List.append_nil]
      exact encodeRecords_append wholeBefore goodEncoded
  rw [Store.writeGroup, if_neg limited, loop]
  dsimp only
  split
  · exact grows
  · by_cases commits : group.syncOk = true
    · rw [if_pos commits]
      have orderedAppends : group.appends.Pairwise (fun earlier later =>
          TearsFrame codec earlier.spans earlier.write →
            ¬ Lands codec later.spans later.write) := by
        rw [CommitGroup.events, List.pairwise_map] at inOrder
        exact inOrder.imp (fun apart torn lands => apart ⟨accepts, torn⟩
          ⟨accepts, commits, lands⟩)
      obtain ⟨ys, good, rest', split', goodEncoded, heldHere, clean⟩ := frames orderedAppends
      have wholeSync : (∀ e ∈ events ++ group.events, ¬ e.Torn codec) → ∃ frames,
          encodeRecords codec frames = some wal'.file ∧
            (run.acked ++ more.flatten).Sublist frames := by
        intro none
        obtain ⟨ws, wholeBefore, heldBefore⟩ :=
          invariant.whole (fun e member => none e (List.mem_append_left _ member))
        have untorn : ∀ a ∈ group.appends, ¬ TearsFrame codec a.spans a.write := by
          intro a member torn
          obtain ⟨e, eMember, eTorn⟩ := tornEvent a member torn
          exact none e (List.mem_append_right _ eMember) eTorn
        refine ⟨ws ++ ys, ?_, heldBefore.append heldHere⟩
        rw [split', clean untorn, List.append_nil]
        exact encodeRecords_append wholeBefore goodEncoded
      refine ⟨?_, le_rfl, wholeSync⟩
      by_cases nothing : more.flatten = []
      · obtain ⟨xs, safe, rest, split, encoded, held, within⟩ := invariant.durable
        refine ⟨xs, safe, rest ++ tail, ?_, encoded, ?_, ?_⟩
        · change wal'.file = _
          rw [← tailEq, split, List.append_assoc]
        · rw [nothing, List.append_nil]
          exact held
        · change safe.length ≤ wal'.file.length
          rw [← tailEq, split]
          simp only [List.length_append]
          omega
      · -- something is ACKed here, so nothing was torn before
        obtain ⟨later, laterMember, laterAcked⟩ := ackedEvent commits nothing
        have untornBefore : ∀ e ∈ events, ¬ e.Torn codec :=
          fun e member torn => behind e member later laterMember torn laterAcked
        obtain ⟨ws, wholeBefore, heldBefore⟩ := invariant.whole untornBefore
        refine ⟨ws ++ ys, run.wal.file ++ good, rest', ?_,
          encodeRecords_append wholeBefore goodEncoded, heldBefore.append heldHere, ?_⟩
        · change wal'.file = _
          rw [split', List.append_assoc]
        · change (run.wal.file ++ good).length ≤ wal'.file.length
          rw [split', ← List.append_assoc]
          simp only [List.length_append]
          omega
    · rw [if_neg commits]
      exact grows

theorem segmentInvariant_writeGroups {codec : FrameCodec NormalizedSpan}
    {groups : List CommitGroup} (clean : NothingBehindTorn codec groups) :
    SegmentInvariant codec (groups.flatMap CommitGroup.events) (writeGroups codec groups) := by
  induction groups using List.reverseRecOn with
  | nil => exact ⟨⟨[], [], [], rfl, rfl, List.Sublist.slnil, le_rfl⟩, le_rfl,
      fun _ => ⟨[], rfl, List.Sublist.slnil⟩⟩
  | append_singleton groups group inductionHypothesis =>
    have events : (groups ++ [group]).flatMap CommitGroup.events =
        groups.flatMap CommitGroup.events ++ group.events := by
      simp
    rw [NothingBehindTorn, events, List.pairwise_append] at clean
    obtain ⟨before, here, across⟩ := clean
    rw [events, writeGroups, List.foldl_concat]
    exact (inductionHypothesis before).writeGroup group here across

/-- Every ACKed span survives, in every run of a segment in which nothing is ACKed
behind a torn frame: whatever part of the file beyond the last fsync a crash takes,
recovery reads every span that was ACKed, in order. -/
theorem acked_spans_survive (codec : FrameCodec NormalizedSpan) (parses : codec.Parses)
    (groups : List CommitGroup) (clean : NothingBehindTorn codec groups) (survives : Nat)
    (durable : (writeGroups codec groups).wal.synced ≤ survives) :
    ((writeGroups codec groups).acked.map codec.readBack).Sublist
      (readSegment codec ((writeGroups codec groups).wal.file.take survives)).1 := by
  obtain ⟨frames, safe, rest, split, encoded, held, within⟩ :=
    (segmentInvariant_writeGroups clean).durable
  have kept : (writeGroups codec groups).wal.file.take survives =
      safe ++ rest.take (survives - safe.length) := by
    rw [split, List.take_append, List.take_of_length_le (within.trans durable)]
  rw [kept, readSegment, decodeRecords_append parses encoded]
  exact (held.map codec.readBack).trans (List.sublist_append_left _ _)

/-! ## A segment that was cut -/

/-- Batches appended one after the other, each write going through. -/
def appendAll (codec : FrameCodec NormalizedSpan) (batches : List (List NormalizedSpan)) :
    ActiveSegment :=
  batches.foldl (fun wal batch => (wal.appendNosync codec batch .ok).1) {}

/-- The spans of the batches that were accepted: one that has no frame refuses its batch. -/
def appendedSpans (codec : FrameCodec NormalizedSpan) (batches : List (List NormalizedSpan)) :
    List NormalizedSpan :=
  (batches.filter (fun batch => (encodeRecords codec batch).isSome)).flatten

theorem encodeRecords_appendAll (codec : FrameCodec NormalizedSpan)
    (batches : List (List NormalizedSpan)) :
    encodeRecords codec (appendedSpans codec batches) = some (appendAll codec batches).file := by
  induction batches using List.reverseRecOn with
  | nil => rfl
  | append_singleton batches batch inductionHypothesis =>
    have spans : appendedSpans codec (batches ++ [batch]) = appendedSpans codec batches ++
        (if (encodeRecords codec batch).isSome then batch else []) := by
      unfold appendedSpans
      rw [List.filter_append, List.flatten_append]
      by_cases written : (encodeRecords codec batch).isSome = true
      · simp [written]
      · simp [written]
    have wal : appendAll codec (batches ++ [batch]) =
        ((appendAll codec batches).appendNosync codec batch .ok).1 := by
      simp [appendAll]
    rw [spans, wal, ActiveSegment.appendNosync]
    by_cases empty : batch = []
    · have nothing : (if (encodeRecords codec batch).isSome then batch else []) = [] := by
        rw [empty]
        exact ite_self _
      rw [nothing, List.append_nil, if_pos (by simp [empty])]
      exact inductionHypothesis
    · have filled : ¬ batch.isEmpty = true := by simpa using empty
      rw [if_neg filled]
      cases encoded : encodeRecords codec batch with
      | none =>
        rw [if_neg (by simp), List.append_nil]
        exact inductionHypothesis
      | some buf => exact encodeRecords_append inductionHypothesis encoded

/-- A segment cut at any byte is read back as the spans whose frames lie before the cut: the
first `k`, where the frames of more spans would not fit.  The file recovery leaves is those
frames, and it reads back the same. -/
theorem readSegment_cut (codec : FrameCodec NormalizedSpan)
    (batches : List (List NormalizedSpan))
    (roundTrips : ∀ span ∈ appendedSpans codec batches, ∀ payload,
      codec.toVec span = some payload → codec.fromSlice payload = some span) (cut : Nat) :
    ∃ k good, k ≤ (appendedSpans codec batches).length ∧
      encodeRecords codec ((appendedSpans codec batches).take k) = some good ∧
      good <+: (appendAll codec batches).file ∧ good.length ≤ cut ∧
      (∀ j more, k < j → j ≤ (appendedSpans codec batches).length →
        encodeRecords codec ((appendedSpans codec batches).take j) = some more →
        cut < more.length) ∧
      decodeRecords codec ((appendAll codec batches).file.take cut) =
        ((appendedSpans codec batches).take k, good.length) ∧
      readSegment codec ((appendAll codec batches).file.take cut) =
        ((appendedSpans codec batches).take k, good) ∧
      readSegment codec good = ((appendedSpans codec batches).take k, good) := by
  obtain ⟨k, good, within, encoded, isPrefix, short, decoded, last⟩ :=
    decodeRecords_take roundTrips (encodeRecords_appendAll codec batches) cut
  -- what is read is the longest row of whole frames before the cut
  have left : ((appendAll codec batches).file.take cut).take good.length = good := by
    rw [List.take_take, Nat.min_eq_left short]
    exact (List.prefix_iff_eq_take.mp isPrefix).symm
  refine ⟨k, good, within, encoded, isPrefix, short, last, decoded, ?_, ?_⟩
  · rw [readSegment, decoded]
    exact congrArg _ left
  · -- the file that is left ends on a frame, so nothing of it is cut again
    have inList : ∀ span ∈ (appendedSpans codec batches).take k, ∀ payload,
        codec.toVec span = some payload → codec.fromSlice payload = some span :=
      fun span member => roundTrips span (List.mem_of_mem_take member)
    obtain ⟨j, again, within', encoded', -, short', decoded', last'⟩ :=
      decodeRecords_take inList encoded good.length
    have all : j = ((appendedSpans codec batches).take k).length := by
      by_contra fewer
      have := last' _ good (by omega) (Nat.le_refl _) (by rw [List.take_length]; exact encoded)
      omega
    rw [all, List.take_length] at encoded' decoded'
    rw [encoded] at encoded'
    cases encoded'
    rw [List.take_length] at decoded'
    rw [readSegment, decoded']
    exact congrArg _ (List.take_length)

/-! ### A torn header -/

/-- CRC-32 with the reflected polynomial. -/
def crc32 (bytes : Bytes) : UInt32 :=
  let shift : UInt32 → UInt32 := fun c =>
    if c &&& 1 = 1 then (0xEDB88320 : UInt32) ^^^ (c >>> 1) else c >>> 1
  let step : UInt32 → UInt8 → UInt32 := fun c b => Nat.iterate shift 8 (c ^^^ b.toUInt32)
  (bytes.foldl step 0xFFFFFFFF) ^^^ (0xFFFFFFFF : UInt32)

example : crc32 "123456789".toUTF8.data.toList = 0xCBF43926 := by decide +kernel

def plainSpan : NormalizedSpan := { traceId := "a", spanId := "1", startUnixNano := 1, endUnixNano := 2 }

/-- The JSON text of `plainSpan`. -/
def plainText : Bytes :=
  ("\x7b\"dialect\":\"unknown\",\"trace_id\":\"a\",\"span_id\":\"1\",\"name\":\"span\"," ++
    "\"otel_kind\":0,\"start_unix_nano\":1,\"end_unix_nano\":2,\"status_code\":0\x7d").toUTF8.data.toList

/-- A codec that knows one span. -/
def plainCodec : FrameCodec NormalizedSpan where
  toVec := fun _ => some plainText
  fromSlice := fun payload => if payload = plainText then some plainSpan else none
  crc := crc32
  readBack := fun _ => plainSpan

theorem plainCodec_parses : plainCodec.Parses := by
  rintro x payload written
  have same : payload = plainText := (Option.some.inj written).symm
  exact if_pos same

/-- Two spans, cut in the second frame. -/
theorem readSegment_cut_plain :
    ∃ k good, k ≤ (appendedSpans plainCodec [[plainSpan], [plainSpan]]).length ∧
      readSegment plainCodec ((appendAll plainCodec [[plainSpan], [plainSpan]]).file.take 200) =
        ((appendedSpans plainCodec [[plainSpan], [plainSpan]]).take k, good) := by
  obtain ⟨k, good, within, -, -, -, -, -, read, -⟩ :=
    readSegment_cut plainCodec [[plainSpan], [plainSpan]] (by
      intro span member payload written
      have plain : span = plainSpan := by
        have written : (encodeRecords plainCodec [plainSpan]).isSome = true := by decide +kernel
        simpa [appendedSpans, written] using member
      rw [plain]
      exact plainCodec_parses plainSpan payload written) 200
  exact ⟨k, good, within, read⟩

/-- The first write fails before a byte is out, the second is ACKed. -/
def failedThenAcked : List CommitGroup :=
  [{ appends := [⟨[plainSpan], .failed 0⟩, ⟨[plainSpan], .ok⟩] }]

theorem failedThenAcked_clean : NothingBehindTorn plainCodec failedThenAcked := by
  refine List.Pairwise.cons (fun later _ torn => ?_) (List.pairwise_singleton _ _)
  obtain ⟨-, reached, buf, failed, -, never⟩ := torn
  cases failed
  exact absurd rfl (never 0)

theorem acked_spans_survive_failedThenAcked :
    ((writeGroups plainCodec failedThenAcked).acked.map plainCodec.readBack).Sublist
      (readSegment plainCodec ((writeGroups plainCodec failedThenAcked).wal.file.take 1000)).1 :=
  acked_spans_survive plainCodec plainCodec_parses failedThenAcked failedThenAcked_clean 1000
    (by decide +kernel)

/-- The first write fails after three bytes of the frame header; the second is fsynced
and ACKed, and recovery reads none of it: the three bytes and the first byte behind
them make a length that runs past the end of the file. -/
theorem torn_header_hides_acked :
    plainCodec.Parses ∧
      let run := writeGroups plainCodec
        [{ appends := [⟨[plainSpan], .failed 3⟩] }, { appends := [⟨[plainSpan], .ok⟩] }]
      run.acked.map spanKey = [keyOf "a" "1"] ∧ run.wal.synced = run.wal.file.length ∧
        (readSegment plainCodec run.wal.file).1 = [] := by
  refine ⟨plainCodec_parses, by decide +kernel, by decide +kernel, ?_⟩
  have nothing : (readSegment plainCodec (writeGroups plainCodec
      [{ appends := [⟨[plainSpan], .failed 3⟩] },
        { appends := [⟨[plainSpan], .ok⟩] }]).wal.file).1.length = 0 := by
    decide +kernel
  exact List.eq_nil_of_length_eq_zero nothing

end Evald.Store
