import Mathlib.Algebra.BigOperators.Group.Finset.Piecewise
import Evald.Lib.Run
import Evald.Store.Query

/-! # The writer loop and the bound on the hot tier

The writer takes a group of commands off its channel, checks the bound on the hot tier once,
and writes, fsyncs and pushes the appends of the group.  A batch that is pushed first in its
group finds the tier below the bound; the others find what the ones in front of them left.
So the tier overshoots by no more than a batch where the batches of every group fit in together
(`hot_bounded_of_groups`), and by more where those of one do not and none leaves in between.
-/

namespace Evald.Store

open Evald.Lib

/-! ## The spans of the hot tier -/

theorem HotTier.len_eq_sum {hot : HotTier} {segments : Finset Nat}
    (covers : ∀ n ∈ hot.keys, n ∈ segments) :
    hot.len = ∑ n ∈ segments, (hot.spansOf n).length := by
  have entries : hot.toList.map (fun entry => entry.2.length) =
      hot.keys.map (fun n => (hot.spansOf n).length) := by
    rw [← Std.ExtTreeMap.map_fst_toList_eq_keys, List.map_map]
    refine List.map_congr_left (fun entry inside => ?_)
    have resident : hot[entry.1]? = some entry.2 :=
      Std.ExtTreeMap.mem_toList_iff_getElem?_eq_some.mp inside
    rw [Function.comp_apply, HotTier.spansOf_of_segment resident]
  have resident : ∀ n ∈ segments, n ∉ hot.keys.toFinset → (hot.spansOf n).length = 0 := by
    intro n _ absent
    rw [List.mem_toFinset, ← HotTier.segnos] at absent
    rw [HotTier.spansOf_of_segment_none (HotTier.segment_none_of_not_mem_segnos absent)]
    rfl
  rw [HotTier.len, entries, ← List.sum_toFinset _ Std.ExtTreeMap.nodup_keys]
  refine Finset.sum_subset (fun n inside => covers n ?_) resident
  exact List.mem_toFinset.mp inside

theorem HotTier.len_push (hot : HotTier) (seqno : Nat) (spans : List NormalizedSpan) :
    (hot.push seqno spans).len = hot.len + spans.length := by
  let segments := insert seqno hot.keys.toFinset
  have covers : ∀ n ∈ hot.keys, n ∈ segments := fun n inside =>
    Finset.mem_insert_of_mem (List.mem_toFinset.mpr inside)
  have covers' : ∀ n ∈ (hot.push seqno spans).keys, n ∈ segments := by
    intro n inside
    rw [HotTier.push, Std.ExtTreeMap.mem_keys, Std.ExtTreeMap.mem_insert] at inside
    rw [Finset.mem_insert, List.mem_toFinset, Std.ExtTreeMap.mem_keys]
    exact inside.imp_left (fun same => (Std.LawfulEqOrd.compare_eq_iff_eq.mp same).symm)
  have each (n : Nat) : ((hot.push seqno spans).spansOf n).length =
      (hot.spansOf n).length + if seqno = n then spans.length else 0 := by
    rw [HotTier.spansOf_push]
    split <;> simp
  rw [HotTier.len_eq_sum covers', HotTier.len_eq_sum covers]
  simp only [each, Finset.sum_add_distrib, Finset.sum_ite_eq]
  rw [if_pos (Finset.mem_insert_self _ _)]

theorem HotTier.len_dropSegment_le (hot : HotTier) (seqno : Nat) :
    (hot.dropSegment seqno).len ≤ hot.len := by
  have covers : ∀ n ∈ hot.keys, n ∈ hot.keys.toFinset := fun n inside =>
    List.mem_toFinset.mpr inside
  have covers' : ∀ n ∈ (hot.dropSegment seqno).keys, n ∈ hot.keys.toFinset := by
    intro n inside
    rw [HotTier.dropSegment, Std.ExtTreeMap.mem_keys, Std.ExtTreeMap.mem_erase] at inside
    exact covers n (Std.ExtTreeMap.mem_keys.mpr inside.2)
  rw [HotTier.len_eq_sum covers', HotTier.len_eq_sum covers]
  refine Finset.sum_le_sum (fun n _ => ?_)
  rw [HotTier.spansOf_dropSegment]
  split <;> simp

/-! ## The loop -/

inductive Cmd where
  | append (spans : List NormalizedSpan) (ack : Nat)
  | seal (ack : Nat)

def Cmd.isSeal : Cmd → Bool
  | .seal _ => true
  | .append _ _ => false

/-- What a caller is told. -/
inductive Reply where
  | ok
  | backpressure
  | io
  deriving DecidableEq

/-- An append that is written: its segment, its spans and its caller. -/
structure PendingAppend where
  seqno : Nat
  spans : List NormalizedSpan
  ack : Nat

/-- Where the writer stands in its loop. -/
inductive LoopTask where
  | receiving
  /-- Draining what else is queued. -/
  | draining (cmds : List Cmd)
  /-- Phase 1, with the answer of the check on the bound. -/
  | appending (overLimit : Bool) (cmds : List Cmd) (pending : List PendingAppend)
      (sealAck : Option Nat)
  /-- Phase 2 behind the fsync; `pushed` of the group are in the hot tier. -/
  | pushing (pushed : Nat) (pending : List PendingAppend) (sealAck : Option Nat)
  /-- Behind the group: the segment is sealed when it is full. -/
  | grouped (sealAck : Option Nat)
  | sealing (sealAck : Option Nat)

structure WriterLoop where
  rx : List Cmd := []
  task : LoopTask := .receiving
  walActive : Nat
  activeCount : Nat := 0
  hot : HotTier
  rejections : Nat := 0
  ingested : Nat := 0
  replies : List (Nat × Reply) := []
  /-- The batches accepted so far, for the statements below. -/
  accepted : List (List NormalizedSpan) := []

def groupCommitMax : Nat := 128

/-- What happens next: to the writer, in its channel or in the compactor. -/
inductive LoopEvent where
  | send (cmd : Cmd)
  | receive
  | drain
  | check
  /-- The next command of phase 1; an append is written unless the file refuses it. -/
  | process (written : Bool)
  | commit (synced : Bool)
  | push
  | finish
  | sealFull (rotated : Bool)
  | sealNow (rotated : Bool)
  | flush (seqno : Nat)

namespace WriterLoop

/-- No more is drained behind a seal, past the cap or from an empty channel. -/
def drained (s : WriterLoop) (cmds : List Cmd) : Bool :=
  groupCommitMax ≤ cmds.length || cmds.getLast?.any Cmd.isSeal || s.rx.isEmpty

def rotate (s : WriterLoop) : WriterLoop :=
  { s with walActive := s.walActive + 1, activeCount := 0 }

variable (sealThreshold maxHotSpans : Nat)

/-- Phase 1 of one command. -/
def processOne (s : WriterLoop) (overLimit written : Bool) (cmd : Cmd) (cmds : List Cmd)
    (pending : List PendingAppend) (sealAck : Option Nat) : WriterLoop :=
  match cmd with
  | .seal ack => { s with task := .appending overLimit cmds pending (some ack) }
  | .append spans ack =>
    if overLimit then
      { s with
        task := .appending overLimit cmds pending sealAck
        rejections := s.rejections + spans.length
        replies := s.replies ++ [(ack, .backpressure)] }
    else if written then
      { s with
        task := .appending overLimit cmds
          (pending ++ [{ seqno := s.walActive, spans := spans, ack := ack }]) sealAck
        activeCount := s.activeCount + spans.length }
    else
      { s with
        task := .appending overLimit cmds pending sealAck
        replies := s.replies ++ [(ack, .io)] }

/-- Insert, then ACK. -/
def pushOne (s : WriterLoop) (pushed : Nat) (next : PendingAppend) (pending : List PendingAppend)
    (sealAck : Option Nat) : WriterLoop :=
  { s with
    task := .pushing (pushed + 1) pending sealAck
    hot := s.hot.push next.seqno next.spans
    ingested := s.ingested + next.spans.length
    replies := s.replies ++ [(next.ack, .ok)]
    accepted := s.accepted ++ [next.spans] }

def step (s : WriterLoop) (event : LoopEvent) : Option WriterLoop :=
  match event, s.task with
  | .send cmd, _ => some { s with rx := s.rx ++ [cmd] }
  | .flush seqno, _ => some { s with hot := s.hot.dropSegment seqno }
  | .receive, .receiving =>
    match s.rx with
    | first :: rx => some { s with rx := rx, task := .draining [first] }
    | [] => none
  | .drain, .draining cmds =>
    match s.rx with
    | cmd :: rx => if s.drained cmds then none
      else some { s with rx := rx, task := .draining (cmds ++ [cmd]) }
    | [] => none
  | .check, .draining cmds =>
    if s.drained cmds then
      some { s with
        task := .appending (maxHotSpans ≠ 0 && maxHotSpans ≤ s.hot.len) cmds [] none }
    else none
  | .process written, .appending overLimit (cmd :: cmds) pending sealAck =>
    some (s.processOne overLimit written cmd cmds pending sealAck)
  | .commit synced, .appending _ [] pending sealAck =>
    if pending.isEmpty then some { s with task := .sealing sealAck }
    else if synced then some { s with task := .pushing 0 pending sealAck }
    else
      some { s with
        task := .grouped sealAck
        replies := s.replies ++ pending.map (fun p => (p.ack, .io)) }
  | .push, .pushing pushed (next :: pending) sealAck =>
    some (s.pushOne pushed next pending sealAck)
  | .finish, .pushing _ [] sealAck => some { s with task := .grouped sealAck }
  | .sealFull rotated, .grouped sealAck =>
    let s := { s with task := .sealing sealAck }
    some (if sealThreshold ≤ s.activeCount && rotated then s.rotate else s)
  | .sealNow _, .sealing none => some { s with task := .receiving }
  | .sealNow rotated, .sealing (some ack) =>
    let s := { s with task := .receiving }
    some (if s.activeCount = 0 then { s with replies := s.replies ++ [(ack, .ok)] }
      else if rotated then { s.rotate with replies := s.replies ++ [(ack, .ok)] }
      else { s with replies := s.replies ++ [(ack, .io)] })
  | _, _ => none

/-- A run: each event happens where it can. -/
def run (s : WriterLoop) (events : List LoopEvent) : Option WriterLoop :=
  events.foldlM (step sealThreshold maxHotSpans) s

/-! ## The bound -/

/-- The size of the largest batch accepted so far. -/
def largest (s : WriterLoop) : Nat := (s.accepted.map List.length).foldr max 0

/-- The contract: below the bound, save for one accepted batch. -/
def HotBounded (s : WriterLoop) : Prop := s.hot.len ≤ maxHotSpans - 1 + s.largest

/-- Before the first push of a group the answer of the check still holds, and a group that
was over the limit has nothing to push. -/
def Checked (s : WriterLoop) : Prop :=
  match s.task with
  | .appending overLimit _ pending _ =>
    if overLimit then pending = [] else s.hot.len < maxHotSpans
  | .pushing pushed _ _ => pushed = 0 → s.hot.len < maxHotSpans
  | _ => True

structure LoopStarts (s : WriterLoop) : Prop where
  receiving : s.task = .receiving
  noneAccepted : s.accepted = []
  below : s.hot.len < maxHotSpans

/-- Beside `resident` spans and behind batches of `before` at most, the batches of a group are
together no more than the bound and the largest of them all, as far as there are two. -/
def GroupFits (resident before : Nat) (sizes : List Nat) : Prop :=
  ∀ front, front <+: sizes → 2 ≤ front.length →
    resident + front.sum ≤ maxHotSpans - 1 + max before (front.foldr max 0)

def sizesOf (pending : List PendingAppend) : List Nat := pending.map (·.spans.length)

/-- The batches of a group that is committed fit in. -/
def GroupMeets (s : WriterLoop) (event : LoopEvent) : Prop :=
  match event, s.task with
  | .commit true, .appending _ [] pending _ =>
    GroupFits maxHotSpans s.hot.len s.largest (sizesOf pending)
  | _, _ => True

/-- The rest of a group that is written: its commit and its pushes. -/
def commitGroup (s : WriterLoop) : List LoopEvent :=
  match s.task with
  | .appending _ [] pending _ => .commit true :: List.replicate pending.length .push
  | _ => []

/-- The pushes of a group go on from what was resident when it was committed. -/
def Behind (s : WriterLoop) : Prop :=
  match s.task with
  | .pushing pushed pending _ =>
    ∃ resident before done, done.length = pushed ∧ resident < maxHotSpans ∧
      s.hot.len ≤ resident + done.sum ∧ s.largest = max before (done.foldr max 0) ∧
      GroupFits maxHotSpans resident before (done ++ sizesOf pending)
  | _ => True

variable {sealThreshold maxHotSpans : Nat} {s s' : WriterLoop} {event : LoopEvent}

theorem foldr_max_concat (sizes : List Nat) (size : Nat) :
    (sizes ++ [size]).foldr max 0 = max (sizes.foldr max 0) size := by
  induction sizes with
  | nil => simp
  | cons first sizes inductionHypothesis =>
    rw [List.cons_append, List.foldr_cons, inductionHypothesis, List.foldr_cons, max_assoc]

theorem checked_appending {overLimit : Bool} {cmds : List Cmd} {pending : List PendingAppend}
    {sealAck : Option Nat} (running : s.task = .appending overLimit cmds pending sealAck) :
    s.Checked maxHotSpans ↔ if overLimit then pending = [] else s.hot.len < maxHotSpans := by
  simp only [Checked, running]

/-- The check is not spoilt by what leaves the tier. -/
theorem Checked.anti (checked : s.Checked maxHotSpans) (same : s'.task = s.task)
    (smaller : s'.hot.len ≤ s.hot.len) : s'.Checked maxHotSpans := by
  unfold Checked at checked ⊢
  rw [same]
  split
  · rename_i running
    rw [running] at checked
    simp only at checked
    split
    · simp_all
    · simp_all
      omega
  · rename_i running
    rw [running] at checked
    intro first
    exact smaller.trans_lt (checked first)
  · trivial

@[simp] theorem rotate_hot (s : WriterLoop) : s.rotate.hot = s.hot := rfl

@[simp] theorem rotate_accepted (s : WriterLoop) : s.rotate.accepted = s.accepted := rfl

@[simp] theorem rotate_task (s : WriterLoop) : s.rotate.task = s.task := rfl

section ProcessOne

variable (s : WriterLoop) (overLimit written : Bool) (cmd : Cmd) (cmds : List Cmd)
  (pending : List PendingAppend) (sealAck : Option Nat)

@[simp] theorem processOne_hot :
    (s.processOne overLimit written cmd cmds pending sealAck).hot = s.hot := by
  unfold processOne
  split
  · rfl
  · split
    · rfl
    · split <;> rfl

@[simp] theorem processOne_accepted :
    (s.processOne overLimit written cmd cmds pending sealAck).accepted = s.accepted := by
  unfold processOne
  split
  · rfl
  · split
    · rfl
    · split <;> rfl

/-- A group over the limit gets nothing to push. -/
theorem processOne_task : ∃ pending' sealAck',
    (s.processOne overLimit written cmd cmds pending sealAck).task =
      .appending overLimit cmds pending' sealAck' ∧ (overLimit = true → pending' = pending) := by
  match cmd with
  | .seal ack => exact ⟨pending, some ack, rfl, fun _ => rfl⟩
  | .append spans ack =>
    cases overLimit with
    | true => exact ⟨pending, sealAck, rfl, fun _ => rfl⟩
    | false =>
      cases written with
      | true => exact ⟨_, sealAck, rfl, fun impossible => by simp at impossible⟩
      | false => exact ⟨pending, sealAck, rfl, fun _ => rfl⟩

end ProcessOne

/-- An event that neither pushes nor flushes leaves the tier alone, and what the check said
stays true of it. -/
theorem quiet_step (notPush : event ≠ .push) (notFlush : ∀ seqno, event ≠ .flush seqno)
    (stepped : s.step sealThreshold maxHotSpans event = some s') :
    s'.hot = s.hot ∧ s'.accepted = s.accepted ∧
      (0 < maxHotSpans → s.Checked maxHotSpans → s'.Checked maxHotSpans) := by
  cases event with
  | push => exact absurd rfl notPush
  | flush seqno => exact absurd rfl (notFlush seqno)
  | send cmd =>
    simp only [step, Option.some.injEq] at stepped
    subst stepped
    exact ⟨rfl, rfl, fun _ checked => checked⟩
  | receive =>
    unfold step at stepped
    split at stepped <;> try contradiction
    split at stepped
    · simp only [Option.some.injEq] at stepped
      subst stepped
      exact ⟨rfl, rfl, fun _ _ => trivial⟩
    · contradiction
  | drain =>
    unfold step at stepped
    split at stepped <;> try contradiction
    split at stepped
    · split at stepped
      · contradiction
      · simp only [Option.some.injEq] at stepped
        subst stepped
        exact ⟨rfl, rfl, fun _ _ => trivial⟩
    · contradiction
  | check =>
    unfold step at stepped
    split at stepped <;> try contradiction
    split at stepped
    · simp only [Option.some.injEq] at stepped
      subst stepped
      -- the limit is read here, once for the group
      refine ⟨rfl, rfl, fun above _ => ?_⟩
      show if _ then _ else _
      split
      · rfl
      · rename_i below
        simp at below
        exact below (by omega)
    · contradiction
  | process written =>
    unfold step at stepped
    split at stepped <;> try contradiction
    rename_i written overLimit cmd cmds pending sealAck _ running
    simp only [Option.some.injEq] at stepped
    subst stepped
    refine ⟨processOne_hot .., processOne_accepted .., fun _ checked => ?_⟩
    obtain ⟨pending', sealAck', task, same⟩ :=
      s.processOne_task overLimit written cmd cmds pending sealAck
    rw [checked_appending running] at checked
    rw [checked_appending task, processOne_hot]
    -- over the limit nothing joins the group, and below it the tier is as it was
    cases overLimit with
    | true =>
      rw [same rfl]
      exact checked
    | false => exact checked
  | commit synced =>
    unfold step at stepped
    split at stepped <;> try contradiction
    rename_i overLimit pending sealAck _ running
    split at stepped
    · simp only [Option.some.injEq] at stepped
      subst stepped
      exact ⟨rfl, rfl, fun _ _ => trivial⟩
    · rename_i written
      split at stepped
      · simp only [Option.some.injEq] at stepped
        subst stepped
        refine ⟨rfl, rfl, fun _ checked _ => ?_⟩
        rw [checked_appending running] at checked
        -- a group over the limit has nothing to push
        split at checked
        · exact absurd (by rw [checked]; rfl) written
        · exact checked
      · simp only [Option.some.injEq] at stepped
        subst stepped
        exact ⟨rfl, rfl, fun _ _ => trivial⟩
  | finish =>
    unfold step at stepped
    split at stepped <;> try contradiction
    simp only [Option.some.injEq] at stepped
    subst stepped
    exact ⟨rfl, rfl, fun _ _ => trivial⟩
  | sealFull rotated =>
    unfold step at stepped
    split at stepped <;> try contradiction
    simp only [Option.some.injEq] at stepped
    subst stepped
    split <;> exact ⟨rfl, rfl, fun _ _ => trivial⟩
  | sealNow rotated =>
    unfold step at stepped
    split at stepped <;> try contradiction
    · simp only [Option.some.injEq] at stepped
      subst stepped
      exact ⟨rfl, rfl, fun _ _ => trivial⟩
    · simp only [Option.some.injEq] at stepped
      subst stepped
      split
      · exact ⟨rfl, rfl, fun _ _ => trivial⟩
      · split <;> exact ⟨rfl, rfl, fun _ _ => trivial⟩

theorem push_step (stepped : s.step sealThreshold maxHotSpans .push = some s') :
    ∃ pushed next pending sealAck, s.task = .pushing pushed (next :: pending) sealAck ∧
      s' = s.pushOne pushed next pending sealAck := by
  unfold step at stepped
  split at stepped <;> try contradiction
  rename_i pushed next pending sealAck _ running
  simp only [Option.some.injEq] at stepped
  exact ⟨pushed, next, pending, sealAck, running, stepped.symm⟩

theorem checked_step (above : 0 < maxHotSpans) (checked : s.Checked maxHotSpans)
    (stepped : s.step sealThreshold maxHotSpans event = some s') : s'.Checked maxHotSpans := by
  by_cases pushes : event = .push
  · subst pushes
    obtain ⟨pushed, next, pending, sealAck, _, rfl⟩ := push_step stepped
    intro impossible
    simp at impossible
  · by_cases flushes : ∃ seqno, event = .flush seqno
    · obtain ⟨seqno, rfl⟩ := flushes
      simp only [step, Option.some.injEq] at stepped
      subst stepped
      exact checked.anti rfl (s.hot.len_dropSegment_le seqno)
    · exact (quiet_step pushes (by simpa using flushes) stepped).2.2 above checked

theorem run_concat {front : List LoopEvent} (events : s.run sealThreshold maxHotSpans
    (front ++ [event]) = some s') : ∃ middle, s.run sealThreshold maxHotSpans front = some middle ∧
      middle.step sealThreshold maxHotSpans event = some s' := by
  rw [run, List.foldlM_append, Option.bind_eq_bind, Option.bind_eq_some_iff] at events
  obtain ⟨middle, before, after⟩ := events
  exact ⟨middle, before, by simpa using after⟩

theorem checked_run (above : 0 < maxHotSpans) (starts : s.LoopStarts maxHotSpans)
    {events : List LoopEvent} (ran : s.run sealThreshold maxHotSpans events = some s') :
    s'.Checked maxHotSpans := by
  induction events using List.reverseRecOn generalizing s' with
  | nil =>
    simp only [run, List.foldlM_nil, Option.pure_def, Option.some.injEq] at ran
    rw [← ran]
    simp only [Checked, starts.receiving]
  | append_singleton front event inductionHypothesis =>
    obtain ⟨middle, before, stepped⟩ := run_concat ran
    exact checked_step above (inductionHypothesis before) stepped

@[simp] theorem pushOne_hot_len (s : WriterLoop) (pushed : Nat) (next : PendingAppend)
    (pending : List PendingAppend) (sealAck : Option Nat) :
    (s.pushOne pushed next pending sealAck).hot.len = s.hot.len + next.spans.length :=
  HotTier.len_push ..

@[simp] theorem pushOne_largest (s : WriterLoop) (pushed : Nat) (next : PendingAppend)
    (pending : List PendingAppend) (sealAck : Option Nat) :
    (s.pushOne pushed next pending sealAck).largest = max s.largest next.spans.length := by
  show ((s.accepted ++ [next.spans]).map List.length).foldr max 0 = _
  rw [List.map_append, List.map_singleton, foldr_max_concat]
  rfl

theorem behind_pushing {pushed : Nat} {pending : List PendingAppend} {sealAck : Option Nat}
    (running : s.task = .pushing pushed pending sealAck) :
    s.Behind maxHotSpans ↔ ∃ resident before done, done.length = pushed ∧
      resident < maxHotSpans ∧ s.hot.len ≤ resident + done.sum ∧
      s.largest = max before (done.foldr max 0) ∧
      GroupFits maxHotSpans resident before (done ++ sizesOf pending) := by
  simp only [Behind, running]

/-- A group begins to be pushed at its commit only. -/
theorem pushing_of_step {pushed : Nat} {pending : List PendingAppend} {sealAck : Option Nat}
    (stepped : s.step sealThreshold maxHotSpans event = some s')
    (running : s'.task = .pushing pushed pending sealAck) :
    event = .push ∨ s.task = s'.task ∨
      (pushed = 0 ∧ event = .commit true ∧
        ∃ overLimit, s.task = .appending overLimit [] pending sealAck ∧ pending ≠ []) := by
  -- only a commit that was synced starts pushing; every other event leaves the task or ends it
  cases event with
  | push => exact .inl rfl
  | flush seqno =>
    simp only [step, Option.some.injEq] at stepped
    rw [← stepped]
    exact .inr (.inl rfl)
  | send cmd =>
    simp only [step, Option.some.injEq] at stepped
    rw [← stepped]
    exact .inr (.inl rfl)
  | receive =>
    unfold step at stepped
    split at stepped <;> try contradiction
    split at stepped
    · cases stepped
      cases running
    · contradiction
  | drain =>
    unfold step at stepped
    split at stepped <;> try contradiction
    split at stepped
    · split at stepped
      · contradiction
      · cases stepped
        cases running
    · contradiction
  | check =>
    unfold step at stepped
    split at stepped <;> try contradiction
    split at stepped
    · cases stepped
      cases running
    · contradiction
  | process written =>
    unfold step at stepped
    split at stepped <;> try contradiction
    rename_i written overLimit cmd cmds pending' sealAck' _ _
    cases stepped
    obtain ⟨pending'', sealAck'', task, -⟩ :=
      s.processOne_task overLimit written cmd cmds pending' sealAck'
    rw [task] at running
    cases running
  | commit synced =>
    unfold step at stepped
    split at stepped <;> try contradiction
    rename_i sent overLimit pending' sealAck' same before
    cases same
    split at stepped
    · cases stepped
      cases running
    · rename_i written
      split at stepped
      · rename_i done
        cases stepped
        cases running
        -- the whole group is still to be pushed
        refine .inr (.inr ⟨rfl, by rw [done], overLimit, before, ?_⟩)
        rwa [List.isEmpty_iff] at written
      · cases stepped
        cases running
  | finish =>
    unfold step at stepped
    split at stepped <;> try contradiction
    cases stepped
    cases running
  | sealFull rotated =>
    unfold step at stepped
    split at stepped <;> try contradiction
    cases stepped
    split at running <;> cases running
  | sealNow rotated =>
    unfold step at stepped
    split at stepped <;> try contradiction
    · cases stepped
      cases running
    · cases stepped
      split at running
      · cases running
      · split at running <;> cases running

/-- Only a push adds to the tier. -/
theorem calm_step (notPush : event ≠ .push)
    (stepped : s.step sealThreshold maxHotSpans event = some s') :
    s'.hot.len ≤ s.hot.len ∧ s'.accepted = s.accepted := by
  by_cases flushes : ∃ seqno, event = .flush seqno
  · obtain ⟨seqno, rfl⟩ := flushes
    simp only [step, Option.some.injEq] at stepped
    subst stepped
    exact ⟨s.hot.len_dropSegment_le seqno, rfl⟩
  · obtain ⟨hot, accepted, _⟩ := quiet_step notPush (by simpa using flushes) stepped
    rw [hot]
    exact ⟨le_rfl, accepted⟩

theorem behind_step (checked : s.Checked maxHotSpans) (behind : s.Behind maxHotSpans)
    (meets : s.GroupMeets maxHotSpans event)
    (stepped : s.step sealThreshold maxHotSpans event = some s') : s'.Behind maxHotSpans := by
  cases task : s'.task with
  | pushing pushed pending sealAck =>
    rw [behind_pushing task]
    -- one more batch of the group, or the commit that begins it
    by_cases pushes : event = .push
    · subst pushes
      obtain ⟨pushed', next, pending', sealAck', running, rfl⟩ := push_step stepped
      cases task
      obtain ⟨resident, before, done, count, below, residents, largest, fits⟩ :=
        (behind_pushing running).mp behind
      refine ⟨resident, before, done ++ [next.spans.length], by simp [count], below, ?_, ?_, ?_⟩
      · rw [pushOne_hot_len, List.sum_append, List.sum_singleton]
        omega
      · rw [pushOne_largest, foldr_max_concat, largest, max_assoc]
      · rw [List.append_assoc]
        exact fits
    · obtain ⟨smaller, accepted⟩ := calm_step pushes stepped
      obtain isPush | same | ⟨first, isCommit, overLimit, running, written⟩ :=
        pushing_of_step stepped task
      · exact absurd isPush pushes
      · rw [task] at same
        obtain ⟨resident, before, done, count, below, residents, largest, fits⟩ :=
          (behind_pushing same).mp behind
        have kept : s'.largest = s.largest := by rw [WriterLoop.largest, accepted]; rfl
        exact ⟨resident, before, done, count, below, smaller.trans residents, kept.trans largest,
          fits⟩
      -- the check found room, and nothing was pushed since
      · subst isCommit
        rw [checked_appending running] at checked
        have below : s.hot.len < maxHotSpans := by
          split at checked
          · exact absurd checked written
          · exact checked
        have kept : s'.largest = s.largest := by rw [WriterLoop.largest, accepted]; rfl
        have fits : GroupFits maxHotSpans s.hot.len s.largest (sizesOf pending) := by
          simpa only [GroupMeets, running] using meets
        exact ⟨s.hot.len, s.largest, [], first.symm, below, smaller, by simp [kept], fits⟩
  | receiving => simp only [Behind, task]
  | draining cmds => simp only [Behind, task]
  | appending overLimit cmds pending sealAck => simp only [Behind, task]
  | grouped sealAck => simp only [Behind, task]
  | sealing sealAck => simp only [Behind, task]

/-- One more event keeps the bound, behind groups that fit in. -/
theorem hotBounded_step (behind : s.Behind maxHotSpans) (bounded : s.HotBounded maxHotSpans)
    (stepped : s.step sealThreshold maxHotSpans event = some s') : s'.HotBounded maxHotSpans := by
  unfold HotBounded at bounded ⊢
  by_cases pushes : event = .push
  · subst pushes
    obtain ⟨pushed, next, pending, sealAck, running, rfl⟩ := push_step stepped
    obtain ⟨resident, before, done, count, below, residents, largest, fits⟩ :=
      (behind_pushing running).mp behind
    rw [pushOne_hot_len, pushOne_largest]
    -- the first batch finds the tier below the limit; for a later one the group fits in
    cases done with
    | nil =>
      rw [List.sum_nil] at residents
      omega
    | cons size done =>
      have together := fits (size :: done ++ [next.spans.length])
        (by simp [sizesOf, List.prefix_append_right_inj]) (by simp)
      rw [foldr_max_concat, List.sum_append, List.sum_singleton] at together
      omega
  · obtain ⟨smaller, accepted⟩ := calm_step pushes stepped
    have kept : s'.largest = s.largest := by rw [WriterLoop.largest, accepted]; rfl
    omega

/-- The pushes of a group, none leaving in between. -/
theorem run_pushes {pending : List PendingAppend} {sealAck : Option Nat} {pushed : Nat}
    (running : s.task = .pushing pushed pending sealAck) {k : Nat} (few : k ≤ pending.length) :
    ∃ s', s.run sealThreshold maxHotSpans (List.replicate k .push) = some s' ∧
      s'.task = .pushing (pushed + k) (pending.drop k) sealAck ∧
      s'.hot.len = s.hot.len + ((sizesOf pending).take k).sum ∧
      s'.largest = max s.largest (((sizesOf pending).take k).foldr max 0) := by
  -- on the number of pushes: each takes the next batch of the group
  induction k with
  | zero => exact ⟨s, rfl, running, by simp, by simp⟩
  | succ k inductionHypothesis =>
    obtain ⟨middle, ran, task, residents, largest⟩ := inductionHypothesis (by omega)
    obtain ⟨next, more⟩ : ∃ next, pending.drop k = next :: pending.drop (k + 1) :=
      ⟨pending[k], (List.drop_eq_getElem_cons (by omega))⟩
    have sizes : (sizesOf pending).take (k + 1) =
        (sizesOf pending).take k ++ [next.spans.length] := by
      have first : (pending.drop k).head? = some next := by rw [more]; rfl
      rw [List.head?_drop] at first
      rw [List.take_add_one, sizesOf, List.getElem?_map, first]
      rfl
    rw [more] at task
    refine ⟨middle.pushOne (pushed + k) next (pending.drop (k + 1)) sealAck, ?_, rfl, ?_, ?_⟩
    · rw [List.replicate_succ', run, List.foldlM_append, ← run, ran]
      simp [step, task]
    · rw [pushOne_hot_len, residents, sizes, List.sum_append, List.sum_singleton]
      omega
    · rw [pushOne_largest, largest, sizes, foldr_max_concat, max_assoc]

theorem run_append (front back : List LoopEvent) :
    s.run sealThreshold maxHotSpans (front ++ back) =
      (s.run sealThreshold maxHotSpans front).bind
        (fun middle => middle.run sealThreshold maxHotSpans back) := by
  unfold run
  rw [List.foldlM_append]
  rfl

theorem behind_run (above : 0 < maxHotSpans) (starts : s.LoopStarts maxHotSpans)
    {events : List LoopEvent}
    (met : StepsMeet (fun front event => ∀ s', s.run sealThreshold maxHotSpans front = some s' →
      s'.GroupMeets maxHotSpans event) events) :
    ∀ s', s.run sealThreshold maxHotSpans events = some s' →
      s'.Behind maxHotSpans ∧ s'.HotBounded maxHotSpans := by
  -- on the run from its end: the last event was met in the state the others reach
  induction events using List.reverseRecOn with
  | nil =>
    intro s' ran
    simp only [run, List.foldlM_nil, Option.pure_def, Option.some.injEq] at ran
    subst ran
    have below := starts.below
    refine ⟨by simp only [Behind, starts.receiving], ?_⟩
    show s.hot.len ≤ maxHotSpans - 1 + s.largest
    omega
  | append_singleton front event inductionHypothesis =>
    intro s' ran
    obtain ⟨middle, before, stepped⟩ := run_concat ran
    obtain ⟨behind, bounded⟩ := inductionHypothesis
      (fun front' a inside => met front' a (inside.trans (List.prefix_append _ _))) middle before
    have meets := met front event List.prefix_rfl middle before
    exact ⟨behind_step (checked_run above starts before) behind meets stepped,
      hotBounded_step behind bounded stepped⟩

/-- A committed group whose batches are pushed one behind the other keeps the bound exactly
where they fit in. -/
theorem commitGroup_bounded_iff (checked : s.Checked maxHotSpans)
    (bounded : s.HotBounded maxHotSpans) :
    (∀ front, front <+: s.commitGroup → ∀ s', s.run sealThreshold maxHotSpans front = some s' →
      s'.HotBounded maxHotSpans) ↔ s.GroupMeets maxHotSpans (.commit true) := by
  have here (s' : WriterLoop) (ran : s.run sealThreshold maxHotSpans [] = some s') :
      s'.HotBounded maxHotSpans := by
    simp only [run, List.foldlM_nil, Option.pure_def, Option.some.injEq] at ran
    rwa [← ran]
  by_cases ready : ∃ overLimit pending sealAck,
      s.task = .appending overLimit [] pending sealAck ∧ pending ≠ []
  · obtain ⟨overLimit, pending, sealAck, task, written⟩ := ready
    have below : s.hot.len < maxHotSpans := by
      rw [checked_appending task] at checked
      split at checked
      · exact absurd checked written
      · exact checked
    have group : s.commitGroup = .commit true :: List.replicate pending.length .push := by
      simp only [commitGroup, task]
    have meets : s.GroupMeets maxHotSpans (.commit true) ↔
        GroupFits maxHotSpans s.hot.len s.largest (sizesOf pending) := by
      simp only [GroupMeets, task]
    -- the group, up to its k-th push
    have pushes {k : Nat} (few : k ≤ pending.length) : ∃ s', s.run sealThreshold maxHotSpans
        (.commit true :: List.replicate k .push) = some s' ∧
          (s'.HotBounded maxHotSpans ↔ s.hot.len + ((sizesOf pending).take k).sum ≤
            maxHotSpans - 1 + max s.largest (((sizesOf pending).take k).foldr max 0)) := by
      obtain ⟨s', ran, -, residents, largest⟩ := @run_pushes sealThreshold maxHotSpans
        { s with task := .pushing 0 pending sealAck } pending sealAck 0 rfl k few
      refine ⟨s', ?_, ?_⟩
      · rw [← ran, run, List.foldlM_cons]
        have isWritten : pending.isEmpty = false := by simpa using written
        simp [step, task, isWritten, run]
      · rw [HotBounded, residents, largest]
        rfl
    rw [group, meets]
    -- a front of the group is the commit and some pushes
    constructor
    · intro always front inside two
      have few : front.length ≤ pending.length := by
        have short := inside.length_le
        rwa [sizesOf, List.length_map] at short
      obtain ⟨s', ran, sizes⟩ := pushes few
      rw [← List.prefix_iff_eq_take.mp inside] at sizes
      refine sizes.mp (always _ ?_ s' ran)
      rw [List.cons_prefix_cons, List.prefix_replicate_iff]
      exact ⟨rfl, by simpa using few, by simp⟩
    · intro fits front inside s' ran
      cases front with
      | nil => exact here s' ran
      | cons event front =>
        rw [List.cons_prefix_cons, List.prefix_replicate_iff] at inside
        obtain ⟨rfl, few, same⟩ := inside
        obtain ⟨s'', ran', sizes⟩ := pushes few
        rw [same, ran'] at ran
        cases ran
        rw [sizes]
        have inGroup := List.take_prefix front.length (sizesOf pending)
        -- no push, one push below the limit, or a front of two batches that fits in
        match count : front.length with
        | 0 =>
          unfold HotBounded at bounded
          simp
          omega
        | 1 =>
          cases sized : sizesOf pending with
          | nil => simp; omega
          | cons size sizes => simp; omega
        | k + 2 =>
          rw [count] at inGroup few
          refine fits _ inGroup ?_
          rw [List.length_take, sizesOf, List.length_map]
          omega
  · -- nothing is written, and the group pushes nothing
    have nothing {overLimit : Bool} {pending : List PendingAppend} {sealAck : Option Nat}
        (task : s.task = .appending overLimit [] pending sealAck) : pending = [] := by
      by_contra written
      exact ready ⟨overLimit, pending, sealAck, task, written⟩
    have short : s.commitGroup <+: [.commit true] := by
      unfold commitGroup
      split
      · rename_i overLimit pending sealAck task
        rw [nothing task]
        exact List.prefix_rfl
      · exact List.nil_prefix
    refine iff_of_true (fun front inside s' ran => ?_) ?_
    · cases front with
      | nil => exact here s' ran
      | cons event front =>
        have only := inside.trans short
        rw [List.cons_prefix_cons, List.prefix_nil] at only
        obtain ⟨rfl, rfl⟩ := only
        obtain ⟨middle, before, stepped⟩ := @run_concat sealThreshold maxHotSpans s s'
          (.commit true) [] ran
        simp only [run, List.foldlM_nil, Option.pure_def, Option.some.injEq] at before
        subst before
        obtain ⟨smaller, accepted⟩ := calm_step (by simp) stepped
        have kept : s'.largest = s.largest := by rw [WriterLoop.largest, accepted]; rfl
        unfold HotBounded at bounded ⊢
        omega
    · unfold GroupMeets
      split
      · rename_i overLimit pending sealAck _ task
        rw [nothing task]
        intro front inside two
        have few := inside.length_le
        simp only [sizesOf, List.map_nil, List.length_nil] at few
        omega
      · trivial

/-- The tier stays within one accepted batch of its bound along a run whose groups fit in.  And
one more group keeps the bound, none leaving while it is pushed, exactly where it fits in. -/
theorem hot_bounded_of_groups (sealThreshold : Nat) (above : 0 < maxHotSpans)
    (starts : s.LoopStarts maxHotSpans) (events : List LoopEvent) :
    (StepsMeet (fun front event => ∀ s', s.run sealThreshold maxHotSpans front = some s' →
        s'.GroupMeets maxHotSpans event) events →
      ∀ front, front <+: events → ∀ s', s.run sealThreshold maxHotSpans front = some s' →
        s'.HotBounded maxHotSpans) ∧
    ∀ s', s.run sealThreshold maxHotSpans events = some s' → s'.HotBounded maxHotSpans →
      ((∀ front, front <+: s'.commitGroup →
          ∀ s'', s.run sealThreshold maxHotSpans (events ++ front) = some s'' →
            s''.HotBounded maxHotSpans) ↔
        s'.GroupMeets maxHotSpans (.commit true)) := by
  refine ⟨fun met front early s' ran => ?_, fun s' ran bounded => ?_⟩
  · have metEarly : StepsMeet (fun front event => ∀ s',
        s.run sealThreshold maxHotSpans front = some s' → s'.GroupMeets maxHotSpans event) front :=
      fun front' a inside => met front' a (inside.trans early)
    exact (behind_run above starts metEarly s' ran).2
  · rw [← @commitGroup_bounded_iff sealThreshold maxHotSpans s' (checked_run above starts ran)
      bounded]
    simp only [run_append, ran, Option.bind_some]

/-- The sizes of the batches of a group that is written. -/
def queued (s : WriterLoop) : List Nat :=
  match s.task with
  | .appending _ [] pending _ => sizesOf pending
  | _ => []

/-- Two callers append a span each, and the writer takes both as one group. -/
def twoCallers : WriterLoop where
  rx := [.append [{ traceId := "a", spanId := "1", startUnixNano := 0 }] 0,
    .append [{ traceId := "b", spanId := "2", startUnixNano := 0 }] 1]
  walActive := 0
  hot := ∅

/-- The group, up to its commit. -/
def beforeCommit : List LoopEvent := [.receive, .drain, .check, .process true, .process true]

theorem twoCallers_starts {maxHotSpans : Nat} (above : 0 < maxHotSpans) :
    twoCallers.LoopStarts maxHotSpans := by
  refine ⟨rfl, rfl, ?_⟩
  show HotTier.len ∅ < maxHotSpans
  exact lt_of_eq_of_lt (by decide) above

/-- Where two spans are allowed, the group fits in. -/
theorem hot_bounded_of_groups_twoCallers :
    (twoCallers.run 50000 2 (beforeCommit ++ [.commit true, .push, .push])).isSome = true ∧
    ∀ front, front <+: [.commit true, .push, .push] →
      ∀ s', twoCallers.run 50000 2 (beforeCommit ++ front) = some s' → s'.HotBounded 2 := by
  refine ⟨by decide, ?_⟩
  have ready : (twoCallers.run 50000 2 beforeCommit).map (fun s => (s.hot.len, s.queued)) =
      some (0, [1, 1]) := by
    decide
  obtain ⟨s', ran, ready⟩ := Option.map_eq_some_iff.mp ready
  rw [Prod.mk.injEq] at ready
  obtain ⟨empty, sizes⟩ := ready
  unfold queued at sizes
  split at sizes
  · rename_i pending _ task
    have count : pending.length = 2 := by
      rw [← List.length_map (f := fun p : PendingAppend => p.spans.length)]
      exact congrArg List.length sizes
    have bounded : s'.HotBounded 2 := by
      unfold HotBounded
      omega
    -- both batches together are two spans, of which one may overshoot
    have meets : s'.GroupMeets 2 (.commit true) := by
      simp only [GroupMeets, task, sizes, empty]
      intro front inside two
      have whole : front = [1, 1] := inside.eq_of_length (by
        have few := inside.length_le
        simp only [List.length_cons, List.length_nil] at few ⊢
        omega)
      rw [whole]
      simp only [List.sum_cons, List.sum_nil, List.foldr_cons, List.foldr_nil]
      omega
    have group : s'.commitGroup = [.commit true, .push, .push] := by
      simp only [commitGroup, task, count]
      rfl
    rw [← group]
    exact ((hot_bounded_of_groups 50000 (by decide) (twoCallers_starts (by decide))
      beforeCommit).2 s' ran bounded).mpr meets
  · cases sizes

/-- Where one is, both are pushed as well: two spans, and no accepted batch of more than one. -/
theorem group_past_bound : twoCallers.LoopStarts 1 ∧
    ∃ s', twoCallers.run 50000 1 (beforeCommit ++ [.commit true, .push, .push]) = some s' ∧
      ¬ s'.HotBounded 1 := by
  have both : (twoCallers.run 50000 1 (beforeCommit ++ [.commit true, .push, .push])).map
      (fun s => (s.hot.len, s.largest)) = some (2, 1) := by
    decide
  rw [Option.map_eq_some_iff] at both
  obtain ⟨s', ran, sizes⟩ := both
  rw [Prod.mk.injEq] at sizes
  refine ⟨twoCallers_starts (by decide), s', ran, ?_⟩
  show ¬ s'.hot.len ≤ 1 - 1 + s'.largest
  omega

end WriterLoop

end Evald.Store
