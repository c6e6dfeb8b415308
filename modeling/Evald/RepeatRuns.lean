import Evald.CallPlaces
import Evald.Lib.Blocks

/-! # Runs of one call

A session's calls are read trace by trace in the order they started.  A call that has
arguments is of the kind of its trace, its name and its arguments, and the report counts the
repeats and the longest run of these (`repeats_counts_blocks`).
-/

namespace Evald.Sessions

open Evald.Lib

/-- What makes calls identical.  A call without arguments is identical to none. -/
def callKind (c : ToolCall) : Option (String × String × String) :=
  c.arguments.map (fun arguments => (c.traceId, c.name, arguments))

def Repeats.count (r : Repeats) : RunCount ToolCall :=
  { repeated := r.repeated, longest := r.longest, run := r.run, previous := r.previous }

theorem sameKind_callKind (p c : ToolCall) : sameKind callKind p c =
    (p.traceId = c.traceId && p.name = c.name && c.arguments.isSome &&
      p.arguments = c.arguments) := by
  unfold sameKind callKind
  cases p.arguments with
  | none => cases c.arguments <;> simp
  | some before =>
    cases c.arguments with
    | none => simp
    | some here => simp [Bool.and_assoc]

/-- The report's counter is the counter of blocks of one kind. -/
theorem Repeats.count_next (r : Repeats) (c : ToolCall) :
    (r.next c).count = r.count.next callKind c := by
  have isSome : (callKind c).isSome = c.arguments.isSome := Option.isSome_map
  unfold Repeats.count Repeats.next RunCount.next
  simp only [sameKind_callKind, isSome]

theorem Repeats.count_foldl (calls : List ToolCall) (r : Repeats) :
    (calls.foldl Repeats.next r).count = calls.foldl (RunCount.next callKind) r.count := by
  induction calls generalizing r with
  | nil => rfl
  | cons c calls inductionHypothesis =>
    rw [List.foldl_cons, inductionHypothesis, Repeats.count_next, List.foldl_cons]

/-- Of the calls in order of trace, start and span id: the longest run is the length of the
longest block of identical calls, and the repeats are what the maximal blocks have beyond
their first calls. -/
theorem repeats_counts_blocks (calls : List ToolCall) :
    let ordered := calls.mergeSort callOrder
    (ordered.Perm calls ∧ ordered.Pairwise (fun a b => callOrder a b = true)) ∧
    IsGreatest {n | ∃ block, block <:+: ordered ∧ Uniform callKind block ∧ block.length = n}
      (repeats calls).longest ∧
    ((∀ c ∈ calls, c.arguments = none) → (repeats calls).longest = 0) ∧
    (∃ blocks, MaximalBlocks callKind ordered blocks) ∧
    ∀ blocks, MaximalBlocks callKind ordered blocks →
      (repeats calls).repeated = (blocks.map (fun block => block.length - 1)).sum := by
  intro ordered
  have counted : (repeats calls).count = ordered.foldl (RunCount.next callKind) {} :=
    Repeats.count_foldl ordered {}
  have perm : ordered.Perm calls := List.mergeSort_perm calls callOrder
  have longest : IsGreatest (lengths callKind ordered) (repeats calls).count.longest := by
    rw [counted]
    exact (RunCount.counts_foldl ordered).longest
  refine ⟨⟨perm, pairwise_mergeSort_callOrder calls⟩, longest, fun without => ?_,
    ⟨_, maximalBlocks_splitBy callKind ordered⟩, fun blocks maximal => ?_⟩
  · obtain ⟨block, inside, uniform, length⟩ := longest.1
    cases block with
    | nil => exact length.symm
    | cons c block =>
      obtain ⟨k, isKind, -⟩ := uniform c List.mem_cons_self c List.mem_cons_self
      have listed : c ∈ calls := perm.mem_iff.mp (inside.subset List.mem_cons_self)
      rw [callKind, without c listed] at isKind
      contradiction
  · have repeated := maximal.repeated_eq
    rw [← counted] at repeated
    exact repeated

end Evald.Sessions
