import Evald.Store.Tiers

/-! # The unlink grace

A merge and a sweep, call by call, with the clock running between any two: the block is
written and renamed, each input is stamped, the swap is committed, and any of it may end in
an error or a crash.  A reader that opened the index before the commit still reads the
inputs; `unlinks_after_grace` says how long they are there.
-/

namespace Evald.Store

open Evald.Lib

/-- A merge under way: what it wrote, what it will commit, the inputs still to stamp, and
when the others were stamped. -/
structure Merging where
  block : BlockFile
  output : BlockMeta
  perInput : List (BlockPath × Std.ExtTreeSet String)
  renamed : Bool := false
  pending : List BlockPath
  stamped : Std.ExtTreeMap BlockPath Nat := ∅

/-- A sweep under way: the blocks the index named, and the time, when it began. -/
structure Sweeping where
  known : List BlockPath
  now : Nat
  olderThan : Nat

/-- Who holds the compaction lock. -/
inductive Holder where
  | free
  | merging (merge : Merging)
  | sweeping (sweep : Sweeping)

/-- How a block left the index: when its merge stamped it, and when that merge committed. -/
structure Retirement where
  stamp : Nat
  commit : Nat
  deriving DecidableEq, Repr

/-- One unlinked file, with what held at that moment. -/
structure Unlink where
  path : BlockPath
  time : Nat
  olderThan : Nat
  named : Bool
  retirement : Option Retirement
  deriving DecidableEq, Repr

/-- The cold tier and the lock; `retired` and `unlinks` record, for the statements below, how
blocks last left the index through a merge, and every unlink. -/
structure GraceState where
  cold : ColdState
  clock : Nat
  holder : Holder := .free
  retired : BlockPath → Option Retirement := fun _ => none
  unlinks : List Unlink := []

inductive Action where
  | wait (time : Nat)
  | write (dir : Slot) (chunk : List Candidate)
  | rename
  | stamp
  | commit
  | sweep (olderThan : Nat)
  | unlink (p : BlockPath)
  /-- The lock is given up: a sweep is done, or there was an error or a crash. -/
  | release

/-- The block is written to a temporary file, which keeps the time of the write. -/
def startMerge (now : Nat) (cold : ColdState) (dir : Slot) (chunk : List Candidate) :
    Option Merging :=
  if Executes dir chunk then do
    let inputs ← chunk.mapM (fun c => cold.files[c.rel]?)
    let rows := inputs.flatMap BlockFile.rows
    pure
      { block := mergedFile now chunk rows
        output :=
          { relPath := outRel dir chunk
            maxStartUnixNano := maxStart rows
            traceIds := traceSet rows }
        perInput := chunk.map (fun c => (c.rel, traceSet (rowsAt cold.files c.rel)))
        pending := chunk.map Candidate.rel }
  else none

namespace GraceState

/-- The inputs that the commit takes out of the index. -/
def retire (s : GraceState) (m : Merging) (p : BlockPath) : Option Retirement :=
  if p ∈ m.perInput.map Prod.fst ∧ s.cold.index.Names p then
    some { stamp := (m.stamped[p]?).getD s.clock, commit := s.clock }
  else s.retired p

def stampNext (s : GraceState) (m : Merging) : Option GraceState :=
  match m.pending with
  | [] => none
  | r :: rest =>
    (markRetired s.clock s.cold.files r).map (fun files =>
      { s with
        cold := { s.cold with files := files }
        holder := .merging { m with pending := rest, stamped := m.stamped.insert r s.clock } })

def commitSwap (s : GraceState) (m : Merging) : GraceState :=
  { s with
    cold := { s.cold with index := s.cold.index.commitMerge m.output m.perInput }
    holder := .free
    retired := s.retire m }

def unlinkFile (s : GraceState) (w : Sweeping) (p : BlockPath) : Option GraceState :=
  match s.cold.files[p]? with
  | none => none
  | some file =>
    if p ∉ w.known ∧ oldEnough w.now w.olderThan file = true then
      some { s with
        cold := { s.cold with files := s.cold.files.erase p }
        unlinks := s.unlinks ++
          [{ path := p
             time := s.clock
             olderThan := w.olderThan
             named := decide (s.cold.index.Names p)
             retirement := s.retired p }] }
    else none

def step (s : GraceState) (action : Action) : Option GraceState :=
  match action, s.holder with
  | .wait time, _ => some { s with clock := s.clock + time }
  | .write dir chunk, .free =>
    (startMerge s.clock s.cold dir chunk).map (fun m => { s with holder := .merging m })
  | .rename, .merging m =>
    if m.renamed then none
    else
      some { s with
        cold := { s.cold with files := s.cold.files.insert m.output.relPath m.block }
        holder := .merging { m with renamed := true } }
  | .stamp, .merging m => if m.renamed then s.stampNext m else none
  | .commit, .merging m =>
    if m.renamed && m.pending.isEmpty then some (s.commitSwap m) else none
  | .sweep olderThan, .free =>
    some { s with
      holder := .sweeping
        { known := s.cold.index.allBlockPaths
          now := s.clock
          olderThan := olderThan } }
  | .unlink p, .sweeping w => s.unlinkFile w p
  | .release, _ => some { s with holder := .free }
  | _, _ => none

def run (s : GraceState) (actions : List Action) : Option GraceState := actions.foldlM step s

end GraceState

/-! ## The invariant -/

/-- The file, if it is there, was last modified at `time` or later. -/
def Touched (files : Files) (p : BlockPath) (time : Nat) : Prop :=
  ∀ file, files[p]? = some file → ∃ m, file.modified = some m ∧ time ≤ m

theorem Touched.insert {files : Files} {p q : BlockPath} {time m : Nat} {file : BlockFile}
    (touched : Touched files p time) (modified : file.modified = some m) (later : time ≤ m) :
    Touched (files.insert q file) p time := by
  intro found here
  rw [getElem?_insert_if] at here
  by_cases same : p = q
  · rw [if_pos same, Option.some.injEq] at here
    rw [← here]
    exact ⟨m, modified, later⟩
  · rw [if_neg same] at here
    exact touched found here

theorem Touched.erase {files : Files} {p q : BlockPath} {time : Nat}
    (touched : Touched files p time) : Touched (files.erase q) p time := by
  intro found here
  rw [Std.ExtTreeMap.getElem?_erase] at here
  split at here
  · cases here
  · exact touched found here

/-- What holds of the merge under way: the block is younger than every retirement, and each
input is still to be stamped or has been since. -/
structure MergingInvariant (s : GraceState) (m : Merging) : Prop where
  written : ∃ w, m.block.modified = some w ∧ w ≤ s.clock ∧
    ∀ p r, s.retired p = some r → r.stamp ≤ w
  early : m.renamed = false → m.stamped = ∅
  stamped : ∀ p t, m.stamped[p]? = some t → t ≤ s.clock ∧ Touched s.cold.files p t
  inputs : ∀ p ∈ m.perInput.map Prod.fst, p ∈ m.pending ∨ ∃ t, m.stamped[p]? = some t

structure SweepingInvariant (s : GraceState) (w : Sweeping) : Prop where
  known : w.known = s.cold.index.allBlockPaths
  begun : w.now ≤ s.clock

def HolderInvariant (s : GraceState) : Prop :=
  match s.holder with
  | .free => True
  | .merging m => MergingInvariant s m
  | .sweeping w => SweepingInvariant s w

/-- Not named, and past the grace since the stamp, if it left the index through a merge. -/
def Unlink.Fair (u : Unlink) : Prop :=
  u.named = false ∧ ∀ r, u.retirement = some r → r.stamp ≤ r.commit ∧ r.commit ≤ u.time ∧
    r.stamp + u.olderThan ≤ u.time

structure GraceInvariant (s : GraceState) : Prop where
  retired : ∀ p r, s.retired p = some r → r.stamp ≤ r.commit ∧ r.commit ≤ s.clock ∧
    Touched s.cold.files p r.stamp
  holder : HolderInvariant s
  unlinks : ∀ u ∈ s.unlinks, u.Fair

namespace GraceInvariant

theorem start (cold : ColdState) (clock : Nat) :
    GraceInvariant { cold := cold, clock := clock } where
  retired := fun p r impossible => by cases impossible
  holder := trivial
  unlinks := fun u member => by cases member

theorem wait {s : GraceState} (invariant : GraceInvariant s) (time : Nat) :
    GraceInvariant { s with clock := s.clock + time } where
  retired := by
    intro p r left
    obtain ⟨order, past, touched⟩ := invariant.retired p r left
    exact ⟨order, Nat.le_add_right_of_le past, touched⟩
  holder := by
    have before := invariant.holder
    unfold HolderInvariant at before ⊢
    cases holder : s.holder with
    | free => trivial
    | merging m =>
      simp only [holder] at before ⊢
      obtain ⟨w, modified, past, after⟩ := before.written
      refine ⟨⟨w, modified, Nat.le_add_right_of_le past, after⟩, before.early, ?_, before.inputs⟩
      intro p t stamped
      obtain ⟨past, touched⟩ := before.stamped p t stamped
      exact ⟨Nat.le_add_right_of_le past, touched⟩
    | sweeping w =>
      simp only [holder] at before ⊢
      exact ⟨before.known, Nat.le_add_right_of_le before.begun⟩
  unlinks := invariant.unlinks

theorem release {s : GraceState} (invariant : GraceInvariant s) :
    GraceInvariant { s with holder := .free } where
  retired := invariant.retired
  holder := trivial
  unlinks := invariant.unlinks

theorem write {s : GraceState} (invariant : GraceInvariant s) {dir : Slot}
    {chunk : List Candidate} {m : Merging}
    (started : startMerge s.clock s.cold dir chunk = some m) :
    GraceInvariant { s with holder := .merging m } where
  retired := invariant.retired
  holder := by
    unfold startMerge at started
    split at started
    · obtain ⟨inputs, -, made⟩ := Option.bind_eq_some_iff.mp started
      cases made
      show MergingInvariant _ _
      refine ⟨⟨s.clock, rfl, Nat.le_refl _, fun p r left => ?_⟩, fun _ => rfl, ?_, ?_⟩
      · obtain ⟨order, past, -⟩ := invariant.retired p r left
        exact order.trans past
      · intro p t impossible
        simp at impossible
      · intro p member
        simp only [List.map_map, Function.comp_def] at member
        exact .inl member
    · cases started
  unlinks := invariant.unlinks

/-- The output goes over whatever file is at its path. -/
theorem rename {s : GraceState} (invariant : GraceInvariant s) {m : Merging}
    (holds : s.holder = .merging m) (first : m.renamed = false) :
    GraceInvariant { s with
      cold := { s.cold with files := s.cold.files.insert m.output.relPath m.block }
      holder := .merging { m with renamed := true } } := by
  have before : MergingInvariant s m := by
    have holder := invariant.holder
    rwa [HolderInvariant, holds] at holder
  obtain ⟨w, modified, past, after⟩ := before.written
  have unstamped := before.early first
  refine ⟨fun p r left => ?_, ?_, invariant.unlinks⟩
  · obtain ⟨order, past, touched⟩ := invariant.retired p r left
    exact ⟨order, past, touched.insert modified (after p r left)⟩
  · show MergingInvariant _ _
    refine ⟨⟨w, modified, past, after⟩, fun _ => unstamped, ?_, before.inputs⟩
    intro p t stamped
    simp [unstamped] at stamped

theorem stampNext {s s' : GraceState} (invariant : GraceInvariant s) {m : Merging}
    (holds : s.holder = .merging m) (renamed : m.renamed = true)
    (stepped : s.stampNext m = some s') : GraceInvariant s' := by
  have before : MergingInvariant s m := by
    have holder := invariant.holder
    rwa [HolderInvariant, holds] at holder
  unfold GraceState.stampNext at stepped
  cases todo : m.pending with
  | nil =>
    rw [todo] at stepped
    cases stepped
  | cons r rest =>
    rw [todo] at stepped
    obtain ⟨files, marked, made⟩ := Option.map_eq_some_iff.mp stepped
    obtain ⟨file, found, inserted⟩ := Option.map_eq_some_iff.mp marked
    rw [← made, ← inserted]
    refine ⟨fun p left gone => ?_, ?_, invariant.unlinks⟩
    · obtain ⟨order, past, touched⟩ := invariant.retired p left gone
      exact ⟨order, past, touched.insert rfl (order.trans past)⟩
    · show MergingInvariant _ _
      refine ⟨before.written, fun unrenamed => ?_, ?_, ?_⟩
      · rw [show m.renamed = false from unrenamed] at renamed
        cases renamed
      · intro p t stamped
        rw [getElem?_insert_if] at stamped
        -- the input that is stamped now, or one that was stamped before
        by_cases here : p = r
        · rw [if_pos here, Option.some.injEq] at stamped
          rw [← stamped, here]
          refine ⟨Nat.le_refl _, fun found' there => ?_⟩
          rw [getElem?_insert_if, if_pos rfl, Option.some.injEq] at there
          rw [← there]
          exact ⟨s.clock, rfl, Nat.le_refl _⟩
        · rw [if_neg here] at stamped
          obtain ⟨past, touched⟩ := before.stamped p t stamped
          exact ⟨past, touched.insert rfl past⟩
      · intro p member
        show p ∈ rest ∨ ∃ t, (m.stamped.insert r s.clock)[p]? = some t
        rw [getElem?_insert_if]
        by_cases here : p = r
        · exact .inr ⟨s.clock, if_pos here⟩
        · rw [if_neg here]
          cases before.inputs p member with
          | inl pending =>
            rw [todo, List.mem_cons] at pending
            exact .inl (pending.resolve_left here)
          | inr stamped => exact .inr stamped

/-- Every input has its stamp when the swap is committed. -/
theorem commitSwap {s : GraceState} (invariant : GraceInvariant s) {m : Merging}
    (holds : s.holder = .merging m) (all : m.pending = []) :
    GraceInvariant (s.commitSwap m) := by
  have before : MergingInvariant s m := by
    have holder := invariant.holder
    rwa [HolderInvariant, holds] at holder
  refine ⟨fun p r left => ?_, trivial, invariant.unlinks⟩
  change s.retire m p = some r at left
  unfold GraceState.retire at left
  split at left
  · next input =>
    obtain ⟨t, stamped⟩ : ∃ t, m.stamped[p]? = some t := by
      cases before.inputs p input.1 with
      | inl pending =>
        rw [all] at pending
        cases pending
      | inr stamped => exact stamped
    obtain ⟨past, touched⟩ := before.stamped p t stamped
    rw [stamped, Option.getD_some, Option.some.injEq] at left
    rw [← left]
    exact ⟨past, Nat.le_refl _, touched⟩
  · exact invariant.retired p r left

theorem sweep {s : GraceState} (invariant : GraceInvariant s) (olderThan : Nat) :
    GraceInvariant { s with
      holder := .sweeping
        { known := s.cold.index.allBlockPaths
          now := s.clock
          olderThan := olderThan } } where
  retired := invariant.retired
  holder := ⟨rfl, Nat.le_refl _⟩
  unlinks := invariant.unlinks

/-- What is unlinked is not named, and it is as old as the sweep asks. -/
theorem unlinkFile {s s' : GraceState} (invariant : GraceInvariant s) {w : Sweeping}
    {p : BlockPath} (holds : s.holder = .sweeping w) (stepped : s.unlinkFile w p = some s') :
    GraceInvariant s' := by
  have before : SweepingInvariant s w := by
    have holder := invariant.holder
    rwa [HolderInvariant, holds] at holder
  unfold GraceState.unlinkFile at stepped
  cases found : s.cold.files[p]? with
  | none =>
    rw [found] at stepped
    cases stepped
  | some file =>
    rw [found] at stepped
    simp only at stepped
    split at stepped
    · next old =>
      cases stepped
      refine ⟨fun q r left => ?_, ?_, fun u member => ?_⟩
      · obtain ⟨order, past, touched⟩ := invariant.retired q r left
        exact ⟨order, past, touched.erase⟩
      · show HolderInvariant _
        unfold HolderInvariant
        simp only [holds]
        exact ⟨before.known, before.begun⟩
      · cases List.mem_append.mp member with
        | inl earlier => exact invariant.unlinks u earlier
        | inr last =>
          rw [List.mem_singleton.mp last]
          -- the sweep knows what is indexed, and its clock starts at the stamp
          have unnamed : ¬ s.cold.index.Names p := by
            rw [← Index.mem_allBlockPaths, ← before.known]
            exact old.1
          refine ⟨decide_eq_false unnamed, fun r left => ?_⟩
          obtain ⟨order, past, touched⟩ := invariant.retired p r left
          obtain ⟨m, modified, later⟩ := touched file found
          have age := old.2
          simp only [oldEnough, modified, Bool.and_eq_true, decide_eq_true_eq] at age
          have begun := before.begun
          show r.stamp ≤ r.commit ∧ r.commit ≤ s.clock ∧ r.stamp + w.olderThan ≤ s.clock
          omega
    · cases stepped

/-- One call, whichever it is. -/
theorem step {s s' : GraceState} (invariant : GraceInvariant s) {action : Action}
    (stepped : s.step action = some s') : GraceInvariant s' := by
  -- each action has its holder, and fails under any other
  cases action with
  | wait time =>
    cases stepped
    exact invariant.wait time
  | release =>
    cases stepped
    exact invariant.release
  | write dir chunk =>
    cases holder : s.holder with
    | free =>
      simp only [GraceState.step, holder] at stepped
      obtain ⟨m, started, made⟩ := Option.map_eq_some_iff.mp stepped
      rw [← made]
      exact invariant.write started
    | _ =>
      simp only [GraceState.step, holder] at stepped
      cases stepped
  | rename =>
    cases holder : s.holder with
    | merging m =>
      simp only [GraceState.step, holder] at stepped
      split at stepped
      · cases stepped
      · next first =>
        cases stepped
        exact invariant.rename holder (by simpa using first)
    | _ =>
      simp only [GraceState.step, holder] at stepped
      cases stepped
  | stamp =>
    cases holder : s.holder with
    | merging m =>
      simp only [GraceState.step, holder] at stepped
      split at stepped
      · next renamed => exact invariant.stampNext holder renamed stepped
      · cases stepped
    | _ =>
      simp only [GraceState.step, holder] at stepped
      cases stepped
  | commit =>
    cases holder : s.holder with
    | merging m =>
      simp only [GraceState.step, holder] at stepped
      split at stepped
      · next done =>
        cases stepped
        rw [Bool.and_eq_true, List.isEmpty_iff] at done
        exact invariant.commitSwap holder done.2
      · cases stepped
    | _ =>
      simp only [GraceState.step, holder] at stepped
      cases stepped
  | sweep olderThan =>
    cases holder : s.holder with
    | free =>
      simp only [GraceState.step, holder] at stepped
      cases stepped
      exact invariant.sweep olderThan
    | _ =>
      simp only [GraceState.step, holder] at stepped
      cases stepped
  | unlink p =>
    cases holder : s.holder with
    | sweeping w =>
      simp only [GraceState.step, holder] at stepped
      exact invariant.unlinkFile holder stepped
    | _ =>
      simp only [GraceState.step, holder] at stepped
      cases stepped

theorem run {s s' : GraceState} (invariant : GraceInvariant s) {actions : List Action}
    (ran : s.run actions = some s') : GraceInvariant s' := by
  induction actions generalizing s with
  | nil =>
    cases ran
    exact invariant
  | cons action actions inductionHypothesis =>
    rw [GraceState.run, List.foldlM_cons] at ran
    obtain ⟨middle, stepped, rest⟩ := Option.bind_eq_some_iff.mp ran
    exact inductionHypothesis (invariant.step stepped) rest

end GraceInvariant

/-- In every run from any cold tier, no file that is unlinked is named by the index, and one
that left it through a merge is unlinked no sooner than the grace after the stamp that merge
gave it, which is no later than the commit. -/
theorem unlinks_after_grace (cold : ColdState) (clock : Nat) (actions : List Action)
    {s : GraceState} (ran : GraceState.run { cold := cold, clock := clock } actions = some s) :
    ∀ u ∈ s.unlinks, u.named = false ∧ ∀ r, u.retirement = some r →
      r.stamp ≤ r.commit ∧ r.commit ≤ u.time ∧ r.stamp + u.olderThan ≤ u.time :=
  ((GraceInvariant.start cold clock).run ran).unlinks

/-! ## The calls of a merge and of a sweep -/

namespace GraceState

theorem run_cons {s middle : GraceState} {action : Action} (stepped : s.step action = some middle)
    (actions : List Action) : s.run (action :: actions) = middle.run actions := by
  rw [run, List.foldlM_cons, stepped]
  rfl

theorem run_append {s middle : GraceState} {actions : List Action}
    (ran : s.run actions = some middle) (more : List Action) :
    s.run (actions ++ more) = middle.run more := by
  rw [run, List.foldlM_append]
  rw [run] at ran
  rw [ran]
  rfl

theorem step_stamp {s : GraceState} {m : Merging} (holds : s.holder = .merging m)
    (renamed : m.renamed = true) : s.step .stamp = s.stampNext m := by
  simp only [step, holds, renamed, if_true]

theorem step_unlink {s : GraceState} {w : Sweeping} (holds : s.holder = .sweeping w)
    (p : BlockPath) : s.step (.unlink p) = s.unlinkFile w p := by
  simp only [step, holds]

theorem run_stamps {s : GraceState} {m : Merging} {files : Files}
    (holds : s.holder = .merging m) (renamed : m.renamed = true)
    (marked : m.pending.foldlM (markRetired s.clock) s.cold.files = some files) :
    ∃ stamped, s.run (List.replicate m.pending.length .stamp) =
      some { s with
        cold := { s.cold with files := files }
        holder := .merging { m with pending := [], stamped := stamped } } := by
  generalize rels : m.pending = pending at marked
  induction pending generalizing s m with
  | nil =>
    cases marked
    refine ⟨m.stamped, ?_⟩
    have same : s = { s with
        cold := { s.cold with files := s.cold.files }
        holder := .merging { m with pending := [], stamped := m.stamped } } := by
      rw [← rels, ← holds]
    exact congrArg some same
  | cons r rest inductionHypothesis =>
    rw [List.foldlM_cons] at marked
    obtain ⟨middle, first, later⟩ := Option.bind_eq_some_iff.mp marked
    let m' : Merging := { m with pending := rest, stamped := m.stamped.insert r s.clock }
    let next : GraceState := { s with
      cold := { s.cold with files := middle }
      holder := .merging m' }
    have stepped : s.step .stamp = some next := by
      rw [step_stamp holds renamed]
      simp only [stampNext, rels, first, Option.map_some]
      rfl
    rw [List.length_cons, List.replicate_succ, run_cons stepped]
    exact inductionHypothesis (s := next) (m := m') rfl renamed rfl later

theorem run_commit {s : GraceState} {m : Merging} (holds : s.holder = .merging m)
    (renamed : m.renamed = true) (all : m.pending = []) :
    s.run [.commit] = some (s.commitSwap m) := by
  have stepped : s.step .commit = some (s.commitSwap m) := by
    simp [step, holds, renamed, all]
  rw [run_cons stepped]
  rfl

/-- A merge whose calls follow each other at once is the merge of one chunk. -/
theorem run_merge {s : GraceState} (free : s.holder = .free) {dir : Slot}
    {chunk : List Candidate} (executes : Executes dir chunk) {before after : MergeRun}
    (sameCold : before.cold = s.cold)
    (merged : mergeChunk s.clock dir false before chunk = some after) :
    ∃ s', s.run ([.write dir chunk, .rename] ++ List.replicate chunk.length .stamp ++ [.commit]) =
        some s' ∧ s'.cold = after.cold ∧ s'.holder = .free := by
  have apart : chunk.any (fun c => c.rel = outRel dir chunk) = false := by
    simpa using executes.2
  rw [mergeChunk] at merged
  simp only [apart, Bool.false_eq_true, if_false, Option.bind_eq_bind, sameCold] at merged
  obtain ⟨inputs, opened, rest⟩ := Option.bind_eq_some_iff.mp merged
  obtain ⟨files, marked, made⟩ := Option.bind_eq_some_iff.mp rest
  let m : Merging :=
    { block := mergedFile s.clock chunk (inputs.flatMap BlockFile.rows)
      output :=
        { relPath := outRel dir chunk
          maxStartUnixNano := maxStart (inputs.flatMap BlockFile.rows)
          traceIds := traceSet (inputs.flatMap BlockFile.rows) }
      perInput := chunk.map (fun c => (c.rel, traceSet (rowsAt s.cold.files c.rel)))
      pending := chunk.map Candidate.rel }
  have wrote : s.step (.write dir chunk) = some { s with holder := .merging m } := by
    simp only [step, free, startMerge, if_pos executes, opened, Option.bind_eq_bind,
      Option.bind_some, Option.pure_def, Option.map_some]
    rfl
  let renamed : GraceState := { s with
    cold := { s.cold with files := s.cold.files.insert m.output.relPath m.block }
    holder := .merging { m with renamed := true } }
  have placed : GraceState.step { s with holder := .merging m } .rename = some renamed := rfl
  -- one stamp for each input marks what the merge marks at once
  obtain ⟨stamped, stamps⟩ := run_stamps (s := renamed) rfl rfl marked
  rw [List.length_map] at stamps
  let m' : Merging := { m with renamed := true, pending := [], stamped := stamped }
  let done : GraceState := { renamed with
    cold := { renamed.cold with files := files }
    holder := .merging m' }
  have committed : done.run [.commit] = some (done.commitSwap m') := run_commit rfl rfl rfl
  refine ⟨done.commitSwap m', ?_, ?_, rfl⟩
  · rw [List.append_assoc, List.cons_append, run_cons wrote, List.cons_append, run_cons placed,
      List.nil_append, run_append stamps]
    exact committed
  · cases made
    rfl

theorem run_unlinks {s : GraceState} {w : Sweeping} (holds : s.holder = .sweeping w)
    {paths : List BlockPath} (distinct : paths.Nodup)
    (old : ∀ p ∈ paths, ∃ file, s.cold.files[p]? = some file ∧ p ∉ w.known ∧
      oldEnough w.now w.olderThan file = true) :
    ∃ unlinks, s.run (paths.map .unlink) =
      some { s with
        cold := { s.cold with files := eraseAll s.cold.files paths }
        unlinks := unlinks } := by
  induction paths generalizing s with
  | nil => exact ⟨s.unlinks, rfl⟩
  | cons p paths inductionHypothesis =>
    obtain ⟨file, found, strange, aged⟩ := old p List.mem_cons_self
    obtain ⟨here, later⟩ := List.nodup_cons.mp distinct
    have guard : p ∉ w.known ∧ oldEnough w.now w.olderThan file = true := ⟨strange, aged⟩
    let next : GraceState := { s with
      cold := { s.cold with files := s.cold.files.erase p }
      unlinks := s.unlinks ++
        [{ path := p
           time := s.clock
           olderThan := w.olderThan
           named := decide (s.cold.index.Names p)
           retirement := s.retired p }] }
    have stepped : s.step (.unlink p) = some next := by
      rw [step_unlink holds, unlinkFile, found]
      exact if_pos guard
    rw [List.map_cons, run_cons stepped]
    refine inductionHypothesis (s := next) holds later (fun q member => ?_)
    obtain ⟨file', found', rest⟩ := old q (List.mem_cons_of_mem _ member)
    refine ⟨file', ?_, rest⟩
    show (s.cold.files.erase p)[q]? = some file'
    rw [Std.ExtTreeMap.getElem?_erase, if_neg, found']
    intro same
    exact here (Std.LawfulEqOrd.compare_eq_iff_eq.mp same ▸ member)

/-- A sweep whose calls follow each other at once is the sweep. -/
theorem run_sweep {s : GraceState} (free : s.holder = .free) (olderThan : Nat) :
    ∃ s', s.run (.sweep olderThan :: (swept s.clock olderThan s.cold).map .unlink ++
        [.release]) = some s' ∧
      s'.cold = (sweepUnindexed s.clock olderThan s.cold).1 ∧ s'.holder = .free := by
  let w : Sweeping :=
    { known := s.cold.index.allBlockPaths
      now := s.clock
      olderThan := olderThan }
  have begun : s.step (.sweep olderThan) = some { s with holder := .sweeping w } := by
    simp only [step, free]
    rfl
  have distinct : (swept s.clock olderThan s.cold).Nodup := by
    have keys : (s.cold.files.toList.map Prod.fst).Nodup := by
      rw [Std.ExtTreeMap.map_fst_toList_eq_keys]
      exact Std.ExtTreeMap.nodup_keys
    exact keys.sublist (List.filter_sublist.map _)
  have old : ∀ p ∈ swept s.clock olderThan s.cold, ∃ file, s.cold.files[p]? = some file ∧
      p ∉ w.known ∧ oldEnough w.now w.olderThan file = true := by
    intro p member
    obtain ⟨e, listed, named⟩ := List.mem_map.mp member
    obtain ⟨stored, guard⟩ := List.mem_filter.mp listed
    rw [Bool.and_eq_true, decide_eq_true_eq] at guard
    rw [← named]
    exact ⟨e.2, Std.ExtTreeMap.mem_toList_iff_getElem?_eq_some.mp stored, guard⟩
  obtain ⟨unlinks, ran⟩ :=
    run_unlinks (s := { s with holder := .sweeping w }) rfl distinct old
  let done : GraceState := { s with
    cold := (sweepUnindexed s.clock olderThan s.cold).1
    unlinks := unlinks
    holder := .free }
  refine ⟨done, ?_, rfl, rfl⟩
  rw [List.cons_append, run_cons begun, run_append ran]
  rfl

end GraceState

/-! ### A commit that is late -/

/-- Two blocks are merged, with five nanoseconds between the stamps and the commit; a sweep
with a grace of five follows at once. -/
def lateCommit : List Action :=
  let chunk := candidates sentTwice.files sentTwice.index.allBlockPaths
  let dir := Slot.hour { day := { year := 2023, month := 11, day := 15 }, hour := 0 }
  [.write dir chunk, .rename, .stamp, .stamp, .wait 5, .commit, .sweep 5] ++
    chunk.map (fun c => .unlink c.rel) ++ [.release]

theorem unlinks_after_grace_lateCommit :
    ∃ s, GraceState.run { cold := sentTwice, clock := 100 } lateCommit = some s ∧
      s.unlinks.length = 2 ∧ ∀ u ∈ s.unlinks, u.named = false ∧ ∀ r, u.retirement = some r →
        r.stamp ≤ r.commit ∧ r.commit ≤ u.time ∧ r.stamp + u.olderThan ≤ u.time := by
  have found : (GraceState.run { cold := sentTwice, clock := 100 } lateCommit).any
      (fun s => decide (s.unlinks.length = 2)) = true := by decide
  cases ran : GraceState.run { cold := sentTwice, clock := 100 } lateCommit with
  | none =>
    rw [ran] at found
    cases found
  | some s =>
    rw [ran, Option.any_some, decide_eq_true_eq] at found
    exact ⟨s, rfl, found, unlinks_after_grace sentTwice 100 lateCommit ran⟩

/-- The inputs are unlinked the moment they have left the index. -/
theorem grace_runs_from_stamp :
    ∃ s, GraceState.run { cold := sentTwice, clock := 100 } lateCommit = some s ∧
      ∃ u ∈ s.unlinks, ∃ r, u.retirement = some r ∧ u.time < r.commit + u.olderThan := by
  have found : (GraceState.run { cold := sentTwice, clock := 100 } lateCommit).any (fun s =>
      s.unlinks.any (fun u =>
        u.retirement.any (fun r => decide (u.time < r.commit + u.olderThan)))) = true := by
    decide
  cases ran : GraceState.run { cold := sentTwice, clock := 100 } lateCommit with
  | none =>
    rw [ran] at found
    cases found
  | some s =>
    rw [ran, Option.any_some, List.any_eq_true] at found
    obtain ⟨u, member, left⟩ := found
    obtain ⟨r, retired, early⟩ := Option.any_eq_true _ _ |>.mp left
    exact ⟨s, rfl, u, member, r, retired, by simpa using early⟩

end Evald.Store
