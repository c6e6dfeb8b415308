import Evald.Store.Cold

/-! # Cold-to-cold compaction

One merge pass, as `merge_cold` makes it: the hour partitions first, then the
closed days over the blocks that are there by then.  A pass plans row-capped
chunks in seqno order and rewrites each chunk of two or more blocks as one.  A
file the pass cannot open is its only failure (`none`).
-/

namespace Evald.Store

open Evald.Lib

structure MergePolicy where
  hourThreshold : Nat := 16
  maxSpansPerBlock : Nat := 1000000
  dayMerge : Bool := true
  dayQuiet : Nat := 3600 * 1000000000
  unlinkGrace : Nat := 60 * 1000000000

def MergePolicy.enabled (policy : MergePolicy) : Bool := 0 < policy.hourThreshold

inductive MergeScope where
  | tick
  | full
  deriving DecidableEq, Repr

structure MergeReport where
  merges : Nat := 0
  blocksIn : Nat := 0
  blocksOut : Nat := 0
  spans : Nat := 0
  dryRun : Bool
  deriving DecidableEq, Repr

/-- One block as the planner sees it. -/
structure Candidate where
  rel : BlockPath
  rows : Nat
  modified : Option Nat
  seqnoLo : Nat
  seqnoHi : Nat
  priceTables : List String
  deriving DecidableEq, Repr

/-- What a pass reads off the clock: the time it stamps files with, and the time
and day the closed-day phase decides by. -/
structure Clock where
  stamp : Nat
  now : Nat
  today : Day

/-! ## Planning -/

def groupBlocks (blocks : List (BlockPath × Nat)) :
    Std.ExtTreeMap Hour (List BlockPath) × Std.ExtTreeMap Day (List BlockPath) :=
  blocks.foldl
    (fun groups block =>
      match slotOf block.1 with
      | .hour h => (pushUnder groups.1 h block.1, pushUnder groups.2 h.day block.1)
      | .day d => (groups.1, pushUnder groups.2 d block.1))
    (∅, ∅)

/-- The index's blocks grouped by hour partition and by day. -/
def group (index : Index) :
    Std.ExtTreeMap Hour (List BlockPath) × Std.ExtTreeMap Day (List BlockPath) :=
  groupBlocks index.blocksWithMaxStart

/-- What the planner needs from a block's footer; an indexed block missing on disk
is skipped. -/
def candidate (files : Files) (rel : BlockPath) : Option Candidate :=
  (files[rel]?).map (fun file =>
    { rel := rel
      rows := file.rows.length
      modified := file.modified
      seqnoLo := file.provenance.seqnoLo
      seqnoHi := file.provenance.seqnoHi
      priceTables := file.provenance.priceTables })

def candidates (files : Files) (rels : List BlockPath) : List Candidate :=
  rels.filterMap (candidate files)

/-- Whether nothing among `cands` was written within `quiet` of `now`; an unreadable
time, or one in the future, counts as just written. -/
def isQuiet (cands : List Candidate) (now quiet : Nat) : Bool :=
  cands.all (fun c =>
    match c.modified with
    | some m => m ≤ now && quiet ≤ now - m
    | none => false)

/-- `floor(log2(rows))`. -/
def tier (rows : Nat) : Nat := (max rows 1).log2

def saturatingAdd (a b : Nat) : Nat := min (a + b) (2 ^ 64 - 1)

/-- The chunk being filled holds `current`, of `rows` rows in all. -/
def cutChunks (cap : Nat) (current : List Candidate) (rows : Nat) :
    List Candidate → List (List Candidate)
  | [] => if current.isEmpty then [] else [current]
  | c :: cands =>
    if !current.isEmpty && cap < saturatingAdd rows c.rows then
      current :: cutChunks cap [c] (saturatingAdd 0 c.rows) cands
    else
      cutChunks cap (current ++ [c]) (saturatingAdd rows c.rows) cands

/-- The order of chunking: by `(seqno_lo, rel)`. -/
def seqnoOrder (a b : Candidate) : Prop :=
  a.seqnoLo < b.seqnoLo ∨ a.seqnoLo = b.seqnoLo ∧ compare a.rel b.rel ≠ .gt

instance : DecidableRel seqnoOrder := fun a b =>
  inferInstanceAs (Decidable (a.seqnoLo < b.seqnoLo ∨
    a.seqnoLo = b.seqnoLo ∧ compare a.rel b.rel ≠ .gt))

/-- Greedy row-capped chunks in seqno order. -/
def chunks (cands : List Candidate) (maxSpans : Nat) : List (List Candidate) :=
  cutChunks (max maxSpans 1) [] 0 (cands.insertionSort seqnoOrder)

/-! ## Executing -/

/-- A pass under way.  `consumed` are the blocks a dry run's hour phase would have
merged away; `clobbered` records, for the statements below, each output that was
renamed over a block the index still named. -/
structure MergeRun where
  cold : ColdState
  report : MergeReport
  consumed : List BlockPath := []
  clobbered : List BlockPath := []

def chunkLo (chunk : List Candidate) : Nat := ((chunk.map Candidate.seqnoLo).min?).getD 0

def chunkHi (chunk : List Candidate) : Nat := ((chunk.map Candidate.seqnoHi).max?).getD 0

/-- `merged-<lo>-<hi>` in an hour directory, `day-<lo>-<hi>` in a day directory. -/
def outRel (dir : Slot) (chunk : List Candidate) : BlockPath :=
  match dir with
  | .hour h => .merged h (chunkLo chunk) (chunkHi chunk)
  | .day d => .day d (chunkLo chunk) (chunkHi chunk)

/-- Set a retiring input's modification time. -/
def markRetired (now : Nat) (files : Files) (rel : BlockPath) : Option Files :=
  (files[rel]?).map (fun file => files.insert rel { file with modified := some now })

/-- The block a chunk becomes, from the rows its inputs hold at this moment: the
first copy of each span, in seqno order. -/
def mergedFile (now : Nat) (chunk : List Candidate) (rows : List NormalizedSpan) : BlockFile :=
  { rows := firstCopies spanKey [] rows
    provenance :=
      (Provenance.merged (chunkLo chunk) (chunkHi chunk) (chunk.map Candidate.rel)).withPriceTables
        ((chunk.flatMap Candidate.priceTables).insertionSort (· ≤ ·)).dedup
    modified := some now }

/-- Rewrite `chunk` as one block under `dir`, then commit the swap. -/
def mergeChunk (stamp : Nat) (dir : Slot) (dryRun : Bool) (run : MergeRun)
    (chunk : List Candidate) : Option MergeRun :=
  let out := outRel dir chunk
  if chunk.any (fun c => c.rel = out) then some run
  else
    let report :=
      { run.report with
        merges := run.report.merges + 1
        blocksIn := run.report.blocksIn + chunk.length
        blocksOut := run.report.blocksOut + 1
        spans := run.report.spans + (chunk.map Candidate.rows).sum }
    if dryRun then some { run with report := report }
    else do
      let inputs ← chunk.mapM (fun c => run.cold.files[c.rel]?)
      let rows := inputs.flatMap BlockFile.rows
      -- the mappings of every row read, a dropped copy's too
      let perInput := chunk.map (fun c => (c.rel, traceSet (rowsAt run.cold.files c.rel)))
      let renamed := run.cold.files.insert out (mergedFile stamp chunk rows)
      let stamped ← (chunk.map Candidate.rel).foldlM (markRetired stamp) renamed
      let outMeta : BlockMeta :=
        { relPath := out, maxStartUnixNano := maxStart rows, traceIds := traceSet rows }
      pure { run with
        cold := { index := run.cold.index.commitMerge outMeta perInput, files := stamped }
        report := report
        clobbered := if run.cold.index.Names out then out :: run.clobbered else run.clobbered }

/-- A chunk of one block is not a merge and is skipped. -/
def mergeOrSkip (stamp : Nat) (dir : Slot) (dryRun : Bool) (run : MergeRun)
    (chunk : List Candidate) : Option MergeRun :=
  if chunk.length < 2 then some run else mergeChunk stamp dir dryRun run chunk

def mergeChunks (stamp : Nat) (dir : Slot) (dryRun : Bool) (run : MergeRun)
    (planned : List (List Candidate)) : Option MergeRun :=
  planned.foldlM (mergeOrSkip stamp dir dryRun) run

/-- On a tick only blocks of a similar size merge together, once there are enough. -/
def hourGroups (policy : MergePolicy) (scope : MergeScope) (cands : List Candidate) :
    List (List Candidate) :=
  match scope with
  | .full => [cands]
  | .tick =>
    ((groupBy (fun c => tier c.rows) cands).toList.map Prod.snd).filter
      (fun t => policy.hourThreshold ≤ t.length)

/-- The gate before any footer is read. -/
def minBlocks (policy : MergePolicy) : MergeScope → Nat
  | .tick => policy.hourThreshold
  | .full => 2

/-- The chunks of one hour partition. -/
def hourChunks (policy : MergePolicy) (scope : MergeScope) (files : Files)
    (rels : List BlockPath) : List (List Candidate) :=
  if rels.length < minBlocks policy scope then []
  else (hourGroups policy scope (candidates files rels)).flatMap
    (fun cands => chunks cands policy.maxSpansPerBlock)

/-- The blocks of the chunks a preview would merge. -/
def consumedBy (dryRun : Bool) (planned : List (List Candidate)) : List BlockPath :=
  if dryRun then (planned.filter (fun chunk => 2 ≤ chunk.length)).flatMap (·.map Candidate.rel)
  else []

def mergeHour (policy : MergePolicy) (scope : MergeScope) (dryRun : Bool) (clock : Clock)
    (run : MergeRun) (partition : Hour × List BlockPath) : Option MergeRun :=
  let planned := hourChunks policy scope run.cold.files partition.2
  mergeChunks clock.stamp (.hour partition.1) dryRun
    { run with consumed := run.consumed ++ consumedBy dryRun planned } planned

/-- The chunks of one closed day. -/
def dayChunks (policy : MergePolicy) (scope : MergeScope) (clock : Clock)
    (consumed : List BlockPath) (files : Files) (rels : List BlockPath) :
    List (List Candidate) :=
  let rels := rels.filter (fun r => r ∉ consumed)
  if rels.length < 2 then []
  else
    let cands := candidates files rels
    if scope = .tick && !isQuiet cands clock.now policy.dayQuiet then []
    else chunks cands policy.maxSpansPerBlock

def mergeDay (policy : MergePolicy) (scope : MergeScope) (dryRun : Bool) (clock : Clock)
    (run : MergeRun) (partition : Day × List BlockPath) : Option MergeRun :=
  if dayIsClosed partition.1 clock.today then
    mergeChunks clock.stamp (.day partition.1) dryRun run
      (dayChunks policy scope clock run.consumed run.cold.files partition.2)
  else some run

def mergeHours (policy : MergePolicy) (scope : MergeScope) (dryRun : Bool) (clock : Clock)
    (run : MergeRun) : Option MergeRun :=
  (group run.cold.index).1.toList.foldlM (mergeHour policy scope dryRun clock) run

/-- Re-grouped after the hour phase, so that a real run sees its merged hour blocks. -/
def mergeDays (policy : MergePolicy) (scope : MergeScope) (dryRun : Bool) (clock : Clock)
    (run : MergeRun) : Option MergeRun :=
  if policy.dayMerge then
    (group run.cold.index).2.toList.foldlM (mergeDay policy scope dryRun clock) run
  else some run

/-- One merge pass under the compaction lock. -/
def mergeCold (policy : MergePolicy) (scope : MergeScope) (dryRun : Bool) (clock : Clock)
    (cold : ColdState) : Option MergeRun :=
  let run : MergeRun := { cold := cold, report := { dryRun := dryRun } }
  if scope = .tick && !policy.enabled then some run
  else do
    let afterHours ← mergeHours policy scope dryRun clock run
    mergeDays policy scope dryRun clock afterHours

end Evald.Store
