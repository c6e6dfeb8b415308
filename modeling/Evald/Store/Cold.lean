import Evald.Store.Index
import Evald.Store.Key
import Evald.Lib.FirstCopies
import Evald.Lib.GroupBy

/-! # Cold blocks

A block file holds rows, the provenance in its footer and a modification time;
the cold tier is the index together with the files on disk.  `flushPlan` is what
`flush_one` writes for a sealed segment: one block for each hour partition, each
span once.  `flushOne` writes the plan and commits it.
-/

namespace Evald.Store

open Evald.Lib

inductive BlockKind where
  | flush
  | merged
  deriving DecidableEq, Repr

/-- A block's provenance, as written into its footer. -/
structure Provenance where
  kind : BlockKind
  seqnoLo : Nat
  seqnoHi : Nat
  mergedFrom : List BlockPath := []
  priceTables : List String := []
  deriving DecidableEq, Repr

def Provenance.flush (seqno : Nat) : Provenance :=
  { kind := .flush, seqnoLo := seqno, seqnoHi := seqno }

def Provenance.merged (seqnoLo seqnoHi : Nat) (mergedFrom : List BlockPath) : Provenance :=
  { kind := .merged, seqnoLo := seqnoLo, seqnoHi := seqnoHi, mergedFrom := mergedFrom }

def Provenance.withPriceTables (p : Provenance) (versions : List String) : Provenance :=
  { p with priceTables := versions }

structure BlockFile where
  rows : List NormalizedSpan
  provenance : Provenance
  /-- The modification time, where the file system gives one. -/
  modified : Option Nat

abbrev Files := Std.ExtTreeMap BlockPath BlockFile

/-- The index and the block files on disk. -/
structure ColdState where
  index : Index := {}
  files : Files := ∅

/-- The trace ids of some rows. -/
def traceSet (rows : List NormalizedSpan) : Std.ExtTreeSet String :=
  rows.foldl (fun traces s => traces.insert s.traceId) ∅

/-- The newest start of some rows (0 if none). -/
def maxStart (rows : List NormalizedSpan) : Nat :=
  rows.foldl (fun newest s => max newest s.startUnixNano) 0

def blockMeta (path : BlockPath) (rows : List NormalizedSpan) : BlockMeta :=
  { relPath := path, maxStartUnixNano := maxStart rows, traceIds := traceSet rows }

/-- Publish one block by rename, replacing whatever was at its path. -/
def writeBlock (now : Nat) (files : Files) (path : BlockPath) (spans : List NormalizedSpan)
    (provenance : Provenance) : Files :=
  files.insert path { rows := spans, provenance := provenance, modified := some now }

/-- The rows of the file at `p` (none where there is no file). -/
def rowsAt (files : Files) (p : BlockPath) : List NormalizedSpan :=
  match files[p]? with
  | some file => file.rows
  | none => []

/-- The key is stored in a file the index names. -/
def ColdState.Holds (cold : ColdState) (k : SpanKey) : Prop :=
  ∃ p, cold.index.Names p ∧ k ∈ (rowsAt cold.files p).map spanKey

/-! ## Flushing a segment -/

/-- The hour partition of a span. -/
def spanPartition (s : NormalizedSpan) : Hour := partitionOf s.startUnixNano

/-- The blocks a segment is flushed to: the first copy of each span, one block for
each partition, numbered in partition order. -/
def flushPlan (seqno : Nat) (spans : List NormalizedSpan) :
    List (BlockPath × List NormalizedSpan) :=
  (groupBy spanPartition (firstCopies spanKey [] spans)).toList.zipIdx.map
    (fun e => (.flush e.1.1 seqno e.2, e.1.2))

/-- The file that one planned block of segment `seqno` becomes. -/
def writePlanned (priceTable : String) (now seqno : Nat) (files : Files)
    (block : BlockPath × List NormalizedSpan) : Files :=
  writeBlock now files block.1 block.2 ((Provenance.flush seqno).withPriceTables [priceTable])

/-- `flush_one` up to its commit: write every block, then record them all and the
watermark in one transaction. -/
def flushOne (priceTable : String) (now : Nat) (cold : ColdState) (seqno : Nat)
    (spans : List NormalizedSpan) : ColdState :=
  let plan := flushPlan seqno spans
  { index := cold.index.commitFlush seqno (plan.map (fun b => blockMeta b.1 b.2))
    files := plan.foldl (writePlanned priceTable now seqno) cold.files }

/-! ## What rows hold -/

theorem mem_foldl_insert_traceId {t : String} {rows : List NormalizedSpan}
    {traces : Std.ExtTreeSet String} :
    t ∈ rows.foldl (fun traces s => traces.insert s.traceId) traces ↔
      (∃ s ∈ rows, s.traceId = t) ∨ t ∈ traces := by
  induction rows generalizing traces with
  | nil => simp
  | cons s rows inductionHypothesis =>
    rw [List.foldl_cons, inductionHypothesis, Std.ExtTreeSet.mem_insert,
      Std.LawfulEqOrd.compare_eq_iff_eq, List.exists_mem_cons_iff, or_assoc, or_left_comm]

@[simp] theorem mem_traceSet {t : String} {rows : List NormalizedSpan} :
    t ∈ traceSet rows ↔ ∃ s ∈ rows, s.traceId = t := by
  rw [traceSet, mem_foldl_insert_traceId]
  simp

theorem foldl_max_le_iff {rows : List NormalizedSpan} {newest bound : Nat} :
    rows.foldl (fun newest s => max newest s.startUnixNano) newest ≤ bound ↔
      newest ≤ bound ∧ ∀ s ∈ rows, s.startUnixNano ≤ bound := by
  induction rows generalizing newest with
  | nil => simp
  | cons s rows inductionHypothesis =>
    rw [List.foldl_cons, inductionHypothesis, List.forall_mem_cons, max_le_iff, and_assoc]

theorem maxStart_le_iff {rows : List NormalizedSpan} {bound : Nat} :
    maxStart rows ≤ bound ↔ ∀ s ∈ rows, s.startUnixNano ≤ bound := by
  rw [maxStart, foldl_max_le_iff]
  simp

theorem le_maxStart {rows : List NormalizedSpan} {s : NormalizedSpan} (member : s ∈ rows) :
    s.startUnixNano ≤ maxStart rows :=
  maxStart_le_iff.mp le_rfl s member

@[simp] theorem getElem?_writeBlock {now : Nat} {files : Files} {path p : BlockPath}
    {spans : List NormalizedSpan} {provenance : Provenance} :
    (writeBlock now files path spans provenance)[p]? =
      if path = p then some ⟨spans, provenance, some now⟩ else files[p]? := by
  rw [writeBlock, Std.ExtTreeMap.getElem?_insert]
  simp only [Std.LawfulEqOrd.compare_eq_iff_eq]

theorem rowsAt_eq_of_getElem? {files files' : Files} {p : BlockPath}
    (same : files[p]? = files'[p]?) : rowsAt files p = rowsAt files' p := by
  rw [rowsAt, rowsAt, same]

/-! ## What a flush writes -/

theorem mem_flushPlan {seqno : Nat} {spans : List NormalizedSpan}
    {block : BlockPath × List NormalizedSpan} (member : block ∈ flushPlan seqno spans) :
    ∃ hour idx, block.1 = .flush hour seqno idx ∧
      block.2 = (firstCopies spanKey [] spans).filter (fun s => spanPartition s = hour) ∧
      block.2 ≠ [] := by
  obtain ⟨⟨⟨hour, group⟩, idx⟩, listed, rfl⟩ := List.mem_map.mp member
  have grouped : (hour, group) ∈ (groupBy spanPartition (firstCopies spanKey [] spans)).toList :=
    (List.mem_zipIdx' listed).2 ▸ List.getElem_mem _
  obtain ⟨rows, nonempty⟩ := mem_toList_groupBy.mp grouped
  exact ⟨hour, idx, rfl, rows, nonempty⟩

/-- The first copy of every span is in the block of its partition. -/
theorem exists_mem_flushPlan (seqno : Nat) {spans : List NormalizedSpan} {s : NormalizedSpan}
    (kept : s ∈ firstCopies spanKey [] spans) :
    ∃ block ∈ flushPlan seqno spans, s ∈ block.2 := by
  have grouped := mem_group spanPartition kept
  obtain ⟨idx, bound, atIdx⟩ := List.getElem_of_mem grouped
  have numbered : ((spanPartition s, _), idx) ∈
      (groupBy spanPartition (firstCopies spanKey [] spans)).toList.zipIdx :=
    List.mem_zipIdx_iff_getElem?.mpr (List.getElem?_eq_some_iff.mpr ⟨bound, atIdx⟩)
  exact ⟨_, List.mem_map_of_mem numbered, by simp [kept]⟩

/-- The blocks of one flush are for different hours. -/
theorem nodup_slots_flushPlan (seqno : Nat) (spans : List NormalizedSpan) :
    ((flushPlan seqno spans).map (fun b => slotOf b.1)).Nodup := by
  have hours := nodup_keys_toList (groupBy spanPartition (firstCopies spanKey [] spans))
  have same : (flushPlan seqno spans).map (fun b => slotOf b.1) =
      ((groupBy spanPartition (firstCopies spanKey [] spans)).toList.zipIdx.map Prod.fst).map
        (fun e => Slot.hour e.1) := by
    rw [flushPlan, List.map_map, List.map_map]
    rfl
  have slots := hours.map (f := Slot.hour) (fun _ _ equal => by injection equal)
  rw [List.map_map] at slots
  rw [same, List.zipIdx_map_fst]
  exact slots

theorem nodup_paths_flushPlan (seqno : Nat) (spans : List NormalizedSpan) :
    ((flushPlan seqno spans).map Prod.fst).Nodup := by
  apply List.Nodup.of_map slotOf
  rw [List.map_map]
  exact nodup_slots_flushPlan seqno spans

theorem mem_keys_flushPlan (seqno : Nat) {spans : List NormalizedSpan} {k : SpanKey} :
    (∃ block ∈ flushPlan seqno spans, k ∈ block.2.map spanKey) ↔ k ∈ spans.map spanKey := by
  rw [← mem_keys_firstCopies_nil spanKey spans k]
  constructor
  · rintro ⟨block, member, held⟩
    obtain ⟨hour, idx, -, rows, -⟩ := mem_flushPlan member
    rw [rows] at held
    obtain ⟨s, kept, rfl⟩ := List.mem_map.mp held
    exact List.mem_map_of_mem (List.mem_of_mem_filter kept)
  · intro held
    obtain ⟨s, kept, rfl⟩ := List.mem_map.mp held
    obtain ⟨block, member, inBlock⟩ := exists_mem_flushPlan seqno kept
    exact ⟨block, member, List.mem_map_of_mem inBlock⟩

/-- A flushed block holds no span twice. -/
theorem nodup_keys_flushPlan {seqno : Nat} {spans : List NormalizedSpan}
    {block : BlockPath × List NormalizedSpan} (member : block ∈ flushPlan seqno spans) :
    (block.2.map spanKey).Nodup := by
  obtain ⟨hour, idx, -, rows, -⟩ := mem_flushPlan member
  rw [rows]
  exact (nodup_keys_firstCopies spanKey [] spans).sublist (List.filter_sublist.map spanKey)

/-! ## Writing a plan -/

theorem getElem?_foldl_writePlanned_other {priceTable : String} {now seqno : Nat}
    {plan : List (BlockPath × List NormalizedSpan)} {files : Files} {p : BlockPath}
    (other : ∀ block ∈ plan, block.1 ≠ p) :
    (plan.foldl (writePlanned priceTable now seqno) files)[p]? = files[p]? := by
  induction plan generalizing files with
  | nil => rfl
  | cons block plan inductionHypothesis =>
    obtain ⟨here, later⟩ := List.forall_mem_cons.mp other
    rw [List.foldl_cons, inductionHypothesis later, writePlanned, getElem?_writeBlock,
      if_neg here]

theorem getElem?_foldl_writePlanned {priceTable : String} {now seqno : Nat}
    {plan : List (BlockPath × List NormalizedSpan)} {files : Files}
    (distinct : (plan.map Prod.fst).Nodup) {block : BlockPath × List NormalizedSpan}
    (member : block ∈ plan) :
    (plan.foldl (writePlanned priceTable now seqno) files)[block.1]? =
      some ⟨block.2, (Provenance.flush seqno).withPriceTables [priceTable], some now⟩ := by
  induction plan generalizing files with
  | nil => cases member
  | cons first plan inductionHypothesis =>
    rw [List.map_cons, List.nodup_cons] at distinct
    rw [List.foldl_cons]
    rcases List.mem_cons.mp member with rfl | later
    · rw [getElem?_foldl_writePlanned_other, writePlanned, getElem?_writeBlock, if_pos rfl]
      intro other otherMember same
      exact distinct.1 (same ▸ List.mem_map_of_mem otherMember)
    · exact inductionHypothesis distinct.2 later

end Evald.Store
