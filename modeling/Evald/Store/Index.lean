import Evald.Store.Path
import Evald.Lib.Multimap

/-! # The commit index

The redb index: the watermark, the table of committed blocks and the multimap
from a trace to the blocks that hold it.  Each method is one transaction, so each
is one function from index to index.  The lemmas after a transaction say what it
does to the two tables, entry by entry.
-/

namespace Evald.Store

open Evald.Lib

/-- What a written block tells the index. -/
structure BlockMeta where
  relPath : BlockPath
  maxStartUnixNano : Nat
  traceIds : Std.ExtTreeSet String

structure Index where
  /-- `META["watermark"]`. -/
  watermarkEntry : Option Nat := none
  /-- `BLOCKS`: the committed blocks, each with its newest start. -/
  blocks : Std.ExtTreeMap BlockPath Nat := ∅
  /-- `TRACE_BLOCKS`. -/
  traceBlocks : Multimap String BlockPath := ∅

namespace Index

/-- The highest WAL seqno durably flushed to cold (0 if none). -/
def watermark (index : Index) : Nat := index.watermarkEntry.getD 0

def recordBlock (index : Index) (b : BlockMeta) : Index :=
  { index with
    blocks := index.blocks.insert b.relPath b.maxStartUnixNano
    traceBlocks := (b.traceIds.toList.map (fun t => (t, b.relPath))).foldl
      (fun m e => m.insertPair e.1 e.2) index.traceBlocks }

def commitFlush (index : Index) (sealedSeqno : Nat) (blocks : List BlockMeta) : Index :=
  { blocks.foldl recordBlock index with watermarkEntry := some sealedSeqno }

def removeInput (index : Index) (input : BlockPath × Std.ExtTreeSet String) : Index :=
  { index with
    blocks := index.blocks.erase input.1
    traceBlocks := (input.2.toList.map (fun t => (t, input.1))).foldl
      (fun m e => m.removePair e.1 e.2) index.traceBlocks }

def commitMerge (index : Index) (output : BlockMeta)
    (inputs : List (BlockPath × Std.ExtTreeSet String)) : Index :=
  (inputs.foldl removeInput index).recordBlock output

def allBlockPaths (index : Index) : List BlockPath := index.blocks.keys

def blockPathsForTrace (index : Index) (traceId : String) : List BlockPath :=
  (index.traceBlocks.valuesOf traceId).toList

def blocksWithMaxStart (index : Index) : List (BlockPath × Nat) := index.blocks.toList

def dropBlocks (index : Index) (paths : List BlockPath) : Index :=
  if paths.isEmpty then index
  else
    -- the mappings that point at a dropped block are collected before any is removed
    let stale := index.traceBlocks.pairs.filter (fun e => e.2 ∈ paths)
    { index with
      blocks := eraseAll index.blocks paths
      traceBlocks := stale.foldl (fun m e => m.removePair e.1 e.2) index.traceBlocks }

/-- The index names `p`. -/
def Names (index : Index) (p : BlockPath) : Prop := p ∈ index.blocks

instance (index : Index) (p : BlockPath) : Decidable (index.Names p) :=
  inferInstanceAs (Decidable (p ∈ index.blocks))

/-- The index maps trace `t` to block `p`. -/
def Maps (index : Index) (t : String) (p : BlockPath) : Prop := index.traceBlocks.Holds t p

@[simp] theorem mem_allBlockPaths {index : Index} {p : BlockPath} :
    p ∈ index.allBlockPaths ↔ index.Names p := Std.ExtTreeMap.mem_keys

@[simp] theorem mem_blockPathsForTrace {index : Index} {t : String} {p : BlockPath} :
    p ∈ index.blockPathsForTrace t ↔ index.Maps t p := Std.ExtTreeSet.mem_toList

theorem nodup_allBlockPaths (index : Index) : index.allBlockPaths.Nodup :=
  Std.ExtTreeMap.nodup_keys

theorem names_iff_exists_start {index : Index} {p : BlockPath} :
    index.Names p ↔ ∃ start, (p, start) ∈ index.blocksWithMaxStart := by
  simp only [Names, blocksWithMaxStart, Std.ExtTreeMap.mem_toList_iff_getElem?_eq_some]
  rw [Std.ExtTreeMap.mem_iff_isSome_getElem?, Option.isSome_iff_exists]

/-! ## Recording blocks -/

@[simp] theorem names_empty (p : BlockPath) : ¬ Names {} p := Std.ExtTreeMap.not_mem_empty

@[simp] theorem maps_empty (t : String) (p : BlockPath) : ¬ Maps {} t p :=
  Multimap.holds_empty t p

theorem names_recordBlock {index : Index} {b : BlockMeta} {p : BlockPath} :
    (index.recordBlock b).Names p ↔ p = b.relPath ∨ index.Names p := by
  rw [Names, recordBlock, Std.ExtTreeMap.mem_insert, Std.LawfulEqOrd.compare_eq_iff_eq]
  exact or_congr eq_comm .rfl

theorem maps_recordBlock {index : Index} {b : BlockMeta} {t : String} {p : BlockPath} :
    (index.recordBlock b).Maps t p ↔ (p = b.relPath ∧ t ∈ b.traceIds) ∨ index.Maps t p := by
  rw [Maps, recordBlock, Multimap.holds_foldl_insertPair]
  simp only [List.mem_map, Std.ExtTreeSet.mem_toList, Prod.mk.injEq]
  refine or_congr ⟨?_, ?_⟩ .rfl
  · rintro ⟨_, member, rfl, rfl⟩
    exact ⟨rfl, member⟩
  · rintro ⟨rfl, member⟩
    exact ⟨t, member, rfl, rfl⟩

theorem names_foldl_recordBlock {blocks : List BlockMeta} {index : Index} {p : BlockPath} :
    (blocks.foldl recordBlock index).Names p ↔
      (∃ b ∈ blocks, p = b.relPath) ∨ index.Names p := by
  induction blocks generalizing index with
  | nil => simp
  | cons b blocks inductionHypothesis =>
    rw [List.foldl_cons, inductionHypothesis, names_recordBlock]
    rw [List.exists_mem_cons_iff, or_assoc, or_left_comm]

theorem maps_foldl_recordBlock {blocks : List BlockMeta} {index : Index} {t : String}
    {p : BlockPath} :
    (blocks.foldl recordBlock index).Maps t p ↔
      (∃ b ∈ blocks, p = b.relPath ∧ t ∈ b.traceIds) ∨ index.Maps t p := by
  induction blocks generalizing index with
  | nil => simp
  | cons b blocks inductionHypothesis =>
    rw [List.foldl_cons, inductionHypothesis, maps_recordBlock]
    rw [List.exists_mem_cons_iff, or_assoc, or_left_comm]

@[simp] theorem watermark_commitFlush (index : Index) (sealedSeqno : Nat)
    (blocks : List BlockMeta) : (index.commitFlush sealedSeqno blocks).watermark = sealedSeqno :=
  rfl

theorem names_commitFlush {index : Index} {sealedSeqno : Nat} {blocks : List BlockMeta}
    {p : BlockPath} :
    (index.commitFlush sealedSeqno blocks).Names p ↔
      (∃ b ∈ blocks, p = b.relPath) ∨ index.Names p :=
  names_foldl_recordBlock

theorem maps_commitFlush {index : Index} {sealedSeqno : Nat} {blocks : List BlockMeta}
    {t : String} {p : BlockPath} :
    (index.commitFlush sealedSeqno blocks).Maps t p ↔
      (∃ b ∈ blocks, p = b.relPath ∧ t ∈ b.traceIds) ∨ index.Maps t p :=
  maps_foldl_recordBlock

/-! ## Swapping and dropping blocks -/

theorem names_removeInput {index : Index} {input : BlockPath × Std.ExtTreeSet String}
    {p : BlockPath} : (index.removeInput input).Names p ↔ p ≠ input.1 ∧ index.Names p := by
  rw [Names, removeInput, Std.ExtTreeMap.mem_erase, Names]
  refine and_congr ?_ .rfl
  rw [ne_eq, ne_eq, Std.LawfulEqOrd.compare_eq_iff_eq, eq_comm]

theorem maps_removeInput {index : Index} {input : BlockPath × Std.ExtTreeSet String}
    {t : String} {p : BlockPath} :
    (index.removeInput input).Maps t p ↔ ¬ (p = input.1 ∧ t ∈ input.2) ∧ index.Maps t p := by
  rw [Maps, removeInput, Multimap.holds_foldl_removePair, Maps]
  refine and_congr (not_congr ?_) .rfl
  simp only [List.mem_map, Std.ExtTreeSet.mem_toList, Prod.mk.injEq]
  constructor
  · rintro ⟨_, member, rfl, rfl⟩
    exact ⟨rfl, member⟩
  · rintro ⟨rfl, member⟩
    exact ⟨t, member, rfl, rfl⟩

theorem names_foldl_removeInput {inputs : List (BlockPath × Std.ExtTreeSet String)}
    {index : Index} {p : BlockPath} :
    (inputs.foldl removeInput index).Names p ↔
      (∀ input ∈ inputs, p ≠ input.1) ∧ index.Names p := by
  induction inputs generalizing index with
  | nil => simp
  | cons input inputs inductionHypothesis =>
    rw [List.foldl_cons, inductionHypothesis, names_removeInput, List.forall_mem_cons]
    tauto

theorem maps_foldl_removeInput {inputs : List (BlockPath × Std.ExtTreeSet String)}
    {index : Index} {t : String} {p : BlockPath} :
    (inputs.foldl removeInput index).Maps t p ↔
      (∀ input ∈ inputs, ¬ (p = input.1 ∧ t ∈ input.2)) ∧ index.Maps t p := by
  induction inputs generalizing index with
  | nil => simp
  | cons input inputs inductionHypothesis =>
    rw [List.foldl_cons, inductionHypothesis, maps_removeInput, List.forall_mem_cons]
    tauto

theorem watermarkEntry_foldl_removeInput (inputs : List (BlockPath × Std.ExtTreeSet String))
    (index : Index) : (inputs.foldl removeInput index).watermarkEntry = index.watermarkEntry := by
  induction inputs generalizing index with
  | nil => rfl
  | cons input inputs inductionHypothesis => exact inductionHypothesis _

/-- A merge moves spans between cold files, it flushes nothing. -/
@[simp] theorem watermark_commitMerge (index : Index) (output : BlockMeta)
    (inputs : List (BlockPath × Std.ExtTreeSet String)) :
    (index.commitMerge output inputs).watermark = index.watermark := by
  rw [watermark, commitMerge, recordBlock, watermarkEntry_foldl_removeInput, watermark]

theorem names_commitMerge {index : Index} {output : BlockMeta}
    {inputs : List (BlockPath × Std.ExtTreeSet String)} {p : BlockPath} :
    (index.commitMerge output inputs).Names p ↔
      p = output.relPath ∨ (∀ input ∈ inputs, p ≠ input.1) ∧ index.Names p := by
  rw [commitMerge, names_recordBlock, names_foldl_removeInput]

theorem maps_commitMerge {index : Index} {output : BlockMeta}
    {inputs : List (BlockPath × Std.ExtTreeSet String)} {t : String} {p : BlockPath} :
    (index.commitMerge output inputs).Maps t p ↔
      (p = output.relPath ∧ t ∈ output.traceIds) ∨
        (∀ input ∈ inputs, ¬ (p = input.1 ∧ t ∈ input.2)) ∧ index.Maps t p := by
  rw [commitMerge, maps_recordBlock, maps_foldl_removeInput]

@[simp] theorem watermark_dropBlocks (index : Index) (paths : List BlockPath) :
    (index.dropBlocks paths).watermark = index.watermark := by
  unfold dropBlocks
  split <;> rfl

theorem names_dropBlocks {index : Index} {paths : List BlockPath} {p : BlockPath} :
    (index.dropBlocks paths).Names p ↔ p ∉ paths ∧ index.Names p := by
  unfold dropBlocks
  split
  · next none =>
    rw [List.isEmpty_iff] at none
    simp [none]
  · exact mem_eraseAll

theorem maps_dropBlocks {index : Index} {paths : List BlockPath} {t : String} {p : BlockPath} :
    (index.dropBlocks paths).Maps t p ↔ p ∉ paths ∧ index.Maps t p := by
  unfold dropBlocks
  split
  · next none =>
    rw [List.isEmpty_iff] at none
    simp [none]
  · rw [Maps, Multimap.holds_foldl_removePair, List.mem_filter, Multimap.mem_pairs, Maps]
    simp only [decide_eq_true_eq]
    tauto

/-! ## The recorded starts -/

theorem getElem?_blocks_recordBlock (index : Index) (b : BlockMeta) (p : BlockPath) :
    (index.recordBlock b).blocks[p]? =
      if b.relPath = p then some b.maxStartUnixNano else index.blocks[p]? := by
  rw [recordBlock, Std.ExtTreeMap.getElem?_insert]
  simp only [Std.LawfulEqOrd.compare_eq_iff_eq]

theorem getElem?_blocks_foldl_removeInput (inputs : List (BlockPath × Std.ExtTreeSet String))
    (index : Index) (p : BlockPath) :
    (inputs.foldl removeInput index).blocks[p]? =
      if p ∈ inputs.map Prod.fst then none else index.blocks[p]? := by
  induction inputs generalizing index with
  | nil => simp
  | cons input inputs inductionHypothesis =>
    rw [List.foldl_cons, inductionHypothesis, removeInput, Std.ExtTreeMap.getElem?_erase]
    simp only [Std.LawfulEqOrd.compare_eq_iff_eq, List.map_cons, List.mem_cons]
    by_cases later : p ∈ inputs.map Prod.fst
    · rw [if_pos later, if_pos (.inr later)]
    · simp only [later, or_false, if_false, eq_comm (a := p)]

theorem getElem?_blocks_commitMerge (index : Index) (output : BlockMeta)
    (inputs : List (BlockPath × Std.ExtTreeSet String)) (p : BlockPath) :
    (index.commitMerge output inputs).blocks[p]? =
      if output.relPath = p then some output.maxStartUnixNano
      else if p ∈ inputs.map Prod.fst then none else index.blocks[p]? := by
  rw [commitMerge, getElem?_blocks_recordBlock, getElem?_blocks_foldl_removeInput]

theorem getElem?_blocks_commitFlush_other {index : Index} {sealedSeqno : Nat}
    {blocks : List BlockMeta} {p : BlockPath} (other : ∀ b ∈ blocks, b.relPath ≠ p) :
    (index.commitFlush sealedSeqno blocks).blocks[p]? = index.blocks[p]? := by
  change (blocks.foldl recordBlock index).blocks[p]? = _
  induction blocks generalizing index with
  | nil => rfl
  | cons b blocks inductionHypothesis =>
    obtain ⟨here, later⟩ := List.forall_mem_cons.mp other
    rw [List.foldl_cons, inductionHypothesis later, getElem?_blocks_recordBlock, if_neg here]

theorem getElem?_blocks_commitFlush {index : Index} {sealedSeqno : Nat}
    {blocks : List BlockMeta} (distinct : (blocks.map BlockMeta.relPath).Nodup) {b : BlockMeta}
    (member : b ∈ blocks) :
    (index.commitFlush sealedSeqno blocks).blocks[b.relPath]? = some b.maxStartUnixNano := by
  change (blocks.foldl recordBlock index).blocks[b.relPath]? = _
  induction blocks generalizing index with
  | nil => cases member
  | cons first blocks inductionHypothesis =>
    rw [List.map_cons, List.nodup_cons] at distinct
    rw [List.foldl_cons]
    cases member with
    | head =>
      have later : ((index.recordBlock b).commitFlush sealedSeqno blocks).blocks[b.relPath]? =
          (index.recordBlock b).blocks[b.relPath]? :=
        getElem?_blocks_commitFlush_other
          (fun other inLater same => distinct.1 (same ▸ List.mem_map_of_mem inLater))
      refine Eq.trans later ?_
      rw [getElem?_blocks_recordBlock, if_pos rfl]
    | tail _ inLater => exact inductionHypothesis distinct.2 inLater

theorem getElem?_blocks_dropBlocks (index : Index) (paths : List BlockPath) (p : BlockPath) :
    (index.dropBlocks paths).blocks[p]? = if p ∈ paths then none else index.blocks[p]? := by
  unfold dropBlocks
  split
  · next none =>
    rw [List.isEmpty_iff] at none
    simp [none]
  · split
    · next gone => exact getElem?_eraseAll_mem gone
    · next kept => exact getElem?_eraseAll_not_mem kept

theorem mem_blocksWithMaxStart {index : Index} {p : BlockPath} {start : Nat} :
    (p, start) ∈ index.blocksWithMaxStart ↔ index.blocks[p]? = some start :=
  Std.ExtTreeMap.mem_toList_iff_getElem?_eq_some

end Index

end Evald.Store
