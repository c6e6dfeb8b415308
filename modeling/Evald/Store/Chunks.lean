import Mathlib.Data.List.Chain
import Evald.Store.MergeStep

/-! # The chunks of a plan

The planner fills one chunk after another with the candidates in seqno order.  The chunk
being filled is always within the cap once it holds two blocks, and it is closed only for a
block that does not fit, so the chunks are a capped partition that no chunk could have gone
on with (`chunks_spec`).
-/

namespace Evald.Store

/-! ## The order of the candidates -/

instance : Std.Total seqnoOrder where
  total a b := by
    unfold seqnoOrder
    obtain before | same | after := Nat.lt_trichotomy a.seqnoLo b.seqnoLo
    · exact .inl (.inl before)
    · by_cases behind : compare a.rel b.rel = .gt
      · right
        right
        refine ⟨same.symm, ?_⟩
        rw [Std.OrientedOrd.eq_swap, behind]
        decide
      · exact .inl (.inr ⟨same, behind⟩)
    · exact .inr (.inl after)

instance : IsTrans Candidate seqnoOrder where
  trans a b c first second := by
    unfold seqnoOrder at *
    cases first with
    | inl before =>
      left
      obtain before' | ⟨same, -⟩ := second <;> omega
    | inr first =>
      obtain ⟨same, notBehind⟩ := first
      cases second with
      | inl before => exact .inl (by omega)
      | inr second =>
        obtain ⟨same', notBehind'⟩ := second
        refine .inr ⟨same.trans same', ?_⟩
        exact Ordering.ne_gt_iff_isLE.mpr (Std.TransCmp.isLE_trans
          (Ordering.ne_gt_iff_isLE.mp notBehind) (Ordering.ne_gt_iff_isLE.mp notBehind'))

/-! ## Filling one chunk -/

/-- The rows of a chunk, added up as the planner does. -/
def rowsOf (chunk : List Candidate) : Nat :=
  chunk.foldl (fun rows c => saturatingAdd rows c.rows) 0

theorem rowsOf_snoc (chunk : List Candidate) (c : Candidate) :
    rowsOf (chunk ++ [c]) = saturatingAdd (rowsOf chunk) c.rows := by
  rw [rowsOf, List.foldl_append]
  rfl

/-- A chunk is not empty, and with two blocks or more it is within the cap. -/
def Capped (cap : Nat) (chunk : List Candidate) : Prop :=
  chunk ≠ [] ∧ (2 ≤ chunk.length → rowsOf chunk ≤ cap)

/-- The first block of the next chunk would have passed the cap. -/
def Full (cap : Nat) (chunk next : List Candidate) : Prop :=
  ∃ c rest, next = c :: rest ∧ cap < rowsOf (chunk ++ [c])

/-- What is to be filled stays at the front of the first chunk. -/
theorem head_cutChunks (cap rows : Nat) {current : List Candidate} (nonempty : current ≠ [])
    (cands : List Candidate) : ∃ more others,
      cutChunks cap current rows cands = (current ++ more) :: others := by
  induction cands generalizing current rows with
  | nil =>
    refine ⟨[], [], ?_⟩
    rw [cutChunks, if_neg (by simpa using nonempty), List.append_nil]
  | cons c cands inductionHypothesis =>
    unfold cutChunks
    split
    · exact ⟨[], _, by rw [List.append_nil]⟩
    · obtain ⟨more, others, filled⟩ :=
        inductionHypothesis (saturatingAdd rows c.rows) (List.append_ne_nil_of_left_ne_nil nonempty [c])
      exact ⟨c :: more, others, by rw [filled, List.append_assoc]; rfl⟩

/-- The loop keeps the chunk being filled within the cap, and closes it only when full. -/
theorem cutChunks_spec {cap : Nat} {current : List Candidate}
    (within : 2 ≤ current.length → rowsOf current ≤ cap) (cands : List Candidate) :
    (∀ chunk ∈ cutChunks cap current (rowsOf current) cands, Capped cap chunk) ∧
      (cutChunks cap current (rowsOf current) cands).IsChain (Full cap) := by
  induction cands generalizing current with
  | nil =>
    unfold cutChunks
    split
    · exact ⟨by simp, .nil⟩
    · rename_i filled
      rw [List.isEmpty_iff] at filled
      refine ⟨fun chunk member => ?_, .singleton _⟩
      rw [List.mem_singleton.mp member]
      exact ⟨filled, within⟩
  | cons c cands inductionHypothesis =>
    unfold cutChunks
    split
    · rename_i full
      rw [Bool.and_eq_true, Bool.not_eq_true', decide_eq_true_eq] at full
      obtain ⟨filled, passes⟩ := full
      have alone : saturatingAdd 0 c.rows = rowsOf [c] := rfl
      rw [alone]
      obtain ⟨capped, chain⟩ := @inductionHypothesis [c] (by simp)
      obtain ⟨more, others, next⟩ := head_cutChunks cap (rowsOf [c]) (by simp : [c] ≠ []) cands
      constructor
      · intro chunk member
        cases List.mem_cons.mp member with
        | inl closed =>
          rw [closed]
          exact ⟨by simpa using filled, within⟩
        | inr later => exact capped chunk later
      · rw [next] at chain ⊢
        refine .cons_cons ⟨c, more, rfl, ?_⟩ chain
        rw [rowsOf_snoc]
        exact passes
    · rename_i room
      rw [← rowsOf_snoc]
      apply inductionHypothesis
      intro two
      rw [rowsOf_snoc]
      -- a chunk that holds a block takes another only below the cap
      have filled : current.isEmpty = false := by
        cases current with
        | nil => simp at two
        | cons first rest => rfl
      rw [filled] at room
      simpa using room

/-- Whatever the candidates and the cap, which counts as one when it is zero: the chunks are
the candidates in seqno order, cut; none is empty; with two blocks or more a chunk is within
the cap; and the first block of the next one would have passed it. -/
theorem chunks_spec (cands : List Candidate) (maxSpans : Nat) :
    ((chunks cands maxSpans).flatten.Perm cands ∧
      (chunks cands maxSpans).flatten.Pairwise seqnoOrder) ∧
    (∀ chunk ∈ chunks cands maxSpans, chunk ≠ [] ∧
      (2 ≤ chunk.length → rowsOf chunk ≤ max maxSpans 1)) ∧
    (chunks cands maxSpans).IsChain (fun chunk next =>
      ∃ c rest, next = c :: rest ∧ max maxSpans 1 < rowsOf (chunk ++ [c])) := by
  rw [flatten_chunks]
  refine ⟨⟨List.perm_insertionSort _ _, List.pairwise_insertionSort seqnoOrder _⟩, ?_⟩
  exact @cutChunks_spec (max maxSpans 1) [] (by simp) (cands.insertionSort seqnoOrder)

def blockOf (rows seqno : Nat) : Candidate :=
  { rel := .flush { day := { year := 2026, month := 1, day := 1 }, hour := 0 } seqno 0
    rows := rows
    modified := none
    seqnoLo := seqno
    seqnoHi := seqno
    priceTables := [] }

/-- A cap of zero counts as one: an empty block and one of a single row are one chunk. -/
theorem chunks_past_zero :
    ¬ ∀ cands maxSpans, ∀ chunk ∈ chunks cands maxSpans,
      2 ≤ chunk.length → rowsOf chunk ≤ maxSpans := by
  intro capped
  have cut : chunks [blockOf 0 1, blockOf 1 2] 0 = [[blockOf 0 1, blockOf 1 2]] := by decide
  have within := capped [blockOf 0 1, blockOf 1 2] 0 [blockOf 0 1, blockOf 1 2]
    (by rw [cut]; exact List.mem_cons_self) (by decide)
  exact absurd within (by decide)

end Evald.Store
