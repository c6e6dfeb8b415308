import Mathlib.Algebra.GroupWithZero.Nat
import Mathlib.Data.List.SplitBy
import Mathlib.Order.Bounds.Basic

/-! # Blocks of one kind

Some elements of a list have a kind.  Neighbours of the same kind make up blocks, and an
element without a kind is a block of its own.  One pass with a running counter finds the
longest block of one kind (`Counts.longest`) and counts every element of a maximal block but
its first (`repeated_eq`).
-/

namespace Evald.Lib

variable {α κ : Type*}

/-- Any two elements have a kind, and it is the same. -/
def Uniform (kind : α → Option κ) (block : List α) : Prop :=
  ∀ x ∈ block, ∀ y ∈ block, ∃ k, kind x = some k ∧ kind y = some k

/-- `xs` cut into blocks of one kind, or of one element, no two of which could be one. -/
structure MaximalBlocks (kind : α → Option κ) (xs : List α) (blocks : List (List α)) : Prop where
  cut : blocks.flatten = xs
  nonempty : ∀ block ∈ blocks, block ≠ []
  uniform : ∀ block ∈ blocks, block.length = 1 ∨ Uniform kind block
  apart : blocks.IsChain (fun block next => ¬ Uniform kind (block ++ next))

/-- The lengths of the blocks of one kind at the end of a list. -/
def endings (kind : α → Option κ) (xs : List α) : Set Nat :=
  {n | ∃ block, block <:+ xs ∧ Uniform kind block ∧ block.length = n}

/-- The lengths of all blocks of one kind. -/
def lengths (kind : α → Option κ) (xs : List α) : Set Nat :=
  {n | ∃ block, block <:+: xs ∧ Uniform kind block ∧ block.length = n}

theorem uniform_nil (kind : α → Option κ) : Uniform kind [] := by
  simp [Uniform]

theorem uniform_singleton {kind : α → Option κ} {x : α} {k : κ} (isKind : kind x = some k) :
    Uniform kind [x] := by
  simp [Uniform, isKind]

/-- A block of one more element is an old one or at the end. -/
theorem lengths_snoc (kind : α → Option κ) (xs : List α) (x : α) :
    lengths kind (xs ++ [x]) = lengths kind xs ∪ endings kind (xs ++ [x]) := by
  ext n
  constructor
  · intro ⟨block, inside, uniform, length⟩
    cases List.infix_concat_iff.mp inside with
    | inl atEnd => exact .inr ⟨block, atEnd, uniform, length⟩
    | inr before => exact .inl ⟨block, before, uniform, length⟩
  · intro either
    cases either with
    | inl before =>
      obtain ⟨block, before, uniform, length⟩ := before
      exact ⟨block, List.infix_concat_iff.mpr (.inr before), uniform, length⟩
    | inr atEnd =>
      obtain ⟨block, atEnd, uniform, length⟩ := atEnd
      exact ⟨block, atEnd.isInfix, uniform, length⟩

/-! ## The pass -/

/-- What the pass has counted, the length of the block it is in and the element before. -/
structure RunCount (α : Type*) where
  repeated : Nat := 0
  longest : Nat := 0
  run : Nat := 0
  previous : Option α := none

/-- What the pass knows behind `xs`. -/
structure RunCount.Counts (kind : α → Option κ) (xs : List α) (r : RunCount α) : Prop where
  previous : r.previous = xs.getLast?
  ending : IsGreatest (endings kind xs) (if (r.previous.bind kind).isSome then r.run else 0)
  longest : IsGreatest (lengths kind xs) r.longest

theorem RunCount.counts_nil (kind : α → Option κ) : RunCount.Counts kind [] {} where
  previous := rfl
  ending := by
    refine ⟨⟨[], List.nil_suffix, uniform_nil kind, rfl⟩, ?_⟩
    intro n ⟨block, inside, _, length⟩
    rw [List.suffix_nil.mp inside] at length
    exact length.ge
  longest := by
    refine ⟨⟨[], List.nil_infix, uniform_nil kind, rfl⟩, ?_⟩
    intro n ⟨block, inside, _, length⟩
    rw [List.infix_nil.mp inside] at length
    exact length.ge

variable [DecidableEq κ] (kind : α → Option κ)

/-- Of the same kind as the element before it. -/
def sameKind (p x : α) : Bool := (kind x).isSome && kind p = kind x

def RunCount.next (r : RunCount α) (x : α) : RunCount α :=
  let same := r.previous.any (fun p => sameKind kind p x)
  let run := if same then r.run + 1 else 1
  { repeated := if same then r.repeated + 1 else r.repeated
    longest := max r.longest (if (kind x).isSome then run else 0)
    run := run
    previous := some x }

variable {kind}

theorem sameKind_iff {p x : α} :
    sameKind kind p x = true ↔ ∃ k, kind p = some k ∧ kind x = some k := by
  unfold sameKind
  rw [Bool.and_eq_true, decide_eq_true_eq, Option.isSome_iff_exists]
  constructor
  · intro ⟨⟨k, isKind⟩, same⟩
    exact ⟨k, same.trans isKind, isKind⟩
  · intro ⟨k, before, here⟩
    exact ⟨⟨k, here⟩, before.trans here.symm⟩

theorem uniform_iff {block : List α} :
    Uniform kind block ↔ ∀ x ∈ block, ∀ y ∈ block, sameKind kind x y = true := by
  simp only [sameKind_iff]
  rfl

/-- Blocks that meet in two elements of the same kind are of one kind. -/
theorem Uniform.append {block next : List α} {p x : α}
    (uniform : block.length = 1 ∨ Uniform kind block)
    (uniform' : next.length = 1 ∨ Uniform kind next) (last : p ∈ block) (first : x ∈ next)
    (same : sameKind kind p x = true) : Uniform kind (block ++ next) := by
  obtain ⟨k, before, here⟩ := sameKind_iff.mp same
  have all {members : List α} {y : α} (uniform : members.length = 1 ∨ Uniform kind members)
      (member : y ∈ members) (isKind : kind y = some k) : ∀ z ∈ members, kind z = some k := by
    intro z member'
    cases uniform with
    | inl alone =>
      obtain ⟨w, rfl⟩ := List.length_eq_one_iff.mp alone
      rw [List.mem_singleton] at member member'
      rw [member', ← member, isKind]
    | inr uniform =>
      obtain ⟨l, isKind', isKind''⟩ := uniform z member' y member
      rw [isKind', ← isKind'', isKind]
  have both : ∀ z ∈ block ++ next, kind z = some k := by
    intro z member
    cases List.mem_append.mp member with
    | inl inBlock => exact all uniform last before z inBlock
    | inr inNext => exact all uniform' first here z inNext
  exact fun z member z' member' => ⟨k, both z member, both z' member'⟩

/-! ## The longest block -/

namespace RunCount

/-- The blocks at the end of one element more. -/
theorem Counts.ending_next {xs : List α} {r : RunCount α} (counts : r.Counts kind xs) (x : α) :
    IsGreatest (endings kind (xs ++ [x])) (if (kind x).isSome then (r.next kind x).run else 0) := by
  -- a block that ends in `x` goes on with one that ends in the element before
  have last {t : List α} (inside : t <:+ xs) (nonempty : t ≠ []) :
      ∃ p ∈ t, r.previous = some p := by
    obtain ⟨u, rfl⟩ := inside
    refine ⟨t.getLast nonempty, List.getLast_mem nonempty, ?_⟩
    rw [counts.previous, List.getLast?_append_of_ne_nil _ nonempty, List.getLast?_eq_some_getLast]
  cases isKind : kind x with
  | none =>
    refine ⟨⟨[], List.nil_suffix, uniform_nil kind, rfl⟩, ?_⟩
    intro n ⟨block, inside, uniform, length⟩
    obtain rfl | ⟨t, rfl, -⟩ := List.suffix_concat_iff.mp inside
    · exact length.ge
    · obtain ⟨k, isKind', -⟩ := uniform x (by simp) x (by simp)
      rw [isKind] at isKind'
      contradiction
  | some k =>
    rw [Option.isSome_some, if_pos rfl]
    unfold next
    simp only
    by_cases same : r.previous.any (fun p => sameKind kind p x) = true
    · rw [if_pos same]
      cases isPrevious : r.previous with
      | none =>
        rw [isPrevious] at same
        contradiction
      | some p =>
        rw [isPrevious, Option.any_some] at same
        obtain ⟨l, before, -⟩ := sameKind_iff.mp same
        have ending := counts.ending
        rw [isPrevious, Option.bind_some, before, Option.isSome_some, if_pos rfl] at ending
        obtain ⟨⟨t, inside, uniform, length⟩, most⟩ := ending
        constructor
        · refine ⟨t ++ [x], ?_, ?_, by simp [length]⟩
          · exact List.suffix_concat_iff.mpr (.inr ⟨t, rfl, inside⟩)
          · cases t with
            | nil => exact uniform_singleton isKind
            | cons first rest =>
              obtain ⟨q, member, isPrevious'⟩ := last inside (by simp)
              rw [isPrevious, Option.some.injEq] at isPrevious'
              exact Uniform.append (.inr uniform) (.inl rfl) (isPrevious' ▸ member)
                List.mem_cons_self same
        · intro n ⟨block, inside', uniform', length'⟩
          obtain rfl | ⟨t', rfl, atEnd⟩ := List.suffix_concat_iff.mp inside'
          · rw [← length']
            exact Nat.zero_le _
          · have shorter : t'.length ≤ r.run := most ⟨t', atEnd, fun y member z member' =>
              uniform' y (List.mem_append_left _ member) z (List.mem_append_left _ member'), rfl⟩
            rw [List.length_append, List.length_singleton] at length'
            omega
    · rw [if_neg same]
      constructor
      · exact ⟨[x], List.suffix_append xs [x], uniform_singleton isKind, rfl⟩
      · intro n ⟨block, inside, uniform, length⟩
        obtain rfl | ⟨t, rfl, atEnd⟩ := List.suffix_concat_iff.mp inside
        · rw [← length]
          exact Nat.zero_le _
        · cases t with
          | nil => exact length.ge
          | cons first rest =>
            obtain ⟨p, member, isPrevious⟩ := last atEnd (by simp)
            have joined := uniform_iff.mp uniform p (List.mem_append_left _ member) x (by simp)
            rw [isPrevious, Option.any_some] at same
            exact absurd joined same

theorem Counts.next {xs : List α} {r : RunCount α} (counts : r.Counts kind xs) (x : α) :
    (r.next kind x).Counts kind (xs ++ [x]) where
  previous := by
    rw [List.getLast?_concat]
    rfl
  ending := counts.ending_next x
  longest := by
    rw [lengths_snoc]
    exact counts.longest.union (counts.ending_next x)

/-- The pass over a list finds the longest block of one kind. -/
theorem counts_foldl (xs : List α) : (xs.foldl (RunCount.next kind) {}).Counts kind xs := by
  induction xs using List.reverseRecOn with
  | nil => exact counts_nil kind
  | append_singleton xs x inductionHypothesis =>
    rw [List.foldl_append]
    exact inductionHypothesis.next x

/-! ## The repeats -/

/-- In a block of one kind every element but the first counts. -/
theorem repeated_uniform {r : RunCount α} {p : α} {rest : List α} (isPrevious : r.previous = some p)
    (uniform : Uniform kind (p :: rest)) :
    (rest.foldl (RunCount.next kind) r).repeated = r.repeated + rest.length := by
  induction rest generalizing r p with
  | nil => rfl
  | cons x rest inductionHypothesis =>
    have same : r.previous.any (fun p => sameKind kind p x) = true := by
      rw [isPrevious]
      exact uniform_iff.mp uniform p (by simp) x (by simp)
    have counted : (r.next kind x).repeated = r.repeated + 1 := if_pos same
    rw [List.foldl_cons, @inductionHypothesis (r.next kind x) x rfl, counted, List.length_cons]
    · omega
    · exact fun y member z member' =>
        uniform y (List.mem_cons_of_mem _ member) z (List.mem_cons_of_mem _ member')

theorem previous_foldl {r : RunCount α} {x : α} (isPrevious : r.previous = some x)
    (rest : List α) : (rest.foldl (RunCount.next kind) r).previous = (x :: rest).getLast? := by
  induction rest generalizing r x with
  | nil => exact isPrevious
  | cons y rest inductionHypothesis =>
    rw [List.foldl_cons, @inductionHypothesis (r.next kind y) y rfl, List.getLast?_cons_cons]

/-- A block that does not go on with the one before it. -/
theorem repeated_block {r : RunCount α} {x : α} {rest : List α}
    (fresh : r.previous.any (fun p => sameKind kind p x) = false)
    (uniform : (x :: rest).length = 1 ∨ Uniform kind (x :: rest)) :
    ((x :: rest).foldl (RunCount.next kind) r).repeated = r.repeated + rest.length := by
  have counted : (r.next kind x).repeated = r.repeated := if_neg (by simp [fresh])
  rw [List.foldl_cons]
  cases uniform with
  | inl alone =>
    have nothing : rest = [] := by simpa using alone
    rw [nothing]
    exact counted
  | inr uniform => rw [repeated_uniform rfl uniform, counted]

theorem repeated_blocks {r : RunCount α} {blocks : List (List α)}
    (fresh : ∀ x rest others, blocks = (x :: rest) :: others →
      r.previous.any (fun p => sameKind kind p x) = false)
    (nonempty : ∀ block ∈ blocks, block ≠ [])
    (uniform : ∀ block ∈ blocks, block.length = 1 ∨ Uniform kind block)
    (apart : blocks.IsChain (fun block next => ¬ Uniform kind (block ++ next))) :
    (blocks.flatten.foldl (RunCount.next kind) r).repeated =
      r.repeated + (blocks.map (fun block => block.length - 1)).sum := by
  induction blocks generalizing r with
  | nil => rfl
  | cons block blocks inductionHypothesis =>
    cases block with
    | nil => exact absurd rfl (nonempty [] List.mem_cons_self)
    | cons x rest =>
      have first := uniform (x :: rest) List.mem_cons_self
      rw [List.flatten_cons, List.foldl_append, inductionHypothesis,
        repeated_block (fresh x rest blocks rfl) first, List.map_cons, List.sum_cons,
        List.length_cons, Nat.add_sub_cancel, Nat.add_assoc]
      · intro y rest' others same
        subst same
        rw [List.foldl_cons, previous_foldl rfl, List.getLast?_eq_some_getLast (by simp),
          Option.any_some]
        by_contra joined
        rw [Bool.not_eq_false] at joined
        -- the two blocks would be one
        exact (List.isChain_cons_cons.mp apart).1 (Uniform.append first
          (uniform _ (by simp)) (List.getLast_mem _) List.mem_cons_self joined)
      · exact fun block member => nonempty block (List.mem_cons_of_mem _ member)
      · exact fun block member => uniform block (List.mem_cons_of_mem _ member)
      · exact apart.tail

end RunCount

/-- Every element of a maximal block but the first is counted. -/
theorem MaximalBlocks.repeated_eq {xs : List α} {blocks : List (List α)}
    (maximal : MaximalBlocks kind xs blocks) :
    (xs.foldl (RunCount.next kind) {}).repeated =
      (blocks.map (fun block => block.length - 1)).sum := by
  rw [← maximal.cut, RunCount.repeated_blocks (fun _ _ _ _ => rfl) maximal.nonempty maximal.uniform
    maximal.apart, Nat.zero_add]

/-! ## The cut -/

theorem uniform_of_isChain {block : List α}
    (chain : block.IsChain (fun p x => sameKind kind p x = true)) :
    block.length = 1 ∨ Uniform kind block := by
  induction block with
  | nil => exact .inr (uniform_nil kind)
  | cons x rest inductionHypothesis =>
    cases rest with
    | nil => exact .inl rfl
    | cons y rest =>
      obtain ⟨same, behind⟩ := List.isChain_cons_cons.mp chain
      have joined := Uniform.append (.inl (rfl : [x].length = 1)) (inductionHypothesis behind)
        List.mem_cons_self List.mem_cons_self same
      exact .inr joined

/-- Every list has such a cut. -/
theorem maximalBlocks_splitBy (kind : α → Option κ) (xs : List α) :
    MaximalBlocks kind xs (xs.splitBy (sameKind kind)) where
  cut := List.flatten_splitBy _ xs
  nonempty _ member := List.ne_nil_of_mem_splitBy member
  uniform _ member := uniform_of_isChain (List.isChain_of_mem_splitBy member)
  apart := by
    refine (List.isChain_getLast_head_splitBy (sameKind kind) xs).imp ?_
    intro block next ⟨nonempty, someNext, different⟩ uniform
    have same := uniform_iff.mp uniform _ (List.mem_append_left _ (List.getLast_mem nonempty)) _
      (List.mem_append_right _ (List.head_mem someNext))
    rw [different] at same
    contradiction

end Evald.Lib
