import Evald.Lib.EditDistance

/-! # The edit distance of two texts

Two rows of the table are kept: the one above, and the one being written, which become each
other after every round.  Behind round `i` the row above holds the distances of the first `i`
characters of one text to every front of the other (`RowOf`).
-/

namespace Evald.Eval

open Evald.Lib

/-- One cell of the row being written, from the cell above it, the one before it and the one
before that above. -/
def writeCell (a b : List Char) (prev : List Nat) (i : Nat) (cur : List Nat) (j : Nat) :
    List Nat :=
  let cost := if a[i - 1]? ≠ b[j - 1]? then 1 else 0
  cur.set j (min (min (prev.getD j 0 + 1) (cur.getD (j - 1) 0 + 1)) (prev.getD (j - 1) 0 + cost))

/-- One round writes a row and swaps the two; `rows` is the row above and the row to write. -/
def writeRow (a b : List Char) (rows : List Nat × List Nat) (i : Nat) : List Nat × List Nat :=
  let (prev, cur) := rows
  let cur := (List.range' 1 b.length).foldl (writeCell a b prev i) (cur.set 0 i)
  (cur, prev)

def levenshtein (a b : String) : Nat :=
  let a := a.toList
  let b := b.toList
  let prev := List.range (b.length + 1)
  let cur := List.replicate (b.length + 1) 0
  let (prev, _) := (List.range' 1 a.length).foldl (writeRow a b) (prev, cur)
  prev.getD b.length 0

/-! ## The rows -/

/-- The row has a cell for every front of `b`, and up to `filled` they hold its distance to
`front`. -/
structure RowOf (front b : List Char) (filled : Nat) (row : List Nat) : Prop where
  length : row.length = b.length + 1
  cells : ∀ j ≤ filled, row.getD j 0 = editDistance front (b.take j)

variable {a b : List Char}

theorem RowOf.set {front : List Char} {j v : Nat} {row : List Nat} (isRow : RowOf front b j row)
    (inside : j < b.length) (value : v = editDistance front (b.take (j + 1))) :
    RowOf front b (j + 1) (row.set (j + 1) v) where
  length := by rw [List.length_set, isRow.length]
  cells k upTo := by
    rw [List.getD_eq_getElem?_getD, List.getElem?_set]
    by_cases here : j + 1 = k
    · subst here
      rw [if_pos rfl, if_pos (by rw [isRow.length]; omega), Option.getD_some, value]
    · rw [if_neg here, ← List.getD_eq_getElem?_getD, isRow.cells k (by omega)]

theorem rowOf_range (b : List Char) : RowOf [] b b.length (List.range (b.length + 1)) where
  length := List.length_range
  cells j upTo := by
    rw [List.getD_eq_getElem?_getD, List.getElem?_range (by omega), Option.getD_some,
      editDistance_nil_left, List.length_take, Nat.min_eq_left upTo]

/-- The first cell of a row is the length of its front. -/
theorem rowOf_set_zero {i : Nat} {cur : List Nat} (length : cur.length = b.length + 1)
    (inside : i ≤ a.length) : RowOf (a.take i) b 0 (cur.set 0 i) where
  length := by rw [List.length_set, length]
  cells j upTo := by
    rw [Nat.le_zero.mp upTo, List.getD_eq_getElem?_getD, List.getElem?_set_self (by omega),
      Option.getD_some, List.take_zero, editDistance_nil_right, List.length_take,
      Nat.min_eq_left inside]

/-- One more cell. -/
theorem RowOf.writeCell {i j : Nat} {prev cur : List Nat} (insideA : i < a.length)
    (insideB : j < b.length) (above : RowOf (a.take i) b b.length prev)
    (isRow : RowOf (a.take (i + 1)) b j cur) :
    RowOf (a.take (i + 1)) b (j + 1) (writeCell a b prev (i + 1) cur (j + 1)) := by
  unfold Eval.writeCell
  apply isRow.set insideB
  have frontA : a.take (i + 1) = a.take i ++ [a[i]] := List.take_succ_eq_append_getElem insideA
  have frontB : b.take (j + 1) = b.take j ++ [b[j]] := List.take_succ_eq_append_getElem insideB
  have cost : (if a[i]? ≠ b[j]? then 1 else 0) = if a[i] = b[j] then 0 else 1 := by
    rw [List.getElem?_eq_getElem insideA, List.getElem?_eq_getElem insideB]
    simp only [ne_eq, Option.some.injEq, ite_not]
  rw [Nat.add_sub_cancel, Nat.add_sub_cancel, above.cells (j + 1) (by omega),
    above.cells j (by omega), isRow.cells j (Nat.le_refl j), cost, frontA, frontB,
    editDistance_snoc]

/-- The whole row, cell by cell. -/
theorem RowOf.writeCells {i : Nat} {prev cur : List Nat} (inside : i < a.length)
    (above : RowOf (a.take i) b b.length prev) (isRow : RowOf (a.take (i + 1)) b 0 cur)
    {n : Nat} (fits : n ≤ b.length) : RowOf (a.take (i + 1)) b n
      ((List.range' 1 n).foldl (Eval.writeCell a b prev (i + 1)) cur) := by
  induction n with
  | zero => exact isRow
  | succ n inductionHypothesis =>
    rw [List.range'_1_concat, List.foldl_append, Nat.add_comm 1 n]
    exact above.writeCell inside (by omega) (inductionHypothesis (by omega))

/-- Round by round: the row above is the last one written, and there is room for the next. -/
theorem rowOf_writeRows (a b : List Char) {n : Nat} (fits : n ≤ a.length) :
    let rows := (List.range' 1 n).foldl (writeRow a b)
      (List.range (b.length + 1), List.replicate (b.length + 1) 0)
    RowOf (a.take n) b b.length rows.1 ∧ rows.2.length = b.length + 1 := by
  induction n with
  | zero => exact ⟨rowOf_range b, List.length_replicate⟩
  | succ n inductionHypothesis =>
    obtain ⟨above, room⟩ := inductionHypothesis (by omega)
    simp only at above room ⊢
    rw [List.range'_1_concat, List.foldl_append, Nat.add_comm 1 n]
    exact ⟨above.writeCells (by omega) (rowOf_set_zero room fits) (Nat.le_refl _), above.length⟩

/-- The loop returns the least number of insertions, deletions and substitutions of single
characters that turn one text into the other. -/
theorem isLeast_levenshtein (a b : String) :
    IsLeast {n | Edits n a.toList b.toList} (levenshtein a b) := by
  obtain ⟨isRow, -⟩ := rowOf_writeRows a.toList b.toList (Nat.le_refl _)
  have last := isRow.cells b.toList.length (Nat.le_refl _)
  rw [List.take_length, List.take_length] at last
  have distance : levenshtein a b = editDistance a.toList b.toList := last
  rw [distance]
  exact isLeast_editDistance a.toList b.toList

example : levenshtein "kitten" "sitting" = 3 := by decide

end Evald.Eval
