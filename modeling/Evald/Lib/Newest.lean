import Mathlib.Data.List.Sort
import Mathlib.Data.List.Induction

/-! # Newest first, and the newest `n`

`newestFirst rank xs` is the stable sort of `xs` by descending rank.  It is the
same as placing the elements one after the other behind every element of at
least their rank (`place`), which is how a bounded selection meets them.  The
results a read path needs follow from that view: keeping only the first `n`
after each placement keeps the first `n` of the sort (`newest_eq_take`), sorting
a part on its own and cutting it to `n` before it is merged loses nothing
(`take_newestFirst_append_take`), and a filter may run before or after the sort
(`newestFirst_filter`).
-/

namespace Evald.Lib

variable {α ι : Type*} [LinearOrder ι]

/-- Stable sort by descending rank: ties keep their order. -/
def newestFirst (rank : α → ι) (xs : List α) : List α :=
  xs.insertionSort (fun a b => rank b ≤ rank a)

/-- Insert `x` behind every leading element of at least its rank. -/
def place (rank : α → ι) (x : α) : List α → List α
  | [] => [x]
  | y :: ys => if rank x ≤ rank y then y :: place rank x ys else x :: y :: ys

variable {rank : α → ι}

theorem orderedInsert_place (x y : α) (xs : List α) :
    List.orderedInsert (fun a b => rank b ≤ rank a) y (place rank x xs) =
      place rank x (List.orderedInsert (fun a b => rank b ≤ rank a) y xs) := by
  induction xs with
  | nil => simp [place]
  | cons z zs inductionHypothesis =>
    by_cases behind : rank x ≤ rank z
    · by_cases before : rank z ≤ rank y
      · simp [place, List.orderedInsert, behind, before, behind.trans before]
      · simp [place, List.orderedInsert, behind, before, inductionHypothesis]
    · by_cases before : rank z ≤ rank y
      · by_cases tie : rank x ≤ rank y <;> simp [place, List.orderedInsert, behind, before, tie]
      · have apart : ¬ rank x ≤ rank y :=
          not_le.mpr ((not_le.mp before).trans (not_le.mp behind))
        simp [place, List.orderedInsert, behind, before, apart]

theorem newestFirst_concat (xs : List α) (x : α) :
    newestFirst rank (xs ++ [x]) = place rank x (newestFirst rank xs) := by
  induction xs with
  | nil => rfl
  | cons y ys inductionHypothesis =>
    simp only [newestFirst, List.cons_append, List.insertionSort_cons] at inductionHypothesis ⊢
    rw [inductionHypothesis, orderedInsert_place]

theorem newestFirst_perm (rank : α → ι) (xs : List α) : (newestFirst rank xs).Perm xs :=
  List.perm_insertionSort _ xs

@[simp] theorem mem_newestFirst {x : α} {xs : List α} : x ∈ newestFirst rank xs ↔ x ∈ xs :=
  (newestFirst_perm rank xs).mem_iff

theorem newestFirst_sorted (xs : List α) :
    (newestFirst rank xs).Pairwise (fun a b => rank b ≤ rank a) := by
  have total : Std.Total (fun a b : α => rank b ≤ rank a) := ⟨fun a b => le_total _ _⟩
  have transitive : IsTrans α (fun a b : α => rank b ≤ rank a) :=
    ⟨fun _ _ _ first second => second.trans first⟩
  exact List.pairwise_insertionSort _ xs

/-! ## The bounded selection -/

theorem take_place (n : Nat) (x : α) (xs : List α) :
    (place rank x xs).take n = (place rank x (xs.take n)).take n := by
  induction xs generalizing n with
  | nil => simp
  | cons y ys inductionHypothesis =>
    cases n with
    | zero => simp
    | succ n =>
      simp only [List.take_succ_cons, place]
      split
      · simp [inductionHypothesis n]
      · cases n <;> simp [List.take_take]

/-- Placing one element after the other and keeping the first `n` each time. -/
def newest (rank : α → ι) (n : Nat) (xs : List α) : List α :=
  xs.foldl (fun kept x => (place rank x kept).take n) []

theorem newest_eq_take (n : Nat) (xs : List α) :
    newest rank n xs = (newestFirst rank xs).take n := by
  induction xs using List.reverseRecOn with
  | nil => simp [newest, newestFirst]
  | append_singleton xs x inductionHypothesis =>
    rw [newestFirst_concat, take_place, ← inductionHypothesis]
    simp [newest]

/-! ## Sorting a part first -/

theorem place_comm {x y : α} (differ : rank x ≠ rank y) (xs : List α) :
    place rank x (place rank y xs) = place rank y (place rank x xs) := by
  induction xs with
  | nil =>
    rcases lt_or_gt_of_ne differ with less | more
    · simp [place, less.le, not_le.mpr less]
    · simp [place, more.le, not_le.mpr more]
  | cons z zs inductionHypothesis =>
    by_cases xBehind : rank x ≤ rank z <;> by_cases yBehind : rank y ≤ rank z
    · simp [place, xBehind, yBehind, inductionHypothesis]
    · have less : rank x < rank y := xBehind.trans_lt (not_le.mp yBehind)
      simp [place, xBehind, yBehind, less.le]
    · have more : rank y < rank x := yBehind.trans_lt (not_le.mp xBehind)
      simp [place, xBehind, yBehind, more.le]
    · rcases lt_or_gt_of_ne differ with less | more
      · simp [place, xBehind, yBehind, less.le, not_le.mpr less]
      · simp [place, xBehind, yBehind, more.le, not_le.mpr more]

theorem foldl_place_lower {x : α} {ys : List α} (lower : ∀ y ∈ ys, rank y < rank x)
    (xs : List α) :
    ys.foldl (fun kept y => place rank y kept) (place rank x xs) =
      place rank x (ys.foldl (fun kept y => place rank y kept) xs) := by
  induction ys generalizing xs with
  | nil => rfl
  | cons y ys inductionHypothesis =>
    have differ : rank y ≠ rank x := (lower y (by simp)).ne
    simp only [List.foldl_cons]
    rw [place_comm differ, inductionHypothesis (fun z member => lower z (by simp [member]))]

theorem newestFirst_append (xs ys : List α) :
    newestFirst rank (xs ++ ys) =
      ys.foldl (fun kept y => place rank y kept) (newestFirst rank xs) := by
  induction ys using List.reverseRecOn with
  | nil => simp
  | append_singleton ys y inductionHypothesis =>
    rw [← List.append_assoc, newestFirst_concat, inductionHypothesis]
    simp

theorem foldl_place_place {x : α} {ys : List α}
    (sorted : ys.Pairwise (fun a b => rank b ≤ rank a)) (xs : List α) :
    (place rank x ys).foldl (fun kept y => place rank y kept) xs =
      place rank x (ys.foldl (fun kept y => place rank y kept) xs) := by
  induction ys generalizing xs with
  | nil => rfl
  | cons y ys inductionHypothesis =>
    obtain ⟨first, rest⟩ := List.pairwise_cons.mp sorted
    simp only [place]
    split
    · simp only [List.foldl_cons]
      rw [inductionHypothesis rest]
    · next above =>
      have lower : ∀ z ∈ y :: ys, rank z < rank x := by
        intro z member
        rcases List.mem_cons.mp member with rfl | later
        · exact not_le.mp above
        · exact (first z later).trans_lt (not_le.mp above)
      simp only [List.foldl_cons (a := x)]
      exact foldl_place_lower lower xs

/-- A part may be sorted on its own before the whole is. -/
theorem newestFirst_append_newestFirst (xs ys : List α) :
    newestFirst rank (xs ++ newestFirst rank ys) = newestFirst rank (xs ++ ys) := by
  induction ys using List.reverseRecOn with
  | nil => rfl
  | append_singleton ys y inductionHypothesis =>
    rw [newestFirst_concat, newestFirst_append, foldl_place_place (newestFirst_sorted ys),
      ← newestFirst_append, inductionHypothesis, ← List.append_assoc, newestFirst_concat]

/-- Placing an element behind `n` elements of at least its rank leaves the first
`n` as they were. -/
theorem take_place_behind {n : Nat} {x : α} {xs : List α}
    (sorted : xs.Pairwise (fun a b => rank b ≤ rank a))
    (behind : n ≤ (xs.filter (fun y => rank x ≤ rank y)).length) :
    (place rank x xs).take n = xs.take n := by
  induction xs generalizing n with
  | nil =>
    have none : n = 0 := by simpa using behind
    simp [none]
  | cons y ys inductionHypothesis =>
    obtain ⟨first, rest⟩ := List.pairwise_cons.mp sorted
    by_cases above : rank x ≤ rank y
    · cases n with
      | zero => simp
      | succ n =>
        rw [List.filter_cons_of_pos (by simpa using above), List.length_cons] at behind
        simp only [place, above, if_true, List.take_succ_cons]
        rw [inductionHypothesis rest (by omega)]
    · have noneAbove : (y :: ys).filter (fun z => rank x ≤ rank z) = [] := by
        simp only [List.filter_eq_nil_iff, decide_eq_true_eq]
        intro z member reach
        rcases List.mem_cons.mp member with rfl | later
        · exact above reach
        · exact above (reach.trans (first z later))
      rw [noneAbove] at behind
      have none : n = 0 := by simpa using behind
      simp [none]

/-- Cutting a sorted part to `n` before it is merged leaves the first `n` of the
whole as they were. -/
theorem take_newestFirst_append_take (n : Nat) (xs ys : List α) :
    (newestFirst rank (xs ++ (newestFirst rank ys).take n)).take n =
      (newestFirst rank (xs ++ ys)).take n := by
  rw [← newestFirst_append_newestFirst xs ys]
  generalize sortedForm : newestFirst rank ys = zs
  have sorted : zs.Pairwise (fun a b => rank b ≤ rank a) := sortedForm ▸ newestFirst_sorted ys
  clear sortedForm
  induction zs using List.reverseRecOn with
  | nil => simp
  | append_singleton zs z inductionHypothesis =>
    obtain ⟨sortedInit, -, lastLowest⟩ := List.pairwise_append.mp sorted
    by_cases short : zs.length < n
    · rw [List.take_of_length_le (i := n) (l := zs ++ [z]) (by simp; omega)]
    · have cut : (zs ++ [z]).take n = zs.take n :=
        List.take_append_of_le_length (by omega)
      rw [cut, inductionHypothesis sortedInit, ← List.append_assoc, newestFirst_concat]
      refine (take_place_behind (newestFirst_sorted _) ?_).symm
      have keep : ((xs ++ zs).filter (fun y => rank z ≤ rank y)).length =
          ((newestFirst rank (xs ++ zs)).filter (fun y => rank z ≤ rank y)).length :=
        ((newestFirst_perm rank (xs ++ zs)).filter _).length_eq.symm
      have all : zs.filter (fun y => rank z ≤ rank y) = zs := by
        simp only [List.filter_eq_self, decide_eq_true_eq]
        exact fun y member => lastLowest y member z (by simp)
      rw [← keep, List.filter_append, all, List.length_append]
      omega

/-! ## Filtering -/

theorem filter_place {keep : α → Bool} {x : α} (kept : keep x = true) {xs : List α}
    (sorted : xs.Pairwise (fun a b => rank b ≤ rank a)) :
    (place rank x xs).filter keep = place rank x (xs.filter keep) := by
  induction xs with
  | nil => simp [place, kept]
  | cons y ys inductionHypothesis =>
    obtain ⟨first, rest⟩ := List.pairwise_cons.mp sorted
    by_cases behind : rank x ≤ rank y
    · by_cases keptHead : keep y = true
      · simp [place, behind, keptHead, inductionHypothesis rest]
      · simp [place, behind, keptHead, inductionHypothesis rest]
    · have lower : ∀ z ∈ (y :: ys).filter keep, ¬ rank x ≤ rank z := by
        intro z member
        rcases List.mem_cons.mp (List.mem_filter.mp member).1 with rfl | later
        · exact behind
        · exact fun reach => behind (reach.trans (first z later))
      simp only [place, behind, if_false, List.filter_cons_of_pos kept]
      generalize (y :: ys).filter keep = zs at lower ⊢
      cases zs with
      | nil => rfl
      | cons z zs => simp [place, lower z (by simp)]

theorem filter_place_dropped {keep : α → Bool} {x : α} (dropped : ¬ keep x = true)
    (xs : List α) : (place rank x xs).filter keep = xs.filter keep := by
  induction xs with
  | nil => simp [place, dropped]
  | cons y ys inductionHypothesis =>
    simp only [place]
    split
    · simp [List.filter_cons, inductionHypothesis]
    · rw [List.filter_cons_of_neg dropped]

theorem newestFirst_filter (keep : α → Bool) (xs : List α) :
    newestFirst rank (xs.filter keep) = (newestFirst rank xs).filter keep := by
  induction xs using List.reverseRecOn with
  | nil => rfl
  | append_singleton xs x inductionHypothesis =>
    rw [newestFirst_concat, List.filter_append]
    by_cases kept : keep x = true
    · rw [List.filter_cons_of_pos kept, List.filter_nil, newestFirst_concat,
        inductionHypothesis, filter_place kept (newestFirst_sorted xs)]
    · rw [List.filter_cons_of_neg kept, List.filter_nil, List.append_nil,
        inductionHypothesis, filter_place_dropped kept]

end Evald.Lib
