import Mathlib.Order.Bounds.Basic
import Mathlib.Order.Lattice
import Mathlib.Order.MinMax
import Mathlib.Data.List.Basic

/-! # Edit distance

`Edits n xs ys` says that `n` insertions, deletions and substitutions of single elements,
anywhere in the list, turn `xs` into `ys`.  `editDistance` recurses on the ends of the two
lists; an edit changes it by one at most, so it is the least number of edits
(`isLeast_editDistance`).
-/

namespace Evald.Lib

variable {α : Type*}

/-- One element is inserted, deleted or substituted. -/
inductive Edit : List α → List α → Prop where
  | insert (front back : List α) (x : α) : Edit (front ++ back) (front ++ x :: back)
  | delete (front back : List α) (x : α) : Edit (front ++ x :: back) (front ++ back)
  | substitute (front back : List α) (x y : α) : Edit (front ++ x :: back) (front ++ y :: back)

/-- One edit after the other. -/
inductive Edits : Nat → List α → List α → Prop where
  | done (xs : List α) : Edits 0 xs xs
  | next {n : Nat} {xs ys zs : List α} : Edit xs ys → Edits n ys zs → Edits (n + 1) xs zs

/-! ## Edits compose -/

theorem Edit.cons {xs ys : List α} (edit : Edit xs ys) (x : α) : Edit (x :: xs) (x :: ys) := by
  cases edit with
  | insert front back y => exact .insert (x :: front) back y
  | delete front back y => exact .delete (x :: front) back y
  | substitute front back y z => exact .substitute (x :: front) back y z

theorem Edit.reverse {xs ys : List α} (edit : Edit xs ys) : Edit xs.reverse ys.reverse := by
  cases edit with
  | insert front back x => simpa using Edit.insert back.reverse front.reverse x
  | delete front back x => simpa using Edit.delete back.reverse front.reverse x
  | substitute front back x y => simpa using Edit.substitute back.reverse front.reverse x y

theorem Edits.cons {n : Nat} {xs ys : List α} (edits : Edits n xs ys) (x : α) :
    Edits n (x :: xs) (x :: ys) := by
  induction edits with
  | done xs => exact .done _
  | next edit _ inductionHypothesis => exact .next (edit.cons x) inductionHypothesis

theorem Edits.reverse {n : Nat} {xs ys : List α} (edits : Edits n xs ys) :
    Edits n xs.reverse ys.reverse := by
  induction edits with
  | done xs => exact .done _
  | next edit _ inductionHypothesis => exact .next edit.reverse inductionHypothesis

theorem edits_reverse_iff {n : Nat} {xs ys : List α} :
    Edits n xs.reverse ys.reverse ↔ Edits n xs ys := by
  constructor
  · intro edits
    simpa using edits.reverse
  · exact Edits.reverse

/-! ## The distance -/

variable [DecidableEq α]

/-- The distance by the fronts of the lists: the front element of one of them goes or comes,
or the one becomes the other. -/
def editDistance : List α → List α → Nat
  | [], ys => ys.length
  | xs, [] => xs.length
  | x :: xs, y :: ys =>
    min (min (editDistance xs (y :: ys) + 1) (editDistance (x :: xs) ys + 1))
      (editDistance xs ys + if x = y then 0 else 1)

@[simp] theorem editDistance_nil_left (ys : List α) : editDistance [] ys = ys.length := by
  unfold editDistance
  rfl

@[simp] theorem editDistance_nil_right (xs : List α) : editDistance xs [] = xs.length := by
  cases xs with
  | nil => simp
  | cons x xs =>
    unfold editDistance
    rfl

theorem editDistance_cons (x y : α) (xs ys : List α) :
    editDistance (x :: xs) (y :: ys) =
      min (min (editDistance xs (y :: ys) + 1) (editDistance (x :: xs) ys + 1))
        (editDistance xs ys + if x = y then 0 else 1) := by
  rw [editDistance]

/-- No more edits than the longer list has elements. -/
theorem editDistance_le_length (xs ys : List α) :
    editDistance xs ys ≤ max xs.length ys.length := by
  induction xs generalizing ys with
  | nil => simp
  | cons x xs inductionHypothesis =>
    cases ys with
    | nil => simp
    | cons y ys =>
      have rest := inductionHypothesis ys
      rw [editDistance_cons, List.length_cons, List.length_cons]
      split <;> omega

/-- That many edits are enough. -/
theorem edits_editDistance (xs ys : List α) : Edits (editDistance xs ys) xs ys := by
  induction xs, ys using editDistance.induct with
  | case1 ys =>
    rw [editDistance_nil_left]
    induction ys with
    | nil => exact .done _
    | cons y ys inductionHypothesis => exact .next (.insert [] [] y) (inductionHypothesis.cons y)
  | case2 xs nonempty =>
    rw [editDistance_nil_right]
    clear nonempty
    induction xs with
    | nil => exact .done _
    | cons x xs inductionHypothesis => exact .next (.delete [] xs x) inductionHypothesis
  | case3 x xs y ys delete insert keep =>
    rw [editDistance_cons]
    obtain first | last := min_choice (min (editDistance xs (y :: ys) + 1)
      (editDistance (x :: xs) ys + 1)) (editDistance xs ys + if x = y then 0 else 1)
    · rw [first]
      obtain deleted | inserted := min_choice (editDistance xs (y :: ys) + 1)
        (editDistance (x :: xs) ys + 1)
      · rw [deleted]
        exact .next (.delete [] xs x) delete
      · rw [inserted]
        exact .next (.insert [] (x :: xs) y) (insert.cons y)
    · rw [last]
      by_cases same : x = y
      · rw [if_pos same, same]
        exact keep.cons y
      · rw [if_neg same]
        exact .next (.substitute [] xs x y) (keep.cons y)

/-! ## One edit changes it by one at most -/

theorem editDistance_cons_right_le (xs ys : List α) (y : α) :
    editDistance xs (y :: ys) ≤ editDistance xs ys + 1 := by
  cases xs with
  | nil => simp
  | cons x xs =>
    rw [editDistance_cons]
    omega

theorem editDistance_cons_left_le (xs ys : List α) (x : α) :
    editDistance (x :: xs) ys ≤ editDistance xs ys + 1 := by
  cases ys with
  | nil => simp
  | cons y ys =>
    rw [editDistance_cons]
    omega

theorem editDistance_le_cons_left (xs ys : List α) (x : α) :
    editDistance xs ys ≤ editDistance (x :: xs) ys + 1 := by
  induction ys with
  | nil =>
    simp only [editDistance_nil_right, List.length_cons]
    omega
  | cons y ys inductionHypothesis =>
    have longer := editDistance_cons_right_le xs ys y
    rw [editDistance_cons x y xs ys]
    omega

theorem editDistance_substitute_le (xs ys : List α) (x x' : α) :
    editDistance (x :: xs) ys ≤ editDistance (x' :: xs) ys + 1 := by
  induction ys with
  | nil => simp
  | cons y ys inductionHypothesis =>
    have cost : (if x = y then 0 else 1) ≤ 1 := by split <;> omega
    rw [editDistance_cons, editDistance_cons]
    omega

/-- What holds behind a common element holds with it in front. -/
theorem editDistance_cons_le {xs xs' : List α}
    (behind : ∀ ys, editDistance xs ys ≤ editDistance xs' ys + 1) (x : α) (ys : List α) :
    editDistance (x :: xs) ys ≤ editDistance (x :: xs') ys + 1 := by
  induction ys with
  | nil =>
    have lengths := behind []
    simp only [editDistance_nil_right, List.length_cons] at lengths ⊢
    omega
  | cons y ys inductionHypothesis =>
    have shorter := behind ys
    have same := behind (y :: ys)
    rw [editDistance_cons, editDistance_cons]
    omega

theorem editDistance_append_le {xs xs' : List α}
    (behind : ∀ ys, editDistance xs ys ≤ editDistance xs' ys + 1) (front ys : List α) :
    editDistance (front ++ xs) ys ≤ editDistance (front ++ xs') ys + 1 := by
  induction front generalizing ys with
  | nil => exact behind ys
  | cons x front inductionHypothesis => exact editDistance_cons_le inductionHypothesis x ys

theorem Edit.editDistance_le {xs xs' : List α} (edit : Edit xs xs') (ys : List α) :
    editDistance xs ys ≤ editDistance xs' ys + 1 := by
  cases edit with
  | insert front back x =>
    exact editDistance_append_le (fun ys => editDistance_le_cons_left back ys x) front ys
  | delete front back x =>
    exact editDistance_append_le (fun ys => editDistance_cons_left_le back ys x) front ys
  | substitute front back x y =>
    exact editDistance_append_le (fun ys => editDistance_substitute_le back ys x y) front ys

theorem editDistance_self (xs : List α) : editDistance xs xs = 0 := by
  induction xs with
  | nil => simp
  | cons x xs inductionHypothesis =>
    rw [editDistance_cons, inductionHypothesis, if_pos rfl]
    omega

theorem Edits.editDistance_le {n : Nat} {xs ys : List α} (edits : Edits n xs ys) :
    editDistance xs ys ≤ n := by
  induction edits with
  | done xs => exact (editDistance_self xs).le
  | next edit _ inductionHypothesis =>
    have first := edit.editDistance_le
    exact (first _).trans (Nat.add_le_add_right inductionHypothesis 1)

/-- The distance is the least number of edits that turn one list into the other. -/
theorem isLeast_editDistance (xs ys : List α) :
    IsLeast {n | Edits n xs ys} (editDistance xs ys) :=
  ⟨edits_editDistance xs ys, fun _ edits => Edits.editDistance_le edits⟩

/-- It may as well be read from the ends of the lists. -/
theorem editDistance_reverse (xs ys : List α) :
    editDistance xs.reverse ys.reverse = editDistance xs ys := by
  have reversed := isLeast_editDistance xs.reverse ys.reverse
  simp only [edits_reverse_iff] at reversed
  exact reversed.unique (isLeast_editDistance xs ys)

/-- One more element at each end. -/
theorem editDistance_snoc (x y : α) (xs ys : List α) :
    editDistance (xs ++ [x]) (ys ++ [y]) =
      min (min (editDistance xs (ys ++ [y]) + 1) (editDistance (xs ++ [x]) ys + 1))
        (editDistance xs ys + if x = y then 0 else 1) := by
  rw [← editDistance_reverse (xs ++ [x]), ← editDistance_reverse xs (ys ++ [y]),
    ← editDistance_reverse (xs ++ [x]) ys, ← editDistance_reverse xs ys, List.reverse_concat,
    List.reverse_concat, editDistance_cons]

end Evald.Lib
