import Mathlib

/-! # Adding up under keys

`tally` is the loop `for x in xs { add(map.entry(key(x)).or_default(), x) }` over an ordered
map; `getElem?_tally` says what it holds.  What is added up element by element can be added
up one distinct element at a time, each as often as it occurs (`sum_map_dedup`).
-/

namespace Evald.Lib

section Tally

variable {α κ A : Type} [Ord κ] [Std.TransOrd κ] [Std.LawfulEqOrd κ] [DecidableEq κ]

/-- Each element is added to what its key has so far. -/
def tally (key : α → κ) (init : A) (add : A → α → A) (xs : List α) : Std.ExtTreeMap κ A :=
  xs.foldl (fun groups x => groups.insert (key x) (add (groups.getD (key x) init) x)) ∅

theorem getElem?_tally (key : α → κ) (init : A) (add : A → α → A) (xs : List α) (k : κ) :
    (tally key init add xs)[k]? =
      if xs.filter (fun x => key x = k) = [] then none
      else some ((xs.filter (fun x => key x = k)).foldl add init) := by
  induction xs using List.reverseRecOn with
  | nil => simp [tally]
  | append_singleton xs x inductionHypothesis =>
    have next : tally key init add (xs ++ [x]) = (tally key init add xs).insert (key x)
        (add ((tally key init add xs).getD (key x) init) x) := by simp [tally]
    rw [next, Std.ExtTreeMap.getElem?_insert, List.filter_append]
    simp only [Std.LawfulEqOrd.compare_eq_iff_eq]
    by_cases here : key x = k
    · rw [if_pos here, here, Std.ExtTreeMap.getD_eq_getD_getElem?, inductionHypothesis]
      by_cases empty : xs.filter (fun x => key x = k) = []
      · simp [here, empty]
      · simp [here, empty]
    · rw [if_neg here, inductionHypothesis]
      simp [here]

theorem mem_keys_tally {key : α → κ} {init : A} {add : A → α → A} {xs : List α} {k : κ} :
    k ∈ (tally key init add xs).keys ↔ k ∈ xs.map key := by
  rw [Std.ExtTreeMap.mem_keys, ← Std.ExtTreeMap.isSome_getElem?_iff_mem, getElem?_tally]
  by_cases empty : xs.filter (fun x => key x = k) = []
  · rw [if_pos empty]
    rw [List.filter_eq_nil_iff] at empty
    simpa using empty
  · rw [if_neg empty]
    obtain ⟨x, member⟩ := List.exists_mem_of_ne_nil _ empty
    simp only [List.mem_filter, decide_eq_true_eq] at member
    simp only [Option.isSome_some, List.mem_map, true_iff]
    exact ⟨x, member⟩

end Tally

section Sums

variable {α M : Type*} [AddCommMonoid M]

/-- One distinct element at a time. -/
theorem sum_map_dedup [DecidableEq α] (f : α → M) (xs : List α) :
    (xs.dedup.map (fun x => xs.count x • f x)).sum = (xs.map f).sum := by
  have distinct := List.sum_toFinset (fun x => xs.count x • f x) (List.nodup_dedup xs)
  rw [← distinct, Finset.sum_list_map_count xs f]
  congr 1
  ext x
  simp

theorem sum_map_filter (p : α → Bool) (f : α → M) (xs : List α) :
    ((xs.filter p).map f).sum = (xs.map (fun x => if p x then f x else 0)).sum := by
  induction xs with
  | nil => rfl
  | cons x xs inductionHypothesis =>
    cases kept : p x with
    | true => simp [kept, inductionHypothesis]
    | false => simp [kept, inductionHypothesis]

/-- One distinct element at a time, of those that are kept. -/
theorem sum_map_dedup_filter [DecidableEq α] (p : α → Bool) (f : α → M) (xs : List α) :
    ((xs.dedup.filter p).map (fun x => xs.count x • f x)).sum = ((xs.filter p).map f).sum := by
  rw [sum_map_filter, sum_map_filter, ← sum_map_dedup (fun x => if p x then f x else 0)]
  congr 1
  apply List.map_congr_left
  intro x _
  split
  · rfl
  · rw [smul_zero]

/-- A fold that adds up, read as a sum. -/
theorem foldl_eq_sum {A β : Type*} {add : A → β → A} {reading : A → M} {weight : β → M}
    (adds : ∀ a x, reading (add a x) = reading a + weight x) (xs : List β) (init : A) :
    reading (xs.foldl add init) = reading init + (xs.map weight).sum := by
  induction xs generalizing init with
  | nil => simp
  | cons x xs inductionHypothesis =>
    rw [List.foldl_cons, inductionHypothesis, adds, List.map_cons, List.sum_cons, add_assoc]

end Sums

end Evald.Lib
