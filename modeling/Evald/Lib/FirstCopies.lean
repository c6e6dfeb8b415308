import Mathlib.Data.List.Perm.Basic
import Mathlib.Data.List.Nodup
import Mathlib.Data.Finset.Card

/-! # Keeping the first copy of each key

A pass over a list that keeps an element when its key has not been seen yet, the
seen keys carried along as a set: the shape of every
`filter(|x| seen.insert(key(x)))`.  `firstCopies key seen xs` is that pass and
the lemmas say what it keeps: which keys are left, that each is left once, how it
splits over `++`, and that it commutes with a filter that looks at the key only.
-/

namespace Evald.Lib

variable {α κ : Type*} [DecidableEq κ]

/-- Keep each element of the list whose key is neither in `seen` nor the key of
an earlier element. -/
def firstCopies (key : α → κ) : List κ → List α → List α
  | _, [] => []
  | seen, x :: xs =>
    if key x ∈ seen then firstCopies key seen xs
    else x :: firstCopies key (key x :: seen) xs

@[simp] theorem firstCopies_nil (key : α → κ) (seen : List κ) :
    firstCopies key seen [] = [] := rfl

theorem firstCopies_cons_seen {key : α → κ} {seen : List κ} {x : α} (xs : List α)
    (known : key x ∈ seen) : firstCopies key seen (x :: xs) = firstCopies key seen xs := by
  simp [firstCopies, known]

theorem firstCopies_cons_new {key : α → κ} {seen : List κ} {x : α} (xs : List α)
    (fresh : key x ∉ seen) :
    firstCopies key seen (x :: xs) = x :: firstCopies key (key x :: seen) xs := by
  simp [firstCopies, fresh]

theorem firstCopies_sublist (key : α → κ) (seen : List κ) (xs : List α) :
    (firstCopies key seen xs).Sublist xs := by
  induction xs generalizing seen with
  | nil => exact .slnil
  | cons x xs inductionHypothesis =>
    by_cases known : key x ∈ seen
    · rw [firstCopies_cons_seen xs known]
      exact (inductionHypothesis seen).cons x
    · rw [firstCopies_cons_new xs known]
      exact (inductionHypothesis _).cons_cons x

theorem mem_of_mem_firstCopies {key : α → κ} {seen : List κ} {xs : List α} {x : α}
    (member : x ∈ firstCopies key seen xs) : x ∈ xs :=
  (firstCopies_sublist key seen xs).subset member

/-- The keys left are those of the list that were not seen before. -/
theorem mem_keys_firstCopies (key : α → κ) (seen : List κ) (xs : List α) (k : κ) :
    k ∈ (firstCopies key seen xs).map key ↔ k ∈ xs.map key ∧ k ∉ seen := by
  induction xs generalizing seen with
  | nil => simp
  | cons x xs inductionHypothesis =>
    by_cases known : key x ∈ seen
    · rw [firstCopies_cons_seen xs known, inductionHypothesis]
      simp only [List.map_cons, List.mem_cons]
      constructor
      · rintro ⟨later, fresh⟩
        exact ⟨.inr later, fresh⟩
      · rintro ⟨rfl | later, fresh⟩
        · exact absurd known fresh
        · exact ⟨later, fresh⟩
    · rw [firstCopies_cons_new xs known]
      simp only [List.map_cons, List.mem_cons, inductionHypothesis]
      by_cases here : k = key x
      · subst here; simp [known]
      · simp [here]

theorem mem_keys_firstCopies_nil (key : α → κ) (xs : List α) (k : κ) :
    k ∈ (firstCopies key [] xs).map key ↔ k ∈ xs.map key := by
  simp [mem_keys_firstCopies]

/-- Each key is left once. -/
theorem nodup_keys_firstCopies (key : α → κ) (seen : List κ) (xs : List α) :
    ((firstCopies key seen xs).map key).Nodup := by
  induction xs generalizing seen with
  | nil => exact List.nodup_nil
  | cons x xs inductionHypothesis =>
    by_cases known : key x ∈ seen
    · rw [firstCopies_cons_seen xs known]
      exact inductionHypothesis seen
    · rw [firstCopies_cons_new xs known, List.map_cons, List.nodup_cons]
      refine ⟨?_, inductionHypothesis _⟩
      rw [mem_keys_firstCopies]
      simp

/-- As many are left as the list has keys. -/
theorem length_firstCopies (key : α → κ) (xs : List α) :
    (firstCopies key [] xs).length = (xs.map key).toFinset.card := by
  have same : ((firstCopies key [] xs).map key).toFinset = (xs.map key).toFinset := by
    ext k
    rw [List.mem_toFinset, List.mem_toFinset, mem_keys_firstCopies_nil]
  rw [← same, List.toFinset_card_of_nodup (nodup_keys_firstCopies key [] xs), List.length_map]

/-- Only the set of seen keys matters, not how it is listed. -/
theorem firstCopies_congr_seen {key : α → κ} {seen seen' : List κ} (xs : List α)
    (same : ∀ k, k ∈ seen ↔ k ∈ seen') :
    firstCopies key seen xs = firstCopies key seen' xs := by
  induction xs generalizing seen seen' with
  | nil => rfl
  | cons x xs inductionHypothesis =>
    simp only [firstCopies, same]
    split
    · exact inductionHypothesis same
    · rw [inductionHypothesis]
      intro k
      simp [same]

/-- A seen key that the filter drops makes no difference behind the filter. -/
theorem firstCopies_filter_seen {key : α → κ} {keep : α → Bool} {keepKey : κ → Bool}
    (byKey : ∀ x, keep x = keepKey (key x)) {k : κ} (dropped : keepKey k = false)
    (seen : List κ) (xs : List α) :
    firstCopies key (k :: seen) (xs.filter keep) = firstCopies key seen (xs.filter keep) := by
  induction xs generalizing seen with
  | nil => rfl
  | cons y ys inductionHypothesis =>
    by_cases kept : keep y = true
    · have differ : key y ≠ k := by
        intro same
        rw [byKey, same, dropped] at kept
        exact Bool.noConfusion kept
      rw [List.filter_cons_of_pos kept]
      simp only [firstCopies, List.mem_cons, differ, false_or]
      split
      · exact inductionHypothesis seen
      · rw [← inductionHypothesis (key y :: seen)]
        congr 1
        apply firstCopies_congr_seen
        intro k'
        simp only [List.mem_cons]
        tauto
    · rw [List.filter_cons_of_neg kept]
      exact inductionHypothesis seen

/-- A filter that looks at the key only may run before or after. -/
theorem firstCopies_filter {key : α → κ} {keep : α → Bool} {keepKey : κ → Bool}
    (byKey : ∀ x, keep x = keepKey (key x)) (seen : List κ) (xs : List α) :
    firstCopies key seen (xs.filter keep) = (firstCopies key seen xs).filter keep := by
  induction xs generalizing seen with
  | nil => rfl
  | cons x xs inductionHypothesis =>
    by_cases kept : keep x = true
    · rw [List.filter_cons_of_pos kept]
      by_cases known : key x ∈ seen
      · rw [firstCopies_cons_seen _ known, firstCopies_cons_seen _ known, inductionHypothesis]
      · rw [firstCopies_cons_new _ known, firstCopies_cons_new _ known,
          List.filter_cons_of_pos kept, inductionHypothesis]
    · rw [List.filter_cons_of_neg kept]
      by_cases known : key x ∈ seen
      · rw [firstCopies_cons_seen _ known, inductionHypothesis]
      · have dropped : keepKey (key x) = false := by
          rw [← byKey]
          simpa using kept
        rw [firstCopies_cons_new _ known, List.filter_cons_of_neg kept,
          ← inductionHypothesis (key x :: seen), firstCopies_filter_seen byKey dropped]

/-! ## The copy of one key -/

/-- The first element with the key. -/
def copyOf (key : α → κ) (k : κ) (xs : List α) : Option α := xs.find? (fun x => key x = k)

theorem copyOf_eq_none_iff {key : α → κ} {k : κ} {xs : List α} :
    copyOf key k xs = none ↔ k ∉ xs.map key := by
  simp [copyOf]

theorem key_of_copyOf {key : α → κ} {k : κ} {xs : List α} {x : α}
    (found : copyOf key k xs = some x) : x ∈ xs ∧ key x = k := by
  unfold copyOf at found
  have named := List.find?_some found
  exact ⟨List.mem_of_find?_eq_some found, of_decide_eq_true named⟩

theorem copyOf_append (key : α → κ) (k : κ) (xs ys : List α) :
    copyOf key k (xs ++ ys) = (copyOf key k xs).or (copyOf key k ys) :=
  List.find?_append

theorem copyOf_flatMap {ι : Type*} (key : α → κ) (k : κ) (parts : List ι) (f : ι → List α) :
    copyOf key k (parts.flatMap f) = parts.findSome? (fun part => copyOf key k (f part)) :=
  List.find?_flatMap

/-- Where no key is twice, the one element with the key is its copy. -/
theorem copyOf_of_mem {key : α → κ} {xs : List α} (distinct : (xs.map key).Nodup) {x : α}
    (member : x ∈ xs) : copyOf key (key x) xs = some x := by
  cases found : copyOf key (key x) xs with
  | none => exact absurd (List.mem_map_of_mem member) (copyOf_eq_none_iff.mp found)
  | some y =>
    obtain ⟨inList, same⟩ := key_of_copyOf found
    rw [List.inj_on_of_nodup_map distinct inList member same]

theorem copyOf_perm {key : α → κ} {xs ys : List α} (distinct : (xs.map key).Nodup)
    (perm : xs.Perm ys) (k : κ) : copyOf key k xs = copyOf key k ys := by
  cases found : copyOf key k xs with
  | none =>
    rw [copyOf_eq_none_iff] at found
    symm
    rw [copyOf_eq_none_iff, ← (perm.map key).mem_iff]
    exact found
  | some x =>
    obtain ⟨member, rfl⟩ := key_of_copyOf found
    exact (copyOf_of_mem ((perm.map key).nodup_iff.mp distinct) (perm.subset member)).symm

/-- The copy kept is the first one. -/
theorem copyOf_firstCopies (key : α → κ) (k : κ) (xs : List α) :
    copyOf key k (firstCopies key [] xs) = copyOf key k xs := by
  have general : ∀ seen, k ∉ seen → copyOf key k (firstCopies key seen xs) = copyOf key k xs := by
    induction xs with
    | nil => exact fun _ _ => rfl
    | cons x xs inductionHypothesis =>
      intro seen unseen
      by_cases known : key x ∈ seen
      · have other : ¬ key x = k := fun same => unseen (same ▸ known)
        rw [firstCopies_cons_seen xs known, inductionHypothesis seen unseen]
        simp [copyOf, other]
      · rw [firstCopies_cons_new xs known]
        by_cases same : key x = k
        · simp [copyOf, same]
        · have rest := inductionHypothesis (key x :: seen) (by simp [unseen, Ne.symm same])
          simp only [copyOf, List.find?_cons, same, decide_false] at rest ⊢
          exact rest
  exact general [] List.not_mem_nil

/-- In an ordered list the first element with a property is the least one. -/
theorem find?_eq_some_iff_least {r : α → α → Prop} [Std.Asymm r] {xs : List α}
    (ordered : xs.Pairwise r) {wanted : α → Bool} {x : α} :
    xs.find? wanted = some x ↔
      x ∈ xs ∧ wanted x = true ∧ ∀ y ∈ xs, wanted y = true → y = x ∨ r x y := by
  induction xs with
  | nil => simp
  | cons first xs inductionHypothesis =>
    obtain ⟨below, orderedLater⟩ := List.pairwise_cons.mp ordered
    rw [List.find?_cons]
    -- the head is below the rest, so it is the least where it is wanted
    cases here : wanted first with
    | true =>
      simp only [Option.some.injEq]
      constructor
      · intro same
        subst same
        refine ⟨List.mem_cons_self, here, fun y member _ => ?_⟩
        cases member with
        | head => exact .inl rfl
        | tail _ later => exact .inr (below y later)
      · intro ⟨member, _, least⟩
        cases member with
        | head => rfl
        | tail _ later =>
          cases least first List.mem_cons_self here with
          | inl same => exact same
          | inr above => exact absurd above (Std.Asymm.asymm _ _ (below x later))
    | false =>
      dsimp only
      rw [inductionHypothesis orderedLater]
      constructor
      · intro ⟨member, has, least⟩
        refine ⟨List.mem_cons_of_mem _ member, has, fun y inList yHas => ?_⟩
        cases inList with
        | head => rw [here] at yHas; cases yHas
        | tail _ later => exact least y later yHas
      · intro ⟨member, has, least⟩
        cases member with
        | head => rw [here] at has; cases has
        | tail _ later =>
          exact ⟨later, has, fun y inList => least y (List.mem_cons_of_mem _ inList)⟩

/-- Over parts that repeat nothing, an element occurs once for each part that has it. -/
theorem count_flatMap_nodup {ι β : Type*} [DecidableEq β] {f : ι → List β} {parts : List ι}
    (distinct : ∀ i ∈ parts, (f i).Nodup) (x : β) :
    (parts.flatMap f).count x = (parts.filter (fun i => x ∈ f i)).length := by
  induction parts with
  | nil => rfl
  | cons i parts inductionHypothesis =>
    obtain ⟨here, later⟩ := List.forall_mem_cons.mp distinct
    rw [List.flatMap_cons, List.count_append, inductionHypothesis later, List.filter_cons,
      here.count]
    by_cases member : x ∈ f i
    · rw [if_pos member, if_pos (decide_eq_true member), List.length_cons, Nat.add_comm]
    · rw [if_neg member, if_neg (by simpa using member), Nat.zero_add]

end Evald.Lib
