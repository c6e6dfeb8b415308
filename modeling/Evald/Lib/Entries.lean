import Mathlib

/-! # The entries of a hash map

A hash map as the list of its entries: `upsert` is `*f(map.entry(k).or_insert(fresh))`.  The
keys stay distinct, and what is summed over the entries changes by what the one entry
changes by.
-/

namespace Evald.Lib

section Entries

variable {κ ν : Type} [DecidableEq κ]

/-- Changes the value under a key, which is `fresh` when there is none. -/
def upsert (k : κ) (fresh : ν) (f : ν → ν) : List (κ × ν) → List (κ × ν)
  | [] => [(k, f fresh)]
  | entry :: rest =>
    if entry.1 = k then (k, f entry.2) :: rest else entry :: upsert k fresh f rest

variable {k : κ} {fresh : ν} {f : ν → ν} {entries : List (κ × ν)}

theorem keys_upsert (k : κ) (fresh : ν) (f : ν → ν) (entries : List (κ × ν)) :
    (upsert k fresh f entries).map Prod.fst =
      if k ∈ entries.map Prod.fst then entries.map Prod.fst else entries.map Prod.fst ++ [k] := by
  induction entries with
  | nil => simp [upsert]
  | cons entry rest inductionHypothesis =>
    unfold upsert
    by_cases here : entry.1 = k
    · simp [here]
    · rw [if_neg here, List.map_cons, inductionHypothesis]
      by_cases later : k ∈ rest.map Prod.fst
      · rw [if_pos later, if_pos (by rw [List.map_cons]; exact List.mem_cons_of_mem _ later),
          List.map_cons]
      · rw [if_neg later, if_neg]
        · rfl
        · rw [List.map_cons, List.mem_cons, not_or]
          exact ⟨fun same => here same.symm, later⟩

theorem nodup_keys_upsert (distinct : (entries.map Prod.fst).Nodup) :
    ((upsert k fresh f entries).map Prod.fst).Nodup := by
  rw [keys_upsert]
  split
  · exact distinct
  · next absent =>
    rw [List.nodup_append]
    refine ⟨distinct, List.nodup_singleton k, ?_⟩
    intro a listed b isK same
    rw [List.mem_singleton] at isK
    exact absent (isK ▸ same ▸ listed)

theorem mem_keys_upsert {k' : κ} :
    k' ∈ (upsert k fresh f entries).map Prod.fst ↔ k' = k ∨ k' ∈ entries.map Prod.fst := by
  rw [keys_upsert]
  split
  · next listed =>
    constructor
    · exact .inr
    · intro among
      cases among with
      | inl same => rwa [same]
      | inr earlier => exact earlier
  · rw [List.mem_append, List.mem_singleton, or_comm]

theorem length_upsert (k : κ) (fresh : ν) (f : ν → ν) (entries : List (κ × ν)) :
    (upsert k fresh f entries).length =
      if k ∈ entries.map Prod.fst then entries.length else entries.length + 1 := by
  have keys := congrArg List.length (keys_upsert k fresh f entries)
  rw [List.length_map] at keys
  rw [keys]
  split <;> simp

/-- What one entry adds is what the sum over all grows by. -/
theorem sum_upsert {g : ν → Nat} {n : Nat} (starts : g fresh = 0)
    (grows : ∀ v, g (f v) = g v + n) (entries : List (κ × ν)) :
    ((upsert k fresh f entries).map (fun entry => g entry.2)).sum =
      (entries.map (fun entry => g entry.2)).sum + n := by
  induction entries with
  | nil => simp [upsert, grows, starts]
  | cons entry rest inductionHypothesis =>
    unfold upsert
    split
    · simp only [List.map_cons, List.sum_cons, grows]
      omega
    · simp only [List.map_cons, List.sum_cons, inductionHypothesis]
      omega

/-- Where the entry may grow by less, so may the sum. -/
theorem sum_upsert_le {g : ν → Nat} {n : Nat} (starts : g fresh = 0)
    (grows : ∀ v, g (f v) ≤ g v + n) (entries : List (κ × ν)) :
    ((upsert k fresh f entries).map (fun entry => g entry.2)).sum ≤
      (entries.map (fun entry => g entry.2)).sum + n := by
  induction entries with
  | nil =>
    have start := grows fresh
    simp only [upsert, List.map_cons, List.map_nil, List.sum_cons, List.sum_nil]
    omega
  | cons entry rest inductionHypothesis =>
    have grown := grows entry.2
    unfold upsert
    split
    · simp only [List.map_cons, List.sum_cons]
      omega
    · simp only [List.map_cons, List.sum_cons]
      omega

/-- Two lists of entries with the same keys, entry beside entry. -/
theorem exists_beside {entries entries' : List (κ × ν)} (distinct : (entries.map Prod.fst).Nodup)
    (distinct' : (entries'.map Prod.fst).Nodup)
    (keys : ∀ k, k ∈ entries.map Prod.fst ↔ k ∈ entries'.map Prod.fst) :
    ∃ both : List (κ × ν × ν), both.map (fun e => (e.1, e.2.1)) = entries ∧
      (both.map (fun e => (e.1, e.2.2))).Perm entries' := by
  induction entries generalizing entries' with
  | nil =>
    have none : entries' = [] := by
      rw [← List.map_eq_nil_iff, List.eq_nil_iff_forall_not_mem]
      exact fun k listed => List.not_mem_nil ((keys k).mpr listed)
    exact ⟨[], rfl, by simp [none]⟩
  | cons entry rest inductionHypothesis =>
    have listed : entry.1 ∈ entries'.map Prod.fst := (keys _).mp (by simp)
    obtain ⟨⟨k, v⟩, among, isKey⟩ := List.mem_map.mp listed
    obtain ⟨before, after, rfl⟩ := List.append_of_mem among
    have moved : (before ++ (k, v) :: after).Perm ((k, v) :: (before ++ after)) :=
      List.perm_middle
    have distinctMoved := (moved.map Prod.fst).nodup_iff.mp distinct'
    rw [List.map_cons, List.nodup_cons] at distinctMoved distinct
    have others (key : κ) :
        key ∈ rest.map Prod.fst ↔ key ∈ (before ++ after).map Prod.fst := by
      have both := keys key
      rw [(moved.map Prod.fst).mem_iff, List.map_cons, List.map_cons, List.mem_cons,
        List.mem_cons, ← isKey] at both
      by_cases here : key = k
      · rw [here]
        constructor
        · exact fun later => absurd (isKey ▸ later) distinct.1
        · exact fun later => absurd later distinctMoved.1
      · simpa [here] using both
    obtain ⟨both, isRest, isOthers⟩ := inductionHypothesis distinct.2 distinctMoved.2 others
    refine ⟨(entry.1, entry.2, v) :: both, ?_, ?_⟩
    · rw [List.map_cons, isRest]
    · rw [List.map_cons, ← isKey]
      exact (isOthers.cons _).trans moved.symm

end Entries

end Evald.Lib
