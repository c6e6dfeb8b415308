import Mathlib

/-! # Ordered multimaps

A key holds a set of values, listed in order; inserting a held pair or removing
one that is not held changes nothing.  `eraseAll` removes a list of keys from an
ordered map.
-/

namespace Evald.Lib

section EraseAll

variable {κ ν : Type} [Ord κ] [Std.TransOrd κ] [Std.LawfulEqOrd κ]

def eraseAll (m : Std.ExtTreeMap κ ν) (keys : List κ) : Std.ExtTreeMap κ ν :=
  keys.foldl (fun m k => m.erase k) m

theorem getElem?_eraseAll_mem {m : Std.ExtTreeMap κ ν} {keys : List κ} {k : κ}
    (member : k ∈ keys) : (eraseAll m keys)[k]? = none := by
  induction keys using List.reverseRecOn with
  | nil => cases member
  | append_singleton keys key inductionHypothesis =>
    have unfolded : eraseAll m (keys ++ [key]) = (eraseAll m keys).erase key := by
      simp [eraseAll]
    rw [unfolded, Std.ExtTreeMap.getElem?_erase]
    split
    · rfl
    · next differ =>
      have earlier : k ∈ keys := by
        rcases List.mem_append.mp member with earlier | last
        · exact earlier
        · rw [List.mem_singleton.mp last] at differ
          exact absurd Std.ReflOrd.compare_self differ
      exact inductionHypothesis earlier

theorem getElem?_eraseAll_not_mem {m : Std.ExtTreeMap κ ν} {keys : List κ} {k : κ}
    (other : k ∉ keys) : (eraseAll m keys)[k]? = m[k]? := by
  induction keys generalizing m with
  | nil => rfl
  | cons key keys inductionHypothesis =>
    obtain ⟨here, later⟩ := not_or.mp (List.mem_cons.not.mp other)
    change (eraseAll (m.erase key) keys)[k]? = _
    rw [inductionHypothesis later, Std.ExtTreeMap.getElem?_erase, if_neg]
    exact fun same => here (Std.LawfulEqOrd.compare_eq_iff_eq.mp same).symm

theorem mem_eraseAll {m : Std.ExtTreeMap κ ν} {keys : List κ} {k : κ} :
    k ∈ eraseAll m keys ↔ k ∉ keys ∧ k ∈ m := by
  rw [Std.ExtTreeMap.mem_iff_isSome_getElem?, Std.ExtTreeMap.mem_iff_isSome_getElem?]
  by_cases member : k ∈ keys
  · simp [getElem?_eraseAll_mem member, member]
  · simp [getElem?_eraseAll_not_mem member, member]

/-- An insertion, key by key. -/
theorem getElem?_insert_if [DecidableEq κ] (m : Std.ExtTreeMap κ ν) (k k' : κ) (v : ν) :
    (m.insert k v)[k']? = if k' = k then some v else m[k']? := by
  rw [Std.ExtTreeMap.getElem?_insert]
  simp only [Std.LawfulEqOrd.compare_eq_iff_eq, @eq_comm _ k k']

end EraseAll

/-- Two lists in strict key order with the same elements are the same list. -/
theorem ordered_ext {κ : Type} [Ord κ] [Std.TransOrd κ] {xs ys : List κ}
    (xsOrdered : xs.Pairwise (fun a b => compare a b = .lt))
    (ysOrdered : ys.Pairwise (fun a b => compare a b = .lt)) (same : ∀ k, k ∈ xs ↔ k ∈ ys) :
    xs = ys := by
  have nodup : ∀ {zs : List κ}, zs.Pairwise (fun a b => compare a b = .lt) → zs.Nodup := by
    intro zs ordered
    refine ordered.imp (fun {a b} before equal => ?_)
    rw [equal, Std.ReflOrd.compare_self] at before
    cases before
  have perm : xs.Perm ys :=
    (List.perm_ext_iff_of_nodup (nodup xsOrdered) (nodup ysOrdered)).mpr same
  refine perm.eq_of_pairwise (fun a b _ _ before after => ?_) xsOrdered ysOrdered
  rw [Std.OrientedOrd.eq_swap (a := a), after] at before
  cases before

abbrev Multimap (κ ν : Type) [Ord κ] [Ord ν] := Std.ExtTreeMap κ (Std.ExtTreeSet ν)

namespace Multimap

variable {κ ν : Type} [Ord κ] [Std.TransOrd κ] [Std.LawfulEqOrd κ]
  [Ord ν] [Std.TransOrd ν] [Std.LawfulEqOrd ν]

/-- The values under `k`. -/
def valuesOf (m : Multimap κ ν) (k : κ) : Std.ExtTreeSet ν := m.getD k ∅

def Holds (m : Multimap κ ν) (k : κ) (v : ν) : Prop := v ∈ m.valuesOf k

def insertPair (m : Multimap κ ν) (k : κ) (v : ν) : Multimap κ ν :=
  m.insert k ((m.valuesOf k).insert v)

def removePair (m : Multimap κ ν) (k : κ) (v : ν) : Multimap κ ν :=
  m.insert k ((m.valuesOf k).erase v)

/-- Every pair held, in order. -/
def pairs (m : Multimap κ ν) : List (κ × ν) :=
  m.toList.flatMap (fun entry => entry.2.toList.map (fun v => (entry.1, v)))

omit [Std.LawfulEqOrd κ] [Std.TransOrd ν] [Std.LawfulEqOrd ν] in
theorem valuesOf_insert (m : Multimap κ ν) (k k' : κ) (vs : Std.ExtTreeSet ν) :
    valuesOf (Std.ExtTreeMap.insert m k vs) k' =
      if compare k k' = .eq then vs else m.valuesOf k' :=
  Std.ExtTreeMap.getD_insert

omit [Std.LawfulEqOrd κ] [Std.LawfulEqOrd ν] in
@[simp] theorem holds_empty (k : κ) (v : ν) : ¬ Holds (∅ : Multimap κ ν) k v := by
  have empty : valuesOf (∅ : Multimap κ ν) k = ∅ := Std.ExtTreeMap.getD_empty
  rw [Holds, empty]
  exact Std.ExtTreeSet.not_mem_empty

theorem holds_insertPair (m : Multimap κ ν) (k k' : κ) (v v' : ν) :
    Holds (m.insertPair k v) k' v' ↔ (k = k' ∧ v = v') ∨ Holds m k' v' := by
  rw [Holds, insertPair, valuesOf_insert]
  by_cases same : k = k'
  · subst same
    rw [if_pos Std.ReflOrd.compare_self, Std.ExtTreeSet.mem_insert]
    simp [Holds]
  · rw [if_neg (fun equal => same (Std.LawfulEqOrd.compare_eq_iff_eq.mp equal))]
    simp [same, Holds]

theorem holds_removePair (m : Multimap κ ν) (k k' : κ) (v v' : ν) :
    Holds (m.removePair k v) k' v' ↔ ¬ (k = k' ∧ v = v') ∧ Holds m k' v' := by
  rw [Holds, removePair, valuesOf_insert]
  by_cases same : k = k'
  · subst same
    rw [if_pos Std.ReflOrd.compare_self, Std.ExtTreeSet.mem_erase]
    simp [Holds]
  · rw [if_neg (fun equal => same (Std.LawfulEqOrd.compare_eq_iff_eq.mp equal))]
    simp [same, Holds]

theorem mem_pairs (m : Multimap κ ν) (k : κ) (v : ν) : (k, v) ∈ m.pairs ↔ Holds m k v := by
  simp only [pairs, List.mem_flatMap, List.mem_map, Prod.mk.injEq]
  constructor
  · rintro ⟨⟨key, values⟩, listed, w, held, rfl, rfl⟩
    rw [Std.ExtTreeMap.mem_toList_iff_getElem?_eq_some] at listed
    rw [Holds, valuesOf, Std.ExtTreeMap.getD_eq_getD_getElem?, listed]
    exact Std.ExtTreeSet.mem_toList.mp held
  · intro held
    rw [Holds, valuesOf, Std.ExtTreeMap.getD_eq_getD_getElem?] at held
    cases found : m[k]? with
    | none =>
      rw [found] at held
      exact absurd held Std.ExtTreeSet.not_mem_empty
    | some values =>
      rw [found] at held
      exact ⟨(k, values), Std.ExtTreeMap.mem_toList_iff_getElem?_eq_some.mpr found, v,
        Std.ExtTreeSet.mem_toList.mpr held, rfl, rfl⟩

theorem holds_foldl_insertPair (k : κ) (v : ν) (entries : List (κ × ν)) (m : Multimap κ ν) :
    Holds (entries.foldl (fun m e => m.insertPair e.1 e.2) m) k v ↔
      (k, v) ∈ entries ∨ Holds m k v := by
  induction entries generalizing m with
  | nil => simp
  | cons entry entries inductionHypothesis =>
    obtain ⟨k', v'⟩ := entry
    rw [List.foldl_cons, inductionHypothesis, holds_insertPair]
    simp only [List.mem_cons, Prod.mk.injEq]
    constructor
    · rintro (later | ⟨rfl, rfl⟩ | held)
      · exact .inl (.inr later)
      · exact .inl (.inl ⟨rfl, rfl⟩)
      · exact .inr held
    · rintro ((⟨rfl, rfl⟩ | later) | held)
      · exact .inr (.inl ⟨rfl, rfl⟩)
      · exact .inl later
      · exact .inr (.inr held)

theorem holds_foldl_removePair (k : κ) (v : ν) (entries : List (κ × ν)) (m : Multimap κ ν) :
    Holds (entries.foldl (fun m e => m.removePair e.1 e.2) m) k v ↔
      (k, v) ∉ entries ∧ Holds m k v := by
  induction entries generalizing m with
  | nil => simp
  | cons entry entries inductionHypothesis =>
    obtain ⟨k', v'⟩ := entry
    rw [List.foldl_cons, inductionHypothesis, holds_removePair]
    simp only [List.mem_cons, Prod.mk.injEq, not_or]
    constructor
    · rintro ⟨later, differ, held⟩
      exact ⟨⟨fun same => differ ⟨same.1.symm, same.2.symm⟩, later⟩, held⟩
    · rintro ⟨⟨differ, later⟩, held⟩
      exact ⟨later, fun same => differ ⟨same.1.symm, same.2.symm⟩, held⟩

end Multimap

end Evald.Lib
