import Evald.Lib.Multimap

/-! # Probing a write-once store

A store that never changes what it holds only grows.  A value goes under the first of
its names that is free or holds it already, and it is settled there for good: no later
state of the store settles it under another of its names.
-/

namespace Evald.Lib

section WriteOnce

variable {κ ν : Type}

/-- A later state of a store that never changes what it holds. -/
def Extends (later earlier : κ → Option ν) : Prop :=
  ∀ name value, earlier name = some value → later name = some value

theorem Extends.refl (store : κ → Option ν) : Extends store store := fun _ _ held => held

theorem Extends.trans {latest later earlier : κ → Option ν} (second : Extends latest later)
    (first : Extends later earlier) : Extends latest earlier :=
  fun name value held => second name value (first name value held)

/-- The value is under the `i`-th of its names, and each name before holds another one. -/
structure Settled (names : Nat → κ) (value : ν) (store : κ → Option ν) (i : Nat) : Prop where
  held : store (names i) = some value
  passed : ∀ j < i, ∃ other, other ≠ value ∧ store (names j) = some other

theorem Settled.later {names : Nat → κ} {value : ν} {store later : κ → Option ν} {i : Nat}
    (settled : Settled names value store i) (grown : Extends later store) :
    Settled names value later i where
  held := grown _ _ settled.held
  passed := by
    intro j before
    obtain ⟨other, differ, held⟩ := settled.passed j before
    exact ⟨other, differ, grown _ _ held⟩

theorem Settled.unique {names : Nat → κ} {value : ν} {store : κ → Option ν} {i j : Nat}
    (first : Settled names value store i) (second : Settled names value store j) : i = j := by
  have notBefore {a b : Nat} (one : Settled names value store a)
      (other : Settled names value store b) : ¬ a < b := by
    intro before
    obtain ⟨content, differ, held⟩ := other.passed a before
    rw [one.held] at held
    exact differ (Option.some.inj held).symm
  have := notBefore first second
  have := notBefore second first
  omega

variable [Ord κ] [Std.TransOrd κ] [Std.LawfulEqOrd κ]

theorem extends_insert {m : Std.ExtTreeMap κ ν} {name : κ} (free : m[name]? = none) (value : ν) :
    Extends (fun k : κ => (m.insert name value)[k]?) (fun k : κ => m[k]?) := by
  intro k content held
  show (m.insert name value)[k]? = some content
  rw [Std.ExtTreeMap.getElem?_insert]
  split
  · next same =>
    rw [Std.LawfulEqOrd.compare_eq_iff_eq.mp same, show m[k]? = some content from held] at free
    cases free
  · exact held

/-- Of more names than the store has, one is free. -/
theorem exists_free {m : Std.ExtTreeMap κ ν} {names : Nat → κ} {n : Nat}
    (distinct : ∀ i < n, ∀ j < n, names i = names j → i = j) (room : m.size < n) :
    ∃ i < n, m[names i]? = none := by
  by_contra taken
  have nodup : ((List.range n).map names).Nodup := by
    refine List.Nodup.map_on (fun i small j small' same => ?_) List.nodup_range
    exact distinct i (List.mem_range.mp small) j (List.mem_range.mp small') same
  have held : (List.range n).map names ⊆ m.keys := by
    intro name member
    obtain ⟨i, small, named⟩ := List.mem_map.mp member
    rw [Std.ExtTreeMap.mem_keys, Std.ExtTreeMap.mem_iff_isSome_getElem?, ← named]
    cases content : m[names i]? with
    | none => exact absurd ⟨i, List.mem_range.mp small, content⟩ taken
    | some _ => rfl
  have short := (List.subperm_of_subset nodup held).length_le
  rw [List.length_map, List.length_range, Std.ExtTreeMap.length_keys] at short
  omega

end WriteOnce

end Evald.Lib
