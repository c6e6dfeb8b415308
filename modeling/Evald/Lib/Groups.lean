import Mathlib.Algebra.GroupWithZero.Nat
import Mathlib.Data.List.Basic
import Mathlib.Logic.Function.Basic

/-! # Patterns with capture groups

The groups of a pattern are numbered by their opening parentheses.  A match sets the groups
it goes through, so of several alternatives that are groups of their own it sets the number
of the one it took and of none before it (`firstGroup_of_produced`).
-/

namespace Evald.Lib

/-- A pattern by its groups.  Between them are pieces that match from one position of a text
to another. -/
inductive Pattern where
  | piece (accepts : List Char → Nat → Nat → Bool)
  | group (a : Pattern)
  | seq (a b : Pattern)
  | alt (a b : Pattern)
  | many (a : Pattern)

/-- What each group captured, if it took part in the match. -/
abbrev Captures := Nat → Option (Nat × Nat)

namespace Pattern

def groups : Pattern → Nat
  | piece _ => 0
  | group a => a.groups + 1
  | seq a b => a.groups + b.groups
  | alt a b => a.groups + b.groups
  | many a => a.groups

/-- With the whole match, which is group 0. -/
def capturesLen (p : Pattern) : Nat := p.groups + 1

def alternatives : Pattern → List Pattern
  | alt a b => a :: b.alternatives
  | p => [p]

/-- How many groups there are in all. -/
def count (ps : List Pattern) : Nat := (ps.map groups).sum

/-- A match of the pattern from `i` to `j`, its groups numbered from `n` on.  A repetition
leaves of each group what its last round captured. -/
inductive Takes (text : List Char) : Pattern → Nat → Nat → Nat → Captures → Prop where
  | piece {accepts n i j} : accepts text i j = true →
      Takes text (piece accepts) n i j (fun _ => none)
  | group {a n i j c} : Takes text a (n + 1) i j c →
      Takes text (group a) n i j (Function.update c n (some (i, j)))
  | seq {a b n i k j c d} : Takes text a n i k c → Takes text b (n + a.groups) k j d →
      Takes text (seq a b) n i j (fun g => (d g).or (c g))
  | left {a b n i j c} : Takes text a n i j c → Takes text (alt a b) n i j c
  | right {a b n i j c} : Takes text b (n + a.groups) i j c → Takes text (alt a b) n i j c
  | stop {a n i} : Takes text (many a) n i i (fun _ => none)
  | more {a n i k j c d} : Takes text a n i k c → Takes text (many a) n k j d →
      Takes text (many a) n i j (fun g => (d g).or (c g))

variable {text : List Char}

/-- A match sets no group but the pattern's own. -/
theorem Takes.within {p : Pattern} {n i j : Nat} {c : Captures} (takes : Takes text p n i j c)
    {g : Nat} (isSet : c g ≠ none) : n ≤ g ∧ g < n + p.groups := by
  -- a group is set under its own number, its parts number on from there
  induction takes with
  | piece _ => contradiction
  | @group a n i j c _ inductionHypothesis =>
    rw [groups]
    by_cases here : g = n
    · omega
    · rw [Function.update_of_ne here] at isSet
      have inside := inductionHypothesis isSet
      omega
  | seq _ _ first second =>
    rw [groups]
    rw [ne_eq, Option.or_eq_none_iff, not_and_or] at isSet
    cases isSet with
    | inl later =>
      have inside := second later
      omega
    | inr earlier =>
      have inside := first earlier
      omega
  | left _ inductionHypothesis =>
    rw [groups]
    have inside := inductionHypothesis isSet
    omega
  | right _ inductionHypothesis =>
    rw [groups]
    have inside := inductionHypothesis isSet
    omega
  | stop => contradiction
  | more _ _ first second =>
    rw [groups] at second ⊢
    rw [ne_eq, Option.or_eq_none_iff, not_and_or] at isSet
    cases isSet with
    | inl later => exact second later
    | inr earlier => exact first earlier

/-! ## Alternatives -/

/-- The number of the first group of the `k`-th alternative. -/
def numberOf (ps : List Pattern) (n k : Nat) : Nat := n + count (ps.take k)

/-- A match that the `k`-th alternative produced. -/
def Produced (text : List Char) (p : Pattern) (n k i j : Nat) (c : Captures) : Prop :=
  ∃ a, p.alternatives[k]? = some a ∧ Takes text a (numberOf p.alternatives n k) i j c

/-- Every match is produced by an alternative. -/
theorem Takes.produced {p : Pattern} {n i j : Nat} {c : Captures} (takes : Takes text p n i j c) :
    ∃ k, Produced text p n k i j c := by
  induction p generalizing n with
  | alt a b _ inductionHypothesis =>
    cases takes with
    | left first => exact ⟨0, a, rfl, first⟩
    | right second =>
      obtain ⟨k, alternative, listed, produced⟩ := inductionHypothesis second
      refine ⟨k + 1, alternative, listed, ?_⟩
      have number : numberOf (a.alt b).alternatives n (k + 1) =
          numberOf b.alternatives (n + a.groups) k := by
        have listed : (a.alt b).alternatives = a :: b.alternatives := rfl
        unfold numberOf count
        rw [listed, List.take_succ_cons, List.map_cons, List.sum_cons]
        omega
      rw [number]
      exact produced
  | piece accepts => exact ⟨0, _, rfl, takes⟩
  | group a _ => exact ⟨0, _, rfl, takes⟩
  | seq a b _ _ => exact ⟨0, _, rfl, takes⟩
  | many a _ => exact ⟨0, _, rfl, takes⟩

/-- The first of the numbers that is set, and what it captured. -/
def firstGroup (numbers : List Nat) (c : Captures) : Option (Nat × Nat × Nat) :=
  numbers.zipIdx.findSome? (fun x => (c x.1).map (fun span => (x.2, span)))

theorem numberOf_lt {ps : List Pattern} {n k l : Nat} (before : k < l) {a : Pattern}
    (listed : ps[k]? = some (group a)) : numberOf ps n k < numberOf ps n l := by
  unfold numberOf count
  have split : ps.take l = ps.take k ++ group a :: (ps.take l).drop (k + 1) := by
    have inside : (ps.take l)[k]? = some (group a) := by
      rw [List.getElem?_take_of_lt before, listed]
    obtain ⟨bound, value⟩ := List.getElem?_eq_some_iff.mp inside
    have parts := List.take_append_drop k (ps.take l)
    rw [List.take_take, Nat.min_eq_left (Nat.le_of_lt before),
      List.drop_eq_getElem_cons bound, value] at parts
    exact parts.symm
  rw [split, List.map_append, List.sum_append, List.map_cons, List.sum_cons, groups]
  omega

theorem numberOf_append {ps : List Pattern} {n k : Nat} (qs : List Pattern) (inside : k ≤ ps.length) :
    numberOf (ps ++ qs) n k = numberOf ps n k := by
  rw [numberOf, numberOf, List.take_append_of_le_length inside]

/-- One more alternative has the number behind all the groups before it. -/
theorem map_numberOf_push (ps : List Pattern) (q : Pattern) (n : Nat) :
    (List.range (ps ++ [q]).length).map (fun k => numberOf (ps ++ [q]) n k) =
      (List.range ps.length).map (fun k => numberOf ps n k) ++ [n + count ps] := by
  rw [List.length_append, List.length_singleton, List.range_succ, List.map_append]
  congr 1
  · refine List.map_congr_left (fun k inside => ?_)
    exact numberOf_append [q] (Nat.le_of_lt (List.mem_range.mp inside))
  · have last := @numberOf_append ps n ps.length [q] (Nat.le_refl _)
    rw [List.map_singleton, last, numberOf, List.take_length]

/-- Where every alternative is a group, the first one that is set is the one that was taken,
and it captured the match. -/
theorem firstGroup_of_produced {p : Pattern} {n k i j : Nat} {c : Captures} {numbers : List Nat}
    (wrapped : ∀ a ∈ p.alternatives, ∃ b, a = group b)
    (numbered : numbers =
      (List.range p.alternatives.length).map (fun l => numberOf p.alternatives n l))
    (produced : Produced text p n k i j c) : firstGroup numbers c = some (k, i, j) := by
  obtain ⟨a, listed, takes⟩ := produced
  obtain ⟨inside, value⟩ := List.getElem?_eq_some_iff.mp listed
  obtain ⟨b, rfl⟩ := wrapped a (List.mem_of_getElem? listed)
  have entry {l : Nat} (bound : l < p.alternatives.length) :
      numbers.zipIdx[l]? = some (numberOf p.alternatives n l, l) := by
    rw [List.getElem?_zipIdx, numbered, List.getElem?_map, List.getElem?_range bound]
    simp
  obtain ⟨bound, here⟩ := List.getElem?_eq_some_iff.mp (entry inside)
  refine List.findSome?_eq_some_iff.mpr ⟨numbers.zipIdx.take k, (numberOf p.alternatives n k, k),
    numbers.zipIdx.drop (k + 1), ?_, ?_, fun x earlier => ?_⟩
  · rw [← here, ← List.drop_eq_getElem_cons bound, List.take_append_drop]
  · cases takes with
    | group inner => simp
  · obtain ⟨l, isEntry⟩ := List.mem_iff_getElem?.mp earlier
    have before : l < k := by
      by_contra behind
      rw [List.getElem?_take_eq_none (Nat.le_of_not_lt behind)] at isEntry
      contradiction
    rw [List.getElem?_take_of_lt before, entry (Nat.lt_trans before inside),
      Option.some.injEq] at isEntry
    rw [← isEntry, Option.map_eq_none_iff]
    -- the groups of an alternative before it have smaller numbers
    obtain ⟨d, isGroup⟩ := wrapped _ (List.getElem_mem (Nat.lt_trans before inside))
    have smaller := @numberOf_lt p.alternatives n l k before d
      (by rw [List.getElem?_eq_getElem (Nat.lt_trans before inside), isGroup])
    by_contra isSet
    have within := takes.within isSet
    omega

end Pattern

end Evald.Lib
