import Mathlib

/-! # Grouping a list under an ordered key

`groupBy key xs` is the loop `for x in xs { map.entry(key(x)).or_default().push(x) }`
over an ordered map.  `getElem?_groupBy` says what the map holds: under each key
that occurs, the elements with that key in their order.
-/

namespace Evald.Lib

variable {α κ : Type} [Ord κ] [Std.TransOrd κ] [Std.LawfulEqOrd κ] [DecidableEq κ]

/-- `entry(k).or_default().push(x)`. -/
def pushUnder (groups : Std.ExtTreeMap κ (List α)) (k : κ) (x : α) : Std.ExtTreeMap κ (List α) :=
  groups.insert k (groups.getD k [] ++ [x])

def groupBy (key : α → κ) (xs : List α) : Std.ExtTreeMap κ (List α) :=
  xs.foldl (fun groups x => pushUnder groups (key x) x) ∅

theorem getElem?_pushUnder (groups : Std.ExtTreeMap κ (List α)) (k k' : κ) (x : α) :
    (pushUnder groups k x)[k']? =
      if k = k' then some ((groups[k']?).getD [] ++ [x]) else groups[k']? := by
  unfold pushUnder
  rw [Std.ExtTreeMap.getElem?_insert]
  simp only [Std.LawfulEqOrd.compare_eq_iff_eq]
  split
  · next same => rw [← same, Std.ExtTreeMap.getD_eq_getD_getElem?]
  · rfl

omit [Std.LawfulEqOrd κ] [DecidableEq κ] in
theorem groupBy_concat (key : α → κ) (xs : List α) (x : α) :
    groupBy key (xs ++ [x]) = pushUnder (groupBy key xs) (key x) x := by
  simp [groupBy]

theorem getElem?_groupBy (key : α → κ) (xs : List α) (k : κ) :
    (groupBy key xs)[k]? =
      if xs.filter (fun x => key x = k) = [] then none
      else some (xs.filter (fun x => key x = k)) := by
  induction xs using List.reverseRecOn with
  | nil => simp [groupBy]
  | append_singleton xs x inductionHypothesis =>
    rw [groupBy_concat, getElem?_pushUnder, inductionHypothesis, List.filter_append]
    by_cases here : key x = k
    · by_cases empty : xs.filter (fun x => key x = k) = []
      · simp [here, empty]
      · simp [here, empty]
    · simp [here]

theorem mem_toList_groupBy {key : α → κ} {xs : List α} {k : κ} {group : List α} :
    (k, group) ∈ (groupBy key xs).toList ↔
      group = xs.filter (fun x => key x = k) ∧ group ≠ [] := by
  rw [Std.ExtTreeMap.mem_toList_iff_getElem?_eq_some, getElem?_groupBy]
  split
  · next empty =>
    constructor
    · intro impossible
      cases impossible
    · rintro ⟨rfl, nonempty⟩
      exact absurd empty nonempty
  · next nonempty =>
    constructor
    · intro same
      cases same
      exact ⟨rfl, nonempty⟩
    · rintro ⟨rfl, -⟩
      rfl

/-- Every element is in the group of its key. -/
theorem mem_group (key : α → κ) {xs : List α} {x : α} (member : x ∈ xs) :
    (key x, xs.filter (fun y => key y = key x)) ∈ (groupBy key xs).toList := by
  rw [mem_toList_groupBy]
  refine ⟨rfl, ?_⟩
  intro empty
  have here : x ∈ xs.filter (fun y => key y = key x) := by simp [member]
  rw [empty] at here
  cases here

omit [Std.LawfulEqOrd κ] [DecidableEq κ] in
/-- No key is listed twice. -/
theorem nodup_keys_toList (groups : Std.ExtTreeMap κ (List α)) :
    (groups.toList.map Prod.fst).Nodup := by
  rw [Std.ExtTreeMap.map_fst_toList_eq_keys]
  exact Std.ExtTreeMap.nodup_keys

/-- Elements told apart by `f` stay apart when the groups are laid end to end. -/
theorem nodup_flatten_groups {β : Type} {key : α → κ} {xs : List α} {f : α → β}
    (distinct : (xs.map f).Nodup) :
    (((groupBy key xs).toList.map Prod.snd).flatten.map f).Nodup := by
  rw [List.map_flatten, List.nodup_flatten, List.map_map, List.pairwise_map]
  constructor
  · intro images member
    obtain ⟨⟨k, group⟩, listed, rfl⟩ := List.mem_map.mp member
    obtain ⟨rfl, -⟩ := mem_toList_groupBy.mp listed
    exact distinct.sublist (List.filter_sublist.map f)
  · have keysApart := nodup_keys_toList (groupBy key xs)
    rw [List.Nodup, List.pairwise_map] at keysApart
    refine keysApart.imp_of_mem (fun {first second} firstListed secondListed differ => ?_)
    intro image inFirst inSecond
    obtain ⟨x, xMember, rfl⟩ := List.mem_map.mp inFirst
    obtain ⟨y, yMember, same⟩ := List.mem_map.mp inSecond
    rw [(mem_toList_groupBy.mp firstListed).1, List.mem_filter] at xMember
    rw [(mem_toList_groupBy.mp secondListed).1, List.mem_filter] at yMember
    have equal : y = x := List.inj_on_of_nodup_map distinct yMember.1 xMember.1 same
    subst equal
    exact differ ((of_decide_eq_true xMember.2).symm.trans (of_decide_eq_true yMember.2))

theorem mem_of_mem_flatten_groups {key : α → κ} {xs : List α} {x : α}
    (member : x ∈ ((groupBy key xs).toList.map Prod.snd).flatten) : x ∈ xs := by
  obtain ⟨group, value, inGroup⟩ := List.mem_flatten.mp member
  obtain ⟨⟨k, group⟩, listed, rfl⟩ := List.mem_map.mp value
  obtain ⟨rfl, -⟩ := mem_toList_groupBy.mp listed
  exact List.mem_of_mem_filter inGroup

end Evald.Lib
