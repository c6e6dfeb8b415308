import Mathlib.Algebra.GroupWithZero.Nat
import Mathlib.Data.List.Nodup
import Mathlib.Logic.Relation
import Mathlib.Tactic.TypeStar

/-! # Walking a graph with a queue

`walk expand fuel queue visited` is the loop that pops the front of a queue, skips
what it has visited and otherwise queues what the node expands to.  With enough fuel
(`queue.length` and the edges not yet followed) it visits what was visited before and
everything the queue reaches, which is `mem_walk`.
-/

namespace Evald.Lib

variable {α : Type*} [DecidableEq α]

/-- The visited nodes, in the order of their first visit. -/
def walk (expand : α → List α) : Nat → List α → List α → List α
  | 0, _, visited => visited
  | _ + 1, [], visited => visited
  | fuel + 1, x :: queue, visited =>
    if x ∈ visited then walk expand fuel queue visited
    else walk expand fuel (queue ++ expand x) (visited ++ [x])

/-- The edges out of the nodes of `nodes` that are still to be visited. -/
def edgesLeft (expand : α → List α) (nodes visited : List α) : Nat :=
  ((nodes.filter (· ∉ visited)).map (fun x => (expand x).length)).sum

/-- `y` can be reached from `x`. -/
abbrev Reaches (expand : α → List α) : α → α → Prop :=
  Relation.ReflTransGen (fun a b => b ∈ expand a)

theorem edgesLeft_visit (expand : α → List α) {nodes visited : List α} {x : α}
    (distinct : nodes.Nodup) (listed : x ∈ nodes) (fresh : x ∉ visited) :
    edgesLeft expand nodes visited =
      (expand x).length + edgesLeft expand nodes (visited ++ [x]) := by
  unfold edgesLeft
  induction nodes with
  | nil => cases listed
  | cons y nodes inductionHypothesis =>
    obtain ⟨notLater, distinctLater⟩ := List.nodup_cons.mp distinct
    by_cases here : y = x
    · subst here
      have later : nodes.filter (· ∉ visited ++ [y]) = nodes.filter (· ∉ visited) := by
        refine List.filter_congr (fun z member => ?_)
        have other : z ≠ y := fun same => notLater (same ▸ member)
        simp [other]
      rw [List.filter_cons_of_pos (by simpa using fresh), List.map_cons, List.sum_cons,
        List.filter_cons_of_neg (by simp), later]
    · have step := inductionHypothesis distinctLater
        ((List.mem_cons.mp listed).resolve_left (fun same => here same.symm))
      by_cases seen : y ∈ visited
      · rw [List.filter_cons_of_neg (by simpa using seen),
          List.filter_cons_of_neg (by simp [seen]), step]
      · rw [List.filter_cons_of_pos (by simpa using seen),
          List.filter_cons_of_pos (by simp [seen, here]), List.map_cons, List.sum_cons,
          List.map_cons, List.sum_cons, step, Nat.add_left_comm]

theorem edgesLeft_visit_other {expand : α → List α} {nodes visited : List α} {x : α}
    (unlisted : x ∉ nodes) :
    edgesLeft expand nodes (visited ++ [x]) = edgesLeft expand nodes visited := by
  unfold edgesLeft
  congr 2
  refine List.filter_congr (fun z member => ?_)
  have other : z ≠ x := fun equal => unlisted (equal ▸ member)
  simp [other]

omit [DecidableEq α] in
/-- What a visited node reaches is visited or reached from the queue. -/
theorem reached_of_frontier {expand : α → List α} {queue visited : List α}
    (frontier : ∀ v ∈ visited, ∀ w ∈ expand v, w ∈ visited ∨ w ∈ queue) {x y : α}
    (start : x ∈ visited) (reached : Reaches expand x y) :
    y ∈ visited ∨ ∃ q ∈ queue, Reaches expand q y := by
  induction reached using Relation.ReflTransGen.head_induction_on with
  | refl => exact .inl start
  | head edge later inductionHypothesis =>
    rcases frontier _ start _ edge with seen | queued
    · exact inductionHypothesis seen
    · exact .inr ⟨_, queued, later⟩

theorem mem_walk {expand : α → List α} {nodes : List α} (distinct : nodes.Nodup)
    (covers : ∀ x, x ∉ nodes → expand x = []) {fuel : Nat} {queue visited : List α}
    (enough : queue.length + edgesLeft expand nodes visited ≤ fuel)
    (frontier : ∀ v ∈ visited, ∀ w ∈ expand v, w ∈ visited ∨ w ∈ queue) (y : α) :
    y ∈ walk expand fuel queue visited ↔
      y ∈ visited ∨ ∃ x ∈ queue, Reaches expand x y := by
  -- on the fuel; what was visited leads only to what was visited or is queued
  induction fuel generalizing queue visited with
  | zero =>
    have empty : queue = [] := by
      rw [← List.length_eq_zero_iff]
      omega
    simp [walk, empty]
  | succ fuel inductionHypothesis =>
    cases queue with
    | nil => simp [walk]
    | cons x queue =>
      rw [List.length_cons] at enough
      rw [walk]
      split
      · next seen =>
        have frontierAfter : ∀ v ∈ visited, ∀ w ∈ expand v, w ∈ visited ∨ w ∈ queue := by
          intro v member w edge
          rcases frontier v member w edge with old | queued
          · exact .inl old
          · rcases List.mem_cons.mp queued with rfl | later
            · exact .inl seen
            · exact .inr later
        rw [inductionHypothesis (by omega) frontierAfter]
        constructor
        · rintro (old | ⟨q, queued, reached⟩)
          · exact .inl old
          · exact .inr ⟨q, List.mem_cons_of_mem x queued, reached⟩
        · rintro (old | ⟨q, queued, reached⟩)
          · exact .inl old
          · rcases List.mem_cons.mp queued with rfl | later
            · exact reached_of_frontier frontierAfter seen reached
            · exact .inr ⟨q, later, reached⟩
      · next fresh =>
        have frontierAfter : ∀ v ∈ visited ++ [x], ∀ w ∈ expand v,
            w ∈ visited ++ [x] ∨ w ∈ queue ++ expand x := by
          intro v member w edge
          rcases List.mem_append.mp member with old | new
          · rcases frontier v old w edge with seen | queued
            · exact .inl (List.mem_append_left _ seen)
            · rcases List.mem_cons.mp queued with rfl | later
              · exact .inl (by simp)
              · exact .inr (List.mem_append_left _ later)
          · rw [List.mem_singleton.mp new] at edge
            exact .inr (List.mem_append_right _ edge)
        -- a visit spends the edges of its node
        have enoughAfter : (queue ++ expand x).length +
            edgesLeft expand nodes (visited ++ [x]) ≤ fuel := by
          rw [List.length_append]
          by_cases listed : x ∈ nodes
          · have spent := edgesLeft_visit expand distinct listed fresh
            omega
          · rw [covers x listed, edgesLeft_visit_other listed, List.length_nil]
            omega
        rw [inductionHypothesis enoughAfter frontierAfter]
        simp only [List.mem_append, List.mem_singleton]
        constructor
        · rintro ((old | rfl) | ⟨q, queued | edge, reached⟩)
          · exact .inl old
          · exact .inr ⟨y, List.mem_cons_self, .refl⟩
          · exact .inr ⟨q, List.mem_cons_of_mem x queued, reached⟩
          · exact .inr ⟨x, List.mem_cons_self, .head edge reached⟩
        · rintro (old | ⟨q, queued, reached⟩)
          · exact .inl (.inl old)
          · rcases List.mem_cons.mp queued with rfl | later
            · rcases Relation.ReflTransGen.cases_head reached with rfl | ⟨w, edge, onward⟩
              · exact .inl (.inr rfl)
              · exact .inr ⟨w, .inr edge, onward⟩
            · exact .inr ⟨q, .inl later, reached⟩

end Evald.Lib
