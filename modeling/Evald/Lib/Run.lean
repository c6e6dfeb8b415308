import Mathlib.Data.List.Induction
import Mathlib.Logic.Relation
import Mathlib.Tactic.TypeStar

/-! # Runs of a transition system

`Reachable start step` holds of the states some run from a start state gets to.
An invariant is proved once per step (`Reachable.invariant`), with everything
already known of reachable states at hand when one is needed
(`Reachable.strengthen`), and a system whose steps are all steps of another one
reaches no more states than that one (`Reachable.simulated`).
-/

namespace Evald.Lib

inductive Reachable {σ : Type*} (start : σ → Prop) (step : σ → σ → Prop) : σ → Prop where
  | start {s : σ} : start s → Reachable start step s
  | next {s s' : σ} : Reachable start step s → step s s' → Reachable start step s'

variable {σ τ : Type*} {start : σ → Prop} {step : σ → σ → Prop}

/-- What holds at the start and is kept by every step holds of every reachable state. -/
theorem Reachable.invariant {holds : σ → Prop} (initially : ∀ s, start s → holds s)
    (kept : ∀ s s', holds s → step s s' → holds s') {s : σ} (reached : Reachable start step s) :
    holds s := by
  induction reached with
  | start begins => exact initially _ begins
  | next _ stepped inductionHypothesis => exact kept _ _ inductionHypothesis stepped

/-- As `invariant`, with a fact about reachable states that the step lemma may use. -/
theorem Reachable.strengthen {known holds : σ → Prop}
    (always : ∀ s, Reachable start step s → known s) (initially : ∀ s, start s → holds s)
    (kept : ∀ s s', known s → holds s → step s s' → holds s') {s : σ}
    (reached : Reachable start step s) : holds s := by
  induction reached with
  | start begins => exact initially _ begins
  | next before stepped inductionHypothesis =>
    exact kept _ _ (always _ before) inductionHypothesis stepped

/-- A loop whose body keeps a fact and never fails keeps it and never fails. -/
theorem foldlM_keeps {α : Type*} (body : σ → α → Option σ) {holds : σ → Prop}
    (kept : ∀ s a, holds s → ∃ s', body s a = some s' ∧ holds s') (xs : List α) {s : σ}
    (initially : holds s) : ∃ s', xs.foldlM body s = some s' ∧ holds s' := by
  induction xs generalizing s with
  | nil => exact ⟨s, rfl, initially⟩
  | cons x xs inductionHypothesis =>
    obtain ⟨middle, stepped, held⟩ := kept s x initially
    obtain ⟨s', ran, finishes⟩ := inductionHypothesis held
    exact ⟨s', by rw [List.foldlM_cons, stepped]; exact ran, finishes⟩

/-- What a run has put out was there at its start or came out of one of its steps. -/
theorem mem_outputs_foldl {α ω : Type*} {body : σ → α → σ} (outputs : σ → List ω)
    (emitted : σ → α → List ω)
    (grows : ∀ s a, outputs (body s a) = outputs s ++ emitted s a) {xs : List α} {s : σ} {o : ω} :
    o ∈ outputs (xs.foldl body s) ↔ o ∈ outputs s ∨
      ∃ before a after, xs = before ++ a :: after ∧ o ∈ emitted (before.foldl body s) a := by
  induction xs using List.reverseRecOn with
  | nil => simp
  | append_singleton xs x inductionHypothesis =>
    rw [List.foldl_append, List.foldl_cons, List.foldl_nil, grows, List.mem_append,
      inductionHypothesis, or_assoc]
    refine or_congr_right ?_
    constructor
    · intro came
      cases came with
      | inl earlier =>
        obtain ⟨before, a, after, split, came⟩ := earlier
        exact ⟨before, a, after ++ [x], by rw [split]; simp, came⟩
      | inr last => exact ⟨xs, x, [], rfl, last⟩
    · intro came
      obtain ⟨before, a, after, split, came⟩ := came
      cases after using List.reverseRecOn with
      | nil =>
        obtain ⟨rfl, same⟩ := List.append_inj' split rfl
        rw [List.cons.injEq] at same
        exact .inr (same.1 ▸ came)
      | append_singleton after a' =>
        rw [← List.cons_append, ← List.append_assoc] at split
        obtain ⟨split, -⟩ := List.append_inj' split rfl
        exact .inl ⟨before, a, after, split, came⟩

/-- Every state of a sequence of steps from a reachable state is reachable. -/
theorem Reachable.steps {s s' : σ} (reached : Reachable start step s)
    (moved : Relation.ReflTransGen step s s') : Reachable start step s' := by
  induction moved with
  | refl => exact reached
  | tail _ stepped inductionHypothesis => exact .next inductionHypothesis stepped

/-- A system with fewer start states and fewer steps reaches fewer states. -/
theorem Reachable.mono {start' : σ → Prop} {step' : σ → σ → Prop}
    (starts : ∀ s, start s → start' s) (steps : ∀ s s', step s s' → step' s s') {s : σ}
    (reached : Reachable start step s) : Reachable start' step' s := by
  induction reached with
  | start begins => exact .start (starts _ begins)
  | next _ stepped inductionHypothesis => exact .next inductionHypothesis (steps _ _ stepped)

/-! ## Runs that are good step by step -/

/-- Every action of a run is taken under its condition. -/
def StepsMeet {α : Type*} (condition : List α → α → Prop) (xs : List α) : Prop :=
  ∀ front a, front ++ [a] <+: xs → condition front a

/-- Where the conditions met so far give a property, and the property after one more action
needs that action's condition, the property holds along a run exactly when every condition
does. -/
theorem forall_prefix_iff {α : Type*} {condition : List α → α → Prop} {holds : List α → Prop}
    (enough : ∀ front, StepsMeet condition front → holds front)
    (needed : ∀ front a, StepsMeet condition front → holds (front ++ [a]) → condition front a)
    (xs : List α) : (∀ front, front <+: xs → holds front) ↔ StepsMeet condition xs := by
  constructor
  · intro always
    induction xs using List.reverseRecOn with
    | nil =>
      intro front a impossible
      simp at impossible
    | append_singleton xs x inductionHypothesis =>
      have before := inductionHypothesis
        (fun front early => always front (early.trans (List.prefix_append _ _)))
      intro front a inside
      obtain same | inside := List.prefix_concat_iff.mp inside
      · have after := always (front ++ [a]) (same ▸ List.prefix_rfl)
        obtain ⟨sameFront, -⟩ := List.append_inj' same rfl
        exact needed front a (sameFront ▸ before) after
      · exact before front a inside
  · intro met front early
    exact enough front (fun front' a inside => met front' a (inside.trans early))

end Evald.Lib
