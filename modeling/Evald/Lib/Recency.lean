import Mathlib.Data.Finset.Card
import Mathlib.Data.List.TakeWhile

/-! # What was seen most recently

A history lists what was seen, the newest first.  A bounded queue that takes in what it does
not hold, and drops its oldest member for it, holds what was seen most recently as long as
the member it drops is the one seen longest ago; the first time it is not, the queue has lost
a member that was seen too recently (`Latest.recent_step_iff`).
-/

namespace Evald.Lib

variable {κ : Type*} [DecidableEq κ]

/-- What was seen after the last sight of `s`. -/
def since (history : List κ) (s : κ) : List κ := history.takeWhile (· ≠ s)

@[simp] theorem since_nil (s : κ) : since [] s = [] := rfl

@[simp] theorem since_self (history : List κ) (s : κ) : since (s :: history) s = [] := by
  simp [since]

theorem since_cons {s t : κ} (differ : t ≠ s) (history : List κ) :
    since (t :: history) s = t :: since history s := by
  simp [since, differ]

theorem mem_of_mem_since {history : List κ} {s u : κ} (seen : u ∈ since history s) :
    u ∈ history := (List.takeWhile_prefix _).subset seen

theorem not_mem_since_self (history : List κ) (s : κ) : s ∉ since history s := by
  intro seen
  have passed := List.mem_takeWhile_imp seen
  simp at passed

/-- Of two members one was seen last. -/
theorem mem_since_total {history : List κ} {s u : κ} (inside : s ∈ history)
    (differ : u ≠ s) : u ∈ since history s ∨ s ∈ since history u ∨ u ∉ history := by
  induction history with
  | nil => cases inside
  | cons t history inductionHypothesis =>
    by_cases first : t = s
    · right
      left
      rw [first, since_cons (Ne.symm differ)]
      exact List.mem_cons_self
    · by_cases first' : t = u
      · left
        rw [since_cons first, first']
        exact List.mem_cons_self
      · have inside' := (List.mem_cons.mp inside).resolve_left (Ne.symm first)
        rw [since_cons first, since_cons first', List.mem_cons, List.mem_cons, List.mem_cons]
        obtain after | before | never := inductionHypothesis inside'
        · exact .inl (.inr after)
        · exact .inr (.inl (.inr before))
        · exact .inr (.inr (not_or.mpr ⟨Ne.symm first', never⟩))

/-- And only one. -/
theorem not_mem_since_of_mem {history : List κ} {s u : κ} (after : u ∈ since history s) :
    s ∉ since history u := by
  induction history with
  | nil => cases after
  | cons t history inductionHypothesis =>
    by_cases first : t = s
    · rw [first, since_self] at after
      cases after
    · by_cases first' : t = u
      · rw [first', since_self]
        exact List.not_mem_nil
      · rw [since_cons first, List.mem_cons] at after
        rw [since_cons first', List.mem_cons, not_or]
        exact ⟨Ne.symm first, inductionHypothesis (after.resolve_left (Ne.symm first'))⟩

/-! ## A bounded queue -/

variable (capacity : Nat)

/-- What is not held is taken in, and the oldest member goes where there is no room. -/
def enqueue (queue : List κ) (t : κ) : List κ :=
  if t ∈ queue then queue
  else if queue.length < capacity then queue ++ [t]
  else queue.tail ++ [t]

/-- What is held: each once, and no more than there is room for. -/
structure Bounded (queue : List κ) : Prop where
  nodup : queue.Nodup
  fits : queue.length ≤ capacity

/-- Whatever was seen, with fewer others seen since than there is room for, is held. -/
def Recent (history queue : List κ) : Prop :=
  ∀ s ∈ history, (since history s).toFinset.card < capacity → s ∈ queue

/-- The member that goes for `t`, if one does, was seen before all the others that are held. -/
def DropsStalest (history queue : List κ) (t : κ) : Prop :=
  t ∉ queue → capacity ≤ queue.length →
    ∀ old rest, queue = old :: rest → ∀ u ∈ rest, u ∈ since history old

/-- A queue that holds whatever was seen after a member, and everything while there is room. -/
structure Latest (history queue : List κ) : Prop extends Bounded capacity queue where
  seen : ∀ s ∈ queue, s ∈ history
  closed : ∀ s ∈ queue, ∀ u ∈ since history s, u ∈ queue
  roomy : queue.length < capacity → ∀ s ∈ history, s ∈ queue

variable {capacity}

theorem of_mem_enqueue {queue : List κ} {t u : κ} (inside : u ∈ enqueue capacity queue t) :
    u ∈ queue ∨ u = t := by
  unfold enqueue at inside
  split at inside
  · exact .inl inside
  · split at inside
    · rwa [List.mem_append, List.mem_singleton] at inside
    · rw [List.mem_append, List.mem_singleton] at inside
      exact inside.imp_left List.mem_of_mem_tail

theorem Bounded.enqueue {queue : List κ} (bounded : Bounded capacity queue)
    (positive : 0 < capacity) (t : κ) : Bounded capacity (enqueue capacity queue t) := by
  unfold Lib.enqueue
  split
  · exact bounded
  · next absent =>
    split
    · next room =>
      refine ⟨List.Nodup.append bounded.nodup (by simp) (by simpa using absent), ?_⟩
      rw [List.length_append, List.length_singleton]
      exact room
    · next full =>
      have behind : t ∉ queue.tail := fun inside => absent (List.mem_of_mem_tail inside)
      refine ⟨List.Nodup.append bounded.nodup.tail (by simp) (by simpa using behind), ?_⟩
      have fits := bounded.fits
      rw [List.length_append, List.length_singleton, List.length_tail]
      omega

theorem latest_nil : Latest capacity ([] : List κ) [] where
  nodup := List.nodup_nil
  fits := Nat.zero_le _
  seen _ inside := by cases inside
  closed _ inside := by cases inside
  roomy _ _ inside := by cases inside

/-- Such a queue holds what was seen most recently. -/
theorem Latest.recent {history queue : List κ} (latest : Latest capacity history queue) :
    Recent capacity history queue := by
  intro s known few
  by_contra lost
  -- there is no room, and every member was seen since
  have full : capacity ≤ queue.length := by
    by_contra room
    exact lost (latest.roomy (by omega) s known)
  have after : queue.toFinset ⊆ (since history s).toFinset := by
    intro u inside
    rw [List.mem_toFinset] at inside ⊢
    have differ : u ≠ s := fun same => lost (same ▸ inside)
    obtain seen | before | never := mem_since_total known differ
    · exact seen
    · exact absurd (latest.closed u inside s before) lost
    · exact absurd (latest.seen u inside) never
  have count := Finset.card_le_card after
  rw [List.toFinset_card_of_nodup latest.nodup] at count
  omega

/-- It stays so while the member that goes was seen longest ago. -/
theorem Latest.step {history queue : List κ} {t : κ} (positive : 0 < capacity)
    (latest : Latest capacity history queue) (stalest : DropsStalest capacity history queue t) :
    Latest capacity (t :: history) (enqueue capacity queue t) := by
  have bounded := latest.toBounded.enqueue positive t
  by_cases held : t ∈ queue
  · have same : enqueue capacity queue t = queue := if_pos held
    rw [same] at bounded ⊢
    refine ⟨bounded, fun s inside => List.mem_cons_of_mem t (latest.seen s inside), ?_, ?_⟩
    · intro s inside u after
      by_cases first : t = s
      · rw [first, since_self] at after
        cases after
      · rw [since_cons first, List.mem_cons] at after
        obtain rfl | after := after
        · exact held
        · exact latest.closed s inside u after
    · intro room s known
      obtain rfl | known := List.mem_cons.mp known
      · exact held
      · exact latest.roomy room s known
  · by_cases room : queue.length < capacity
    · have grown : enqueue capacity queue t = queue ++ [t] := by
        rw [enqueue, if_neg held, if_pos room]
      rw [grown] at bounded ⊢
      -- with room, everything seen is held
      have all : ∀ s ∈ t :: history, s ∈ queue ++ [t] := by
        intro s known
        rw [List.mem_append, List.mem_singleton]
        obtain same | known := List.mem_cons.mp known
        · exact .inr same
        · exact .inl (latest.roomy room s known)
      refine ⟨bounded, ?_, fun s _ u after => all u (mem_of_mem_since after), fun _ => all⟩
      intro s inside
      rw [List.mem_append, List.mem_singleton] at inside
      obtain inside | rfl := inside
      · exact List.mem_cons_of_mem t (latest.seen s inside)
      · exact List.mem_cons_self
    · obtain ⟨old, rest, isQueue⟩ := List.exists_cons_of_length_pos
        (Nat.lt_of_lt_of_le positive (Nat.le_of_not_lt room))
      have moved : enqueue capacity queue t = rest ++ [t] := by
        rw [enqueue, if_neg held, if_neg room, isQueue, List.tail_cons]
      have later := stalest held (Nat.le_of_not_lt room) old rest isQueue
      rw [moved] at bounded ⊢
      refine ⟨bounded, ?_, ?_, ?_⟩
      · intro s inside
        rw [List.mem_append, List.mem_singleton] at inside
        obtain inside | rfl := inside
        · exact List.mem_cons_of_mem t (latest.seen s (by simp [isQueue, inside]))
        · exact List.mem_cons_self
      · intro s inside u after
        rw [List.mem_append, List.mem_singleton] at inside ⊢
        by_cases first : t = s
        · rw [first, since_self] at after
          cases after
        · rw [since_cons first, List.mem_cons] at after
          have inRest := inside.resolve_right (Ne.symm first)
          refine after.elim .inr (fun after => .inl ?_)
          have kept := latest.closed s (by simp [isQueue, inRest]) u after
          rw [isQueue, List.mem_cons] at kept
          -- the member that went was seen before, not after
          exact kept.resolve_left
            (fun same => not_mem_since_of_mem (later s inRest) (same ▸ after))
      · intro short
        have fits := latest.fits
        rw [isQueue] at room
        simp only [List.length_append, List.length_cons, List.length_nil] at short room
        omega

/-- The first time it was not, a member is lost that was seen too recently. -/
theorem Latest.not_recent {history queue : List κ} {t : κ}
    (latest : Latest capacity history queue)
    (notStalest : ¬ DropsStalest capacity history queue t) :
    ¬ Recent capacity (t :: history) (enqueue capacity queue t) := by
  unfold DropsStalest at notStalest
  push Not at notStalest
  obtain ⟨held, full, old, rest, isQueue, u, inRest, unseen⟩ := notStalest
  have moved : enqueue capacity queue t = rest ++ [t] := by
    rw [enqueue, if_neg held, if_neg (Nat.not_lt.mpr full), isQueue, List.tail_cons]
  have nodup := latest.nodup
  rw [isQueue, List.nodup_cons] at nodup
  have isOld : t ≠ old := fun same => held (by simp [isQueue, same])
  intro recent
  have kept := recent old (List.mem_cons_of_mem t (latest.seen old (by simp [isQueue]))) ?_
  · rw [moved, List.mem_append, List.mem_singleton] at kept
    exact kept.elim nodup.1 (Ne.symm isOld)
  · -- of the members behind it one was not seen since, so `t` makes no more of them than there were
    have among : (since (t :: history) old).toFinset ⊆ insert t (rest.toFinset.erase u) := by
      intro s after
      rw [since_cons isOld, List.mem_toFinset, List.mem_cons] at after
      rw [Finset.mem_insert, Finset.mem_erase, List.mem_toFinset]
      refine after.imp_right (fun after => ?_)
      have inside := latest.closed old (by simp [isQueue]) s after
      rw [isQueue, List.mem_cons] at inside
      refine ⟨fun same => unseen (same ▸ after), inside.resolve_left (fun same => ?_)⟩
      exact not_mem_since_self history old (same ▸ after)
    have count := (Finset.card_le_card among).trans (Finset.card_insert_le _ _)
    have members : (rest.toFinset.erase u).card = rest.length - 1 := by
      rw [Finset.card_erase_of_mem (List.mem_toFinset.mpr inRest),
        List.toFinset_card_of_nodup nodup.2]
    have positive := List.length_pos_of_mem inRest
    have fits := latest.fits
    rw [isQueue, List.length_cons] at fits
    omega

theorem Latest.recent_step_iff {history queue : List κ} {t : κ} (positive : 0 < capacity)
    (latest : Latest capacity history queue) :
    Recent capacity (t :: history) (enqueue capacity queue t) ↔
      DropsStalest capacity history queue t := by
  constructor
  · intro recent
    by_contra notStalest
    exact latest.not_recent notStalest recent
  · intro stalest
    exact (latest.step positive stalest).recent

end Evald.Lib
