import Evald.Ledger

/-! # The ledger over a run of batches

Batches are ingested one after another; the append of any of them may fail, and it may be
sent again.  What was inserted is a queue of which the ledger remembers the end
(`Invariant.recent`), and every key it remembers is the key of a span that was appended
(`Invariant.stored`).
-/

namespace Evald.CallLedger

open Evald.Lib

/-! ## Forgetting -/

/-- The set and the order say the same, each key once. -/
structure Listed (ledger : CallLedger) : Prop where
  same : ∀ k, k ∈ ledger.set ↔ k ∈ ledger.order
  once : ledger.order.Nodup

/-- What is forgotten is the front of the queue, and only as much as does not fit. -/
theorem forgetOldest_spec {set : Std.ExtTreeSet String} {order : List String}
    (listed : Listed { set := set, order := order }) :
    (forgetOldest set order).Listed ∧ (forgetOldest set order).order.length ≤ capacity ∧
      ∃ gone, order = gone ++ (forgetOldest set order).order ∧
        (gone = [] ∨ (forgetOldest set order).order.length = capacity) := by
  induction order generalizing set with
  | nil => exact ⟨listed, Nat.zero_le _, [], rfl, .inl rfl⟩
  | cons old rest inductionHypothesis =>
    unfold forgetOldest
    by_cases full : capacity < (old :: rest).length
    · rw [if_pos full]
      obtain ⟨same, once⟩ := listed
      obtain ⟨unlisted, onceRest⟩ := List.nodup_cons.mp once
      have shorter : Listed { set := set.erase old, order := rest } := by
        refine ⟨fun k => ?_, onceRest⟩
        simp only [Std.ExtTreeSet.mem_erase, ne_eq, Std.LawfulEqOrd.compare_eq_iff_eq] at *
        rw [same, List.mem_cons]
        constructor
        · rintro ⟨different, listed⟩
          exact listed.resolve_left (Ne.symm different)
        · intro listed
          exact ⟨fun here => unlisted (here ▸ listed), .inr listed⟩
      obtain ⟨kept, room, gone, split, inOrder⟩ := inductionHypothesis shorter
      refine ⟨kept, room, old :: gone, by rw [List.cons_append, ← split], .inr ?_⟩
      cases inOrder with
      | inl none =>
        subst none
        rw [List.nil_append] at split
        rw [← split] at room ⊢
        simp only [List.length_cons] at full
        omega
      | inr filled => exact filled
    · rw [if_neg full]
      exact ⟨listed, Nat.le_of_not_lt full, [], rfl, .inl rfl⟩

theorem insertKey_listed {ledger : CallLedger} (listed : ledger.Listed) (key : String) :
    (ledger.insertKey key).Listed := by
  unfold insertKey
  split
  · exact listed
  · next unknown =>
    rw [listed.same] at unknown
    constructor
    · intro k
      simp only [Std.ExtTreeSet.mem_insert, Std.LawfulEqOrd.compare_eq_iff_eq, listed.same,
        List.mem_append, List.mem_singleton]
      rw [or_comm, eq_comm]
    · exact List.nodup_append.mpr ⟨listed.once, List.nodup_singleton _, by
        intro k member other isKey
        rw [List.mem_singleton.mp isKey]
        rintro rfl
        exact unknown member⟩

/-- The keys a call of `remember` inserts, in order. -/
def newKeys (ledger : CallLedger) (keys : List String) : List String :=
  (keys.foldl insertKey ledger).order.drop ledger.order.length

theorem foldl_insertKey_spec {ledger : CallLedger} (listed : ledger.Listed)
    (keys : List String) :
    (keys.foldl insertKey ledger).Listed ∧
      (keys.foldl insertKey ledger).order = ledger.order ++ ledger.newKeys keys := by
  have grows (ledger : CallLedger) (keys : List String) :
      ledger.order <+: (keys.foldl insertKey ledger).order := by
    induction keys generalizing ledger with
    | nil => exact List.prefix_rfl
    | cons key keys inductionHypothesis =>
      have here : ledger.order <+: (ledger.insertKey key).order := by
        unfold insertKey
        split
        · exact List.prefix_rfl
        · exact List.prefix_append _ _
      exact here.trans (inductionHypothesis _)
  constructor
  · clear grows
    induction keys generalizing ledger with
    | nil => exact listed
    | cons key keys inductionHypothesis => exact inductionHypothesis (insertKey_listed listed key)
  · obtain ⟨later, split⟩ := grows ledger keys
    rw [newKeys, ← split, List.drop_left]

/-- Keys that fit the queue at its back are the front's. -/
theorem remember_spec {ledger : CallLedger} (listed : ledger.Listed) (keys : List String) :
    (ledger.remember keys).Listed ∧ (ledger.remember keys).order.length ≤ capacity ∧
      ∃ gone, ledger.order ++ ledger.newKeys keys = gone ++ (ledger.remember keys).order ∧
        (gone = [] ∨ (ledger.remember keys).order.length = capacity) := by
  obtain ⟨inserted, order⟩ := foldl_insertKey_spec listed keys
  rw [← order]
  exact forgetOldest_spec inserted

/-! ## A run -/

/-- The ledger, with the spans of every batch that was appended and every key that was
ever inserted. -/
structure Node where
  ledger : CallLedger := {}
  durable : List (List NormalizedSpan) := []
  inserted : List String := []

/-- One call of `ingest_batch`, and whether its append succeeded. -/
structure Ingest where
  spans : List NormalizedSpan
  preparation : Preparation
  appended : Bool

def Node.ingest (node : Node) (call : Ingest) : Node :=
  if call.appended then
    { ledger := (ingestBatch node.ledger call.preparation call.spans).2
      durable := node.durable ++ [(node.ledger.keptOf call.spans).1]
      inserted := node.inserted ++ node.ledger.newKeys (node.ledger.keptOf call.spans).2 }
  else node

def runBatches (calls : List Ingest) : Node := calls.foldl Node.ingest {}

structure Invariant (node : Node) : Prop where
  listed : node.ledger.Listed
  room : node.ledger.order.length ≤ capacity
  stored : ∀ k ∈ node.ledger.set, ∃ batch ∈ node.durable, ∃ s ∈ batch, mark s = some k
  recent : ∃ gone, node.inserted = gone ++ node.ledger.order ∧
    (gone = [] ∨ node.ledger.order.length = capacity)

theorem Invariant.ingest {node : Node} (invariant : Invariant node) (call : Ingest) :
    Invariant (node.ingest call) := by
  unfold Node.ingest
  split
  -- a batch without a new key leaves the ledger, any other is remembered whole
  · rw [ingestBatch_eq]
    by_cases none : (node.ledger.keptOf call.spans).2.isEmpty = true
    · have noKeys := List.isEmpty_iff.mp none
      have noNew : node.ledger.newKeys [] = [] := List.drop_length
      simp only [noKeys, noNew, List.append_nil]
      refine ⟨invariant.listed, invariant.room, fun k known => ?_, invariant.recent⟩
      obtain ⟨batch, durable, stored⟩ := invariant.stored k known
      exact ⟨batch, List.mem_append_left _ durable, stored⟩
    · simp only [if_neg none]
      obtain ⟨listed, room, gone, split, filled⟩ :=
        remember_spec invariant.listed (node.ledger.keptOf call.spans).2
      refine ⟨listed, room, fun k known => ?_, ?_⟩
      · -- a key of the ledger was in its queue or is one of this batch's
        have queued : k ∈ node.ledger.order ++
            node.ledger.newKeys (node.ledger.keptOf call.spans).2 := by
          rw [split]
          exact List.mem_append_right _ ((listed.same k).mp known)
        rw [← (foldl_insertKey_spec invariant.listed _).2,
          ← (foldl_insertKey_spec invariant.listed _).1.same, mem_foldl_insertKey] at queued
        cases queued with
        | inl before =>
          obtain ⟨batch, durable, stored⟩ := invariant.stored k before
          exact ⟨batch, List.mem_append_left _ durable, stored⟩
        | inr here =>
          refine ⟨_, List.mem_append_right _ (List.mem_singleton_self _), ?_⟩
          unfold keptOf at here ⊢
          split at here
          · next carries =>
            rw [if_pos carries]
            exact (marked_of_mem_keys here).resolve_left List.not_mem_nil
          · cases here
      -- what was evicted is a prefix of all that was ever queued
      · obtain ⟨goneBefore, history, filledBefore⟩ := invariant.recent
        refine ⟨goneBefore ++ gone, ?_, ?_⟩
        · rw [history, List.append_assoc, split, List.append_assoc]
        · cases filled with
          | inr full => exact .inr full
          | inl nothing =>
            subst nothing
            rw [List.nil_append] at split
            rw [List.append_nil, ← split]
            rw [← split] at room
            refine filledBefore.imp_right (fun full => ?_)
            rw [List.length_append] at room ⊢
            omega
  · exact invariant

theorem invariant_runBatches (calls : List Ingest) : Invariant (runBatches calls) := by
  have start : Invariant {} :=
    { listed := ⟨by simp, List.nodup_nil⟩
      room := Nat.zero_le _
      stored := by simp
      recent := ⟨[], rfl, .inl rfl⟩ }
  have general (node : Node) (invariant : Invariant node) :
      Invariant (calls.foldl Node.ingest node) := by
    induction calls generalizing node with
    | nil => exact invariant
    | cons call calls inductionHypothesis => exact inductionHypothesis _ (invariant.ingest call)
  exact general {} start

/-! ## What is dropped -/

/-- A span of a batch is dropped: behind `before` it adds nothing to what is kept. -/
def Drops (ledger : CallLedger) (spans before : List NormalizedSpan) (s : NormalizedSpan) : Prop :=
  mayCarryKeys spans = true ∧ (ledger.filter (before ++ [s])).1 = (ledger.filter before).1

theorem filter_snoc (ledger : CallLedger) (before : List NormalizedSpan) (s : NormalizedSpan) :
    (ledger.filter (before ++ [s])).1 = (ledger.filter before).1 ++
      (filterFrom ledger (ledger.filter before).2 [s]).1 := by
  rw [filter, filterFrom_append]
  rfl

/-- A span is dropped for its key alone. -/
theorem drops_iff {ledger : CallLedger} {spans before : List NormalizedSpan}
    {s : NormalizedSpan} :
    Drops ledger spans before s ↔ mayCarryKeys spans = true ∧ anchorOf s = none ∧
      ∃ k, keyOf s = some k ∧ (k ∈ ledger.set ∨ k ∈ (ledger.filter before).2) := by
  unfold Drops
  rw [filter_snoc, List.append_right_eq_self]
  unfold filterFrom filterFrom
  cases anchorOf s with
  | some anchor => simp
  | none =>
    cases keyOf s with
    | none => simp
    | some key =>
      by_cases known : key ∈ ledger.set ∨ key ∈ (ledger.filter before).2
      · simp [known]
      · simp [known]

/-- A span is dropped only when its call is on disk or kept before it in its batch, an
anchor never; the ledger's set and queue agree and fit; and a key is known until
`capacity` keys have come after it, and a copy that arrives until then is dropped. -/
theorem ledger_keeps_calls (calls : List Ingest) :
    let node := runBatches calls
    (∀ spans before s after, spans = before ++ s :: after → Drops node.ledger spans before s →
      anchorOf s = none ∧ ∃ k, keyOf s = some k ∧
        ((∃ batch ∈ node.durable, ∃ x ∈ batch, mark x = some k) ∨
          ∃ x ∈ (node.ledger.filter before).1, mark x = some k)) ∧
      (∀ k, k ∈ node.ledger.set ↔ k ∈ node.ledger.order) ∧
      node.ledger.order.Nodup ∧ node.ledger.order.length ≤ capacity ∧
      ∀ earlier k later, node.inserted = earlier ++ k :: later → later.length < capacity →
        k ∈ node.ledger.set ∧
          ∀ spans before s, mayCarryKeys spans = true → anchorOf s = none → keyOf s = some k →
            Drops node.ledger spans before s := by
  have invariant := invariant_runBatches calls
  refine ⟨fun spans before s after _ dropped => ?_, invariant.listed.same, invariant.listed.once,
    invariant.room, fun earlier k later history recent => ?_⟩
  · obtain ⟨-, unanchored, k, hasKey, known⟩ := drops_iff.mp dropped
    refine ⟨unanchored, k, hasKey, ?_⟩
    cases known with
    | inl remembered => exact .inl (invariant.stored k remembered)
    | inr met => exact .inr ((marked_of_mem_keys met).resolve_left List.not_mem_nil)
  · have known : k ∈ (runBatches calls).ledger.set := by
      rw [invariant.listed.same]
      obtain ⟨gone, split, filled⟩ := invariant.recent
      rw [history] at split
      cases filled with
      | inl nothing =>
        rw [nothing, List.nil_append] at split
        rw [← split]
        simp
      | inr full =>
        -- the queue is longer than what came after the key
        rcases List.append_eq_append_iff.mp split with ⟨middle, rfl, tail⟩ | ⟨middle, -, tail⟩
        · cases middle with
          | nil =>
            rw [List.nil_append] at tail
            rw [← tail]
            exact List.mem_cons_self
          | cons first middle =>
            rw [List.cons_append, List.cons.injEq] at tail
            have short := congrArg List.length tail.2
            rw [List.length_append] at short
            omega
        · rw [tail]
          simp
    exact ⟨known, fun spans before s carries unanchored hasKey =>
      drops_iff.mpr ⟨carries, unanchored, k, hasKey, .inl known⟩⟩

end Evald.CallLedger
