import Evald.Ledger
import Evald.Sessions
import Evald.Lib.FirstCopies
import Evald.Logs.Retry

/-! # An exporter that retries

One node takes the requests of an exporter in order, some of them twice because the
reply was lost.  In every run whose retries find the calls of their request settled,
what can be read of the store is counted as when every request is delivered once
(`run_counts_eq`); `retry_counts_twice` is a run whose retry does not.
-/

namespace Evald.Logs

open Evald.Lib Evald.Otlp Evald.Normalize

/-! ## The ledger reads the marks -/

theorem filterFrom_facts {ledger : CallLedger} (keys : List String)
    {spans spans' : List NormalizedSpan} (same : spans.map factsOf = spans'.map factsOf) :
    (CallLedger.filterFrom ledger keys spans).1.map factsOf =
        (CallLedger.filterFrom ledger keys spans').1.map factsOf ∧
      (CallLedger.filterFrom ledger keys spans).2 =
        (CallLedger.filterFrom ledger keys spans').2 := by
  -- on both batches at once: a span is kept by its mark, and the marks agree
  induction spans generalizing spans' keys with
  | nil =>
    cases spans' with
    | nil => exact ⟨rfl, rfl⟩
    | cons s' rest' => cases same
  | cons s rest inductionHypothesis =>
    cases spans' with
    | nil => cases same
    | cons s' rest' =>
      rw [List.map_cons, List.map_cons, List.cons.injEq] at same
      obtain ⟨here, later⟩ := same
      have marks := congrArg Prod.snd here
      have anchor : CallLedger.anchorOf s = CallLedger.anchorOf s' := congrArg CallMark.anchor marks
      have key : CallLedger.keyOf s = CallLedger.keyOf s' := congrArg CallMark.key marks
      unfold CallLedger.filterFrom
      rw [anchor, key]
      cases CallLedger.anchorOf s' with
      | some anchor =>
        obtain ⟨kept, keys⟩ := inductionHypothesis (CallLedger.register keys anchor) later
        exact ⟨by simp only [List.map_cons, here, kept], keys⟩
      | none =>
        cases CallLedger.keyOf s' with
        | none =>
          obtain ⟨kept, keys⟩ := inductionHypothesis keys later
          exact ⟨by simp only [List.map_cons, here, kept], keys⟩
        | some key =>
          simp only
          split
          · exact inductionHypothesis keys later
          · obtain ⟨kept, keys⟩ := inductionHypothesis (keys ++ [key]) later
            exact ⟨by simp only [List.map_cons, here, kept], keys⟩

theorem mayCarryKeys_facts {spans spans' : List NormalizedSpan}
    (same : spans.map factsOf = spans'.map factsOf) :
    CallLedger.mayCarryKeys spans = CallLedger.mayCarryKeys spans' := by
  have named (xs : List NormalizedSpan) :
      CallLedger.mayCarryKeys xs = (xs.map factsOf).any (fun facts => facts.2.named) := by
    rw [List.any_map]
    rfl
  rw [named, named, same]

theorem mark_facts {s s' : NormalizedSpan} (same : factsOf s = factsOf s') :
    CallLedger.mark s = CallLedger.mark s' := by
  have marks := congrArg Prod.snd same
  have anchor : CallLedger.anchorOf s = CallLedger.anchorOf s' := congrArg CallMark.anchor marks
  have key : CallLedger.keyOf s = CallLedger.keyOf s' := congrArg CallMark.key marks
  rw [CallLedger.mark, CallLedger.mark, anchor, key]

/-- Redacting and offloading leave a span counted as it was. -/
theorem readingOf_prepare (p : Preparation) (s : NormalizedSpan) :
    readingOf (p.prepare s) = readingOf s := by
  have input (s : NormalizedSpan) : readingOf (p.offloadInput s) = readingOf s := by
    unfold Preparation.offloadInput
    split
    · rfl
    · split <;> rfl
  have output (s : NormalizedSpan) : readingOf (p.offloadOutput s) = readingOf s := by
    unfold Preparation.offloadOutput
    split
    · rfl
    · split <;> rfl
  unfold Preparation.prepare Preparation.offload
  split
  · rfl
  · exact (output _).trans (input _)

/-! ## One batch -/

theorem keptOf_facts (ledger : CallLedger) {spans spans' : List NormalizedSpan}
    (same : spans.map factsOf = spans'.map factsOf) :
    (ledger.keptOf spans).1.map factsOf = (ledger.keptOf spans').1.map factsOf ∧
      (ledger.keptOf spans).2 = (ledger.keptOf spans').2 := by
  unfold CallLedger.keptOf
  rw [mayCarryKeys_facts same]
  split
  · exact filterFrom_facts [] same
  · exact ⟨same, rfl⟩

theorem readings_prepare (p : Preparation) (spans : List NormalizedSpan) :
    (spans.map p.prepare).map readingOf = spans.map readingOf := by
  rw [List.map_map]
  apply List.map_congr_left
  intro s _
  exact readingOf_prepare p s

theorem readings_of_facts {spans spans' : List NormalizedSpan}
    (same : spans.map factsOf = spans'.map factsOf) :
    spans.map readingOf = spans'.map readingOf := by
  have first (xs : List NormalizedSpan) : xs.map readingOf = (xs.map factsOf).map Prod.fst := by
    rw [List.map_map]
    rfl
  rw [first, first, same]

/-- Batches with the same facts. -/
theorem ingestBatch_alike (ledger : CallLedger) (p p' : Preparation)
    {spans spans' : List NormalizedSpan} (same : spans.map factsOf = spans'.map factsOf) :
    (ingestBatch ledger p spans).1.map readingOf =
        (ingestBatch ledger p' spans').1.map readingOf ∧
      (ingestBatch ledger p spans).2 = (ingestBatch ledger p' spans').2 := by
  obtain ⟨kept, keys⟩ := keptOf_facts ledger same
  rw [CallLedger.ingestBatch_eq, CallLedger.ingestBatch_eq, readings_prepare, readings_prepare,
    readings_of_facts kept, keys]
  exact ⟨rfl, rfl⟩

theorem fits_of_ingestBatch {ledger : CallLedger} {p : Preparation}
    {spans : List NormalizedSpan} (fits : (ingestBatch ledger p spans).2.Fits) : ledger.Fits := by
  rw [CallLedger.ingestBatch_eq] at fits
  simp only at fits
  split at fits
  · exact fits
  · exact CallLedger.fits_of_remember fits

/-- What is known after a batch. -/
theorem mem_ingestBatch {ledger : CallLedger} {p : Preparation} {spans : List NormalizedSpan}
    (fits : (ingestBatch ledger p spans).2.Fits) (k : String) :
    k ∈ (ingestBatch ledger p spans).2.set ↔ k ∈ ledger.set ∨ k ∈ (ledger.keptOf spans).2 := by
  rw [CallLedger.ingestBatch_eq] at fits ⊢
  simp only at fits ⊢
  split
  · next none =>
    rw [List.isEmpty_iff] at none
    simp [none]
  · next some =>
    rw [if_neg some] at fits
    exact CallLedger.mem_remember fits

/-- A batch that comes again adds no key and nothing that is counted otherwise. -/
theorem ingestBatch_again {ledger : CallLedger} (p p' : Preparation)
    {spans spans' : List NormalizedSpan} (same : spans.map factsOf = spans'.map factsOf)
    (fits : (ingestBatch ledger p spans).2.Fits) :
    (ingestBatch (ingestBatch ledger p spans).2 p' spans').2 = (ingestBatch ledger p spans).2 ∧
      ∀ r ∈ (ingestBatch (ingestBatch ledger p spans).2 p' spans').1.map readingOf,
        r ∈ (ingestBatch ledger p spans).1.map readingOf := by
  have known := mem_ingestBatch fits
  generalize after : (ingestBatch ledger p spans).2 = ledger' at fits known ⊢
  -- whatever marks a span of the second batch marks one of the first
  have counterpart {s' : NormalizedSpan} (member : s' ∈ spans') :
      ∃ s ∈ spans, factsOf s = factsOf s' := by
    have listed : factsOf s' ∈ spans.map factsOf := same ▸ List.mem_map_of_mem member
    exact List.mem_map.mp listed
  by_cases carries : CallLedger.mayCarryKeys spans = true
  · have carries' : CallLedger.mayCarryKeys spans' = true := by
      rw [← mayCarryKeys_facts same]
      exact carries
    have marked {s' : NormalizedSpan} (member : s' ∈ spans') {k : String}
        (isMark : CallLedger.mark s' = some k) : k ∈ ledger'.set := by
      obtain ⟨s, first, alike⟩ := counterpart member
      rw [known, CallLedger.keptOf, if_pos carries]
      rw [← mark_facts alike] at isMark
      exact CallLedger.known_of_mem first isMark
    constructor
    · rw [CallLedger.ingestBatch_eq]
      simp only
      split
      · rfl
      · apply CallLedger.remember_known fits
        intro k member
        rw [CallLedger.keptOf, if_pos carries'] at member
        rcases CallLedger.marked_of_mem_keys member with none | ⟨s', kept, isMark⟩
        · cases none
        · exact marked ((CallLedger.filterFrom_sublist _ _ _).subset kept) isMark
    · intro r member
      rw [CallLedger.ingestBatch_eq, readings_prepare, CallLedger.keptOf, if_pos carries'] at member
      rw [CallLedger.ingestBatch_eq, readings_prepare, CallLedger.keptOf, if_pos carries]
      obtain ⟨s', kept, rfl⟩ := List.mem_map.mp member
      have inBatch := (CallLedger.filterFrom_sublist _ _ _).subset kept
      have free : CallLedger.Free s' := by
        rcases CallLedger.free_or_new_of_mem_filterFrom kept with free | ⟨key, hasKey, fresh, -⟩
        · exact free
        · by_cases anchored : CallLedger.anchorOf s' = none
          · have isMark : CallLedger.mark s' = some key := by
              rw [CallLedger.mark, anchored, Option.none_or, hasKey]
            exact absurd (marked inBatch isMark) fresh
          · exact .inl anchored
      obtain ⟨s, first, alike⟩ := counterpart inBatch
      have marks := congrArg Prod.snd alike
      have freeFirst : CallLedger.Free s := by
        have anchor : CallLedger.anchorOf s = CallLedger.anchorOf s' :=
          congrArg CallMark.anchor marks
        have key : CallLedger.keyOf s = CallLedger.keyOf s' := congrArg CallMark.key marks
        rwa [CallLedger.Free, anchor, key]
      have reading : readingOf s = readingOf s' := congrArg Prod.fst alike
      rw [← reading]
      exact List.mem_map_of_mem (CallLedger.mem_filterFrom_of_free first freeFirst)
  · have carries' : ¬ CallLedger.mayCarryKeys spans' = true := by
      rw [← mayCarryKeys_facts same]
      exact carries
    rw [CallLedger.ingestBatch_eq, CallLedger.ingestBatch_eq, readings_prepare, readings_prepare,
      CallLedger.keptOf, CallLedger.keptOf, if_neg carries, if_neg carries', readings_of_facts same]
    exact ⟨rfl, fun r member => member⟩

/-! ## A run of deliveries -/

/-- What a node keeps between log requests, and the spans it has stored. -/
structure LogsNode where
  memory : Remembered := {}
  ledger : CallLedger := {}
  stored : List NormalizedSpan := []

/-- Nothing is forgotten to make room. -/
structure LogsNode.Fits (node : LogsNode) : Prop where
  memory : node.memory.Fits
  ledger : node.ledger.Fits

instance (node : LogsNode) : Decidable node.Fits :=
  decidable_of_iff
    (node.memory.codex.order.length < recallCapacity ∧
      node.memory.gemini.order.length < recallCapacity ∧
      node.ledger.order.length < CallLedger.capacity)
    ⟨fun ⟨codex, gemini, ledger⟩ => ⟨⟨codex, gemini⟩, ledger⟩,
      fun ⟨⟨codex, gemini⟩, ledger⟩ => ⟨codex, gemini, ledger⟩⟩

/-- One request, sent again when its reply was lost. -/
structure Delivery where
  request : ExportLogsServiceRequest
  first : Preparation
  again : Option Preparation := none

variable (deps : Deps) (prices : Pricing.PriceTable) (policy : LogsPolicy)

/-- Map a request and store its spans. -/
def exportLogs (node : LogsNode) (p : Preparation) (req : ExportLogsServiceRequest) : LogsNode :=
  let (batch, memory) := normalizeLogs deps prices policy node.memory req
  let (appended, ledger) := ingestBatch node.ledger p batch.spans
  { memory := memory, ledger := ledger, stored := node.stored ++ appended }

def deliver (node : LogsNode) (d : Delivery) : LogsNode :=
  let node := exportLogs deps prices policy node d.first d.request
  match d.again with
  | none => node
  | some p => exportLogs deps prices policy node p d.request

def deliverOnce (node : LogsNode) (d : Delivery) : LogsNode :=
  exportLogs deps prices policy node d.first d.request

def run (node : LogsNode) (deliveries : List Delivery) : LogsNode :=
  deliveries.foldl (deliver deps prices policy) node

def runOnce (node : LogsNode) (deliveries : List Delivery) : LogsNode :=
  deliveries.foldl (deliverOnce deps prices policy) node

/-! ## Two nodes that count the same -/

/-- Nodes whose next requests are placed alike, and what they stored is counted alike. -/
structure LogsNode.Alike (node node' : LogsNode) : Prop where
  codex : node.memory.codexTurns = node'.memory.codexTurns
  gemini : node.memory.geminiTurns = node'.memory.geminiTurns
  ledger : node.ledger = node'.ledger
  stored : ∀ r, r ∈ node.stored.map readingOf ↔ r ∈ node'.stored.map readingOf

variable {deps prices policy}

theorem fits_of_exportLogs {node : LogsNode} {p : Preparation} {req : ExportLogsServiceRequest}
    (fits : (exportLogs deps prices policy node p req).Fits) : node.Fits :=
  { memory := fits_of_foldl_mapNext deps prices policy fits.memory
    ledger := fits_of_ingestBatch (p := p) fits.ledger }

theorem fits_of_deliver {node : LogsNode} {d : Delivery}
    (fits : (deliver deps prices policy node d).Fits) :
    (exportLogs deps prices policy node d.first d.request).Fits := by
  unfold deliver at fits
  cases again : d.again with
  | none => simpa only [again] using fits
  | some p =>
    simp only [again] at fits
    exact fits_of_exportLogs fits

theorem fits_of_run {node : LogsNode} {deliveries : List Delivery}
    (fits : (run deps prices policy node deliveries).Fits) : node.Fits := by
  induction deliveries generalizing node with
  | nil => exact fits
  | cons d rest inductionHypothesis =>
    exact fits_of_exportLogs (fits_of_deliver (inductionHypothesis fits))

theorem fits_of_runOnce {node : LogsNode} {deliveries : List Delivery}
    (fits : (runOnce deps prices policy node deliveries).Fits) : node.Fits := by
  induction deliveries generalizing node with
  | nil => exact fits
  | cons d rest inductionHypothesis =>
    exact fits_of_exportLogs (inductionHypothesis fits)

theorem placedAlike_of_eq {turns turns' : Turns} (same : turns = turns') (roles : List Role) :
    PlacedAlike turns turns' roles := by
  intro before session own after _
  rw [same]

/-- One request on nodes that count the same. -/
theorem exportLogs_alike {node node' : LogsNode} {p p' : Preparation}
    {req : ExportLogsServiceRequest} (alike : node.Alike node')
    (fits : (exportLogs deps prices policy node p req).Fits)
    (fits' : (exportLogs deps prices policy node' p' req).Fits) :
    (exportLogs deps prices policy node p req).Alike
      (exportLogs deps prices policy node' p' req) := by
  have facts := normalizeLogs_alike deps prices policy fits.memory fits'.memory
    (placedAlike_of_eq alike.codex _) (placedAlike_of_eq alike.gemini _)
  have turns := normalizeLogs_turns deps prices policy fits.memory
  have turns' := normalizeLogs_turns deps prices policy fits'.memory
  have batch := ingestBatch_alike node.ledger p p' facts
  constructor
  · show (normalizeLogs deps prices policy node.memory req).2.codexTurns =
      (normalizeLogs deps prices policy node'.memory req).2.codexTurns
    rw [turns.1, turns'.1, alike.codex]
  · show (normalizeLogs deps prices policy node.memory req).2.geminiTurns =
      (normalizeLogs deps prices policy node'.memory req).2.geminiTurns
    rw [turns.2, turns'.2, alike.gemini]
  · rw [exportLogs, exportLogs, ← alike.ledger]
    exact batch.2
  · intro r
    simp only [exportLogs, List.map_append, List.mem_append, ← alike.ledger, alike.stored, batch.1]

/-- A retry of a request whose early calls are settled. -/
theorem exportLogs_again {node : LogsNode} {p p' : Preparation} {req : ExportLogsServiceRequest}
    (settled : RetrySettled deps policy node.memory req)
    (fits : (exportLogs deps prices policy node p req).Fits)
    (fits' : (exportLogs deps prices policy
      (exportLogs deps prices policy node p req) p' req).Fits) :
    (exportLogs deps prices policy (exportLogs deps prices policy node p req) p' req).Alike
      (exportLogs deps prices policy node p req) := by
  have facts := normalizeLogs_again deps prices policy settled fits.memory fits'.memory
  have turns := normalizeLogs_turns deps prices policy fits.memory
  have later : (normalizeLogs deps prices policy
      (normalizeLogs deps prices policy node.memory req).2 req).2.Fits := fits'.memory
  have again := normalizeLogs_turns deps prices policy later
  have batch := ingestBatch_again p p' facts fits.ledger
  constructor
  · show (normalizeLogs deps prices policy
        (normalizeLogs deps prices policy node.memory req).2 req).2.codexTurns =
      (normalizeLogs deps prices policy node.memory req).2.codexTurns
    rw [again.1, turns.1, named_foldl_again]
  · show (normalizeLogs deps prices policy
        (normalizeLogs deps prices policy node.memory req).2 req).2.geminiTurns =
      (normalizeLogs deps prices policy node.memory req).2.geminiTurns
    rw [again.2, turns.2, named_foldl_again]
  · exact batch.1
  · intro r
    simp only [exportLogs, List.map_append, List.mem_append]
    constructor
    · intro listed
      cases listed with
      | inl before => exact before
      | inr repeated => exact .inr (batch.2 r repeated)
    · exact .inl

theorem LogsNode.Alike.trans {a b c : LogsNode} (first : a.Alike b) (second : b.Alike c) :
    a.Alike c where
  codex := first.codex.trans second.codex
  gemini := first.gemini.trans second.gemini
  ledger := first.ledger.trans second.ledger
  stored := fun r => (first.stored r).trans (second.stored r)

theorem LogsNode.Alike.refl (node : LogsNode) : node.Alike node where
  codex := rfl
  gemini := rfl
  ledger := rfl
  stored := fun _ => .rfl

variable (deps policy) in
/-- Every retry of a run finds the early calls of its request settled, when the request
first arrives. -/
def RunSettled (prices : Pricing.PriceTable) (start : LogsNode) (deliveries : List Delivery) :
    Prop :=
  ∀ before d after, deliveries = before ++ d :: after → d.again.isSome = true →
    RetrySettled deps policy (run deps prices policy start before).memory d.request

theorem run_alike {node node' : LogsNode} {deliveries : List Delivery}
    (alike : node.Alike node') (fits : (run deps prices policy node deliveries).Fits)
    (fits' : (runOnce deps prices policy node' deliveries).Fits)
    (settled : RunSettled deps policy prices node deliveries) :
    (run deps prices policy node deliveries).Alike
      (runOnce deps prices policy node' deliveries) := by
  induction deliveries generalizing node node' with
  | nil => exact alike
  | cons d rest inductionHypothesis =>
    have delivered : (deliver deps prices policy node d).Fits := fits_of_run fits
    have once : (exportLogs deps prices policy node' d.first d.request).Fits :=
      fits_of_runOnce fits'
    have first := fits_of_deliver delivered
    have here : (deliver deps prices policy node d).Alike
        (deliverOnce deps prices policy node' d) := by
      have sent := exportLogs_alike alike first once
      unfold deliver at delivered ⊢
      cases again : d.again with
      | none => exact sent
      | some p =>
        simp only [again] at delivered
        have early := settled [] d rest rfl (by simp [again])
        exact (exportLogs_again early first delivered).trans sent
    refine inductionHypothesis here fits fits' ?_
    intro before e after split
    exact settled (d :: before) e after (by rw [split, List.cons_append])

/-! ## What can be read -/

def idsOf (s : NormalizedSpan) : String × String := (s.traceId, s.spanId)

/-- Rows that list every stored key once, whichever copy of it. -/
structure ReadsOnce (store rows : List NormalizedSpan) : Prop where
  stored : ∀ s ∈ rows, s ∈ store
  once : (rows.map idsOf).Nodup
  all : ∀ s ∈ store, idsOf s ∈ rows.map idsOf

/-- The numbers of LLM and tool spans, and the token totals of each session. -/
structure Counts where
  llmSpans : Nat
  toolSpans : Nat
  tokens : String → Tokens

def spansOfKind (kind : String) (rows : List NormalizedSpan) : Nat :=
  (rows.filter (fun s => s.oiKind = some kind)).length

def sessionTokens (rows : List NormalizedSpan) (session : String) : Tokens :=
  (rows.filter (fun s => s.sessionId = some session)).foldl
    (fun total s => Sessions.addTokens total s.tokens) {}

def countsOf (rows : List NormalizedSpan) : Counts :=
  { llmSpans := spansOfKind "LLM" rows
    toolSpans := spansOfKind "TOOL" rows
    tokens := sessionTokens rows }

/-- What a reader that sees every key once can count. -/
def Countable (stored : List NormalizedSpan) (counts : Counts) : Prop :=
  ∃ rows, ReadsOnce stored rows ∧ countsOf rows = counts

theorem countsOf_readings {rows rows' : List NormalizedSpan}
    (same : rows.map readingOf = rows'.map readingOf) : countsOf rows = countsOf rows' := by
  have kinds (kind : String) : spansOfKind kind rows = spansOfKind kind rows' := by
    have byReading (xs : List NormalizedSpan) : spansOfKind kind xs =
        ((xs.map readingOf).filter (fun r => r.oiKind = some kind)).length := by
      rw [List.filter_map, List.length_map]
      rfl
    rw [byReading, byReading, same]
  have tokens : sessionTokens rows = sessionTokens rows' := by
    funext session
    have byReading (xs : List NormalizedSpan) : sessionTokens xs session =
        ((xs.map readingOf).filter (fun r => r.sessionId = some session)).foldl
          (fun total r => Sessions.addTokens total r.tokens) {} := by
      rw [List.filter_map, List.foldl_map]
      rfl
    rw [byReading, byReading, same]
  rw [countsOf, countsOf, kinds, kinds, tokens]

theorem ids_of_readings (rows : List NormalizedSpan) :
    rows.map idsOf = (rows.map readingOf).map (fun r => (r.traceId, r.spanId)) := by
  rw [List.map_map]
  rfl

theorem countable_of_readings {stored stored' : List NormalizedSpan}
    (same : ∀ r, r ∈ stored.map readingOf ↔ r ∈ stored'.map readingOf) {counts : Counts}
    (countable : Countable stored counts) : Countable stored' counts := by
  obtain ⟨rows, reads, rfl⟩ := countable
  -- a row of the other store for each row, read alike
  have other : ∃ rows' : List NormalizedSpan,
      (∀ s ∈ rows', s ∈ stored') ∧ rows'.map readingOf = rows.map readingOf := by
    have listed := reads.stored
    clear reads
    induction rows with
    | nil => exact ⟨[], by simp, rfl⟩
    | cons s rows inductionHypothesis =>
      obtain ⟨rows', inStore, alike⟩ :=
        inductionHypothesis (fun x member => listed x (List.mem_cons_of_mem _ member))
      have found := (same (readingOf s)).mp
        (List.mem_map_of_mem (listed s List.mem_cons_self))
      obtain ⟨s', member, here⟩ := List.mem_map.mp found
      refine ⟨s' :: rows', ?_, by rw [List.map_cons, List.map_cons, here, alike]⟩
      intro x inRows
      cases inRows with
      | head => exact member
      | tail _ later => exact inStore x later
  obtain ⟨rows', inStore, alike⟩ := other
  refine ⟨rows', ⟨inStore, ?_, ?_⟩, countsOf_readings alike⟩
  · rw [ids_of_readings, alike, ← ids_of_readings]
    exact reads.once
  · intro s' member
    obtain ⟨s, first, here⟩ :=
      List.mem_map.mp ((same (readingOf s')).mpr (List.mem_map_of_mem member))
    have ids : idsOf s = idsOf s' := by
      have pairs := congrArg (fun r => (r.traceId, r.spanId)) here
      exact pairs
    rw [ids_of_readings, alike, ← ids_of_readings, ← ids]
    exact reads.all s first

/-- Every key is stored that is stored when each request is delivered once, and no other,
and what can be counted is the same. -/
theorem run_counts_eq {start : LogsNode} {deliveries : List Delivery}
    (fits : (run deps prices policy start deliveries).Fits)
    (fitsOnce : (runOnce deps prices policy start deliveries).Fits)
    (settled : RunSettled deps policy prices start deliveries) :
    (∀ k, k ∈ (run deps prices policy start deliveries).stored.map idsOf ↔
        k ∈ (runOnce deps prices policy start deliveries).stored.map idsOf) ∧
      ∀ counts, Countable (run deps prices policy start deliveries).stored counts ↔
        Countable (runOnce deps prices policy start deliveries).stored counts := by
  have same := (run_alike (.refl start) fits fitsOnce settled).stored
  constructor
  · intro k
    rw [ids_of_readings, ids_of_readings, List.mem_map, List.mem_map]
    simp only [same]
  · intro counts
    exact ⟨countable_of_readings same, countable_of_readings (fun r => (same r).symm)⟩

/-! ## A retry whose turn has moved -/

/-- Nothing is redacted and nothing offloaded. -/
def plainly : Preparation := { scrub := id, cap := 0, put := fun _ => none }

/-- A prompt, then the end of its turn together with the next prompt. -/
def twoTurns (again : Option Preparation) : List Delivery :=
  [{ request := codexRequest [codexPrompt 1000], first := plainly },
    { request := codexRequest [codexUsage 2000, codexPrompt 3000], first := plainly, again := again }]

/-- A prompt and the call it starts, in one request. -/
def oneTurn : List Delivery :=
  [{ request := codexRequest [codexPrompt 1000, codexUsage 2000], first := plainly,
     again := some plainly }]

theorem run_counts_eq_oneTurn :
    (∀ k, k ∈ (run .hashing noPrices .genai {} oneTurn).stored.map idsOf ↔
        k ∈ (runOnce .hashing noPrices .genai {} oneTurn).stored.map idsOf) ∧
      ∀ counts, Countable (run .hashing noPrices .genai {} oneTurn).stored counts ↔
        Countable (runOnce .hashing noPrices .genai {} oneTurn).stored counts := by
  apply run_counts_eq
  · decide
  · decide
  · intro before d after split _
    unfold oneTurn at split
    have alone : before = [] ∧ d.request = codexRequest [codexPrompt 1000, codexUsage 2000] := by
      cases before with
      | nil =>
        rw [List.nil_append, List.cons.injEq] at split
        exact ⟨rfl, by rw [← split.1]⟩
      | cons e before => simp at split
    obtain ⟨rfl, request⟩ := alone
    rw [request]
    -- the prompt stands before the call, so the call never looks for another one
    have codex : codexRoles .hashing .genai (codexRequest [codexPrompt 1000, codexUsage 2000]) =
        [.prompt "c1" (Codex.promptTurn .hashing (codexPrompt 1000) "c1").1,
          .call "c1" (Codex.ownTrace .hashing "c1")] := by decide +kernel
    have gemini : geminiRoles .hashing .genai
        (codexRequest [codexPrompt 1000, codexUsage 2000]) = [.other, .other] := by decide
    constructor
    · intro before session own after split _ unprompted
      rw [codex] at split
      cases before with
      | nil => simp at split
      | cons first before =>
        rw [List.cons_append, List.cons.injEq] at split
        obtain ⟨rfl, split⟩ := split
        cases before with
        | nil =>
          rw [List.nil_append, List.cons.injEq, Role.call.injEq] at split
          obtain ⟨⟨rfl, -⟩, -⟩ := split
          simp [lastPrompt, Role.startedIn] at unprompted
        | cons second before => simp at split
    · intro before session own after split
      rw [gemini] at split
      have member : Role.call session own ∈ [Role.other, Role.other] := by
        rw [split]
        simp
      simp at member

/-- The call whose request was retried is stored in both turns: one key and one LLM span
more than when its request is delivered once. -/
theorem retry_counts_twice :
    ¬ (∀ k, k ∈ (run .hashing noPrices .genai {} (twoTurns (some plainly))).stored.map idsOf ↔
        k ∈ (runOnce .hashing noPrices .genai {} (twoTurns (some plainly))).stored.map idsOf) ∧
      spansOfKind "LLM" (firstCopies idsOf []
        (run .hashing noPrices .genai {} (twoTurns (some plainly))).stored) = 2 ∧
      spansOfKind "LLM" (firstCopies idsOf []
        (runOnce .hashing noPrices .genai {} (twoTurns (some plainly))).stored) = 1 := by
  have evaluated : (¬ ∀ k ∈ (run .hashing noPrices .genai {} (twoTurns (some plainly))).stored.map
        idsOf,
        k ∈ (runOnce .hashing noPrices .genai {} (twoTurns (some plainly))).stored.map idsOf) ∧
      spansOfKind "LLM" (firstCopies idsOf []
        (run .hashing noPrices .genai {} (twoTurns (some plainly))).stored) = 2 ∧
      spansOfKind "LLM" (firstCopies idsOf []
        (runOnce .hashing noPrices .genai {} (twoTurns (some plainly))).stored) = 1 := by
    decide +kernel
  obtain ⟨another, twice, once⟩ := evaluated
  exact ⟨fun same => another (fun k stored => (same k).mp stored), twice, once⟩

end Evald.Logs
