import Evald.Deps
import Evald.Store.Scores
import Evald.Store.SqlView

/-! # Posting scores

A posted score names its target by up to four ids.  Before a batch is stored, each target is
looked for in the store, and in strict mode a batch with a dangling one is refused whole.
The target takes an empty id for an absent one, the trace a span is looked for in does not:
a span score that is sent with an empty trace id is called dangling (`post_right_iff`).
-/

namespace Evald.ScorePost

open Evald.Lib Evald.Store

/-! ## Scores as they are posted -/

/-- One score as posted. -/
structure ScoreInput where
  id : Option String := none
  traceId : Option String := none
  spanId : Option String := none
  sessionId : Option String := none
  runId : Option String := none
  name : String
  value : Option Json := none
  numValue : Option F64 := none
  strValue : Option String := none
  dataType : Option DataType := none
  source : Option ScoreSource := none
  comment : Option String := none
  configId : Option String := none
  tsUnixNano : Option Nat := none

/-- The body of a post. -/
inductive ScoresBody where
  | one (input : ScoreInput)
  | many (inputs : List ScoreInput)

def ScoresBody.inputs : ScoresBody → List ScoreInput
  | .one input => [input]
  | .many inputs => inputs

def nonEmpty (id : Option String) : Option String := id.filter (· ≠ "")

/-- The first id present, most specific first. -/
def targetFromParts (spanId traceId sessionId runId : Option String) : Option ScoreTarget :=
  match nonEmpty spanId, nonEmpty traceId, nonEmpty sessionId with
  | some id, _, _ => some (.span id)
  | none, some id, _ => some (.trace id)
  | none, none, some id => some (.session id)
  | none, none, none => (nonEmpty runId).map .run

/-- What an untyped value stands for: a number, a text and a type. -/
def readValue (float : Floats) (value : Option Json) :
    Option F64 × Option String × Option DataType :=
  match value with
  | some (.int i) => (some (float.ofInt i), none, some .numeric)
  | some (.float q) => (some (.finite q), none, some .numeric)
  | some (.bool b) => (some (.finite (if b then 1 else 0)), none, some .boolean)
  | some (.str s) => (none, some s, some .categorical)
  | _ => (none, none, none)

/-- A posted score, with the id and the time it gets when it has none. -/
def resolveScore (float : Floats) (newId : String) (now : Nat) (input : ScoreInput)
    (defaultSource : ScoreSource) : Except String Score :=
  match targetFromParts input.spanId input.traceId input.sessionId input.runId with
  | none => .error "a score needs one of span_id / trace_id / session_id / run_id"
  | some target =>
    -- explicit values win over an untyped one
    let (numValue, strValue, inferredType) :=
      if input.numValue.isNone && input.strValue.isNone then readValue float input.value
      else (input.numValue, input.strValue, none)
    if numValue.isNone && strValue.isNone then
      .error "a score needs a value (number/string/bool, or num_value/str_value)"
    else
      .ok
        { id := input.id.getD newId
          target := target
          name := input.name
          numValue := numValue
          strValue := strValue
          dataType := (input.dataType.or inferredType).getD .numeric
          source := input.source.getD defaultSource
          comment := input.comment
          configId := input.configId
          aggStats := none
          tsUnixNano := input.tsUnixNano.getD now }

/-- The ids and times that are drawn while a batch is read. -/
structure Draws where
  newId : Nat → String
  now : Nat → Nat

/-- Every score of a batch with the trace id it was sent with, up to the first that is none. -/
def resolveScores (float : Floats) (draws : Draws) :
    Nat → List ScoreInput → Except String (List (Score × Option String))
  | _, [] => .ok []
  | i, input :: rest =>
    match resolveScore float (draws.newId i) (draws.now i) input .api with
    | .error message => .error message
    | .ok score =>
      match resolveScores float draws (i + 1) rest with
      | .error message => .error message
      | .ok scores => .ok ((score, input.traceId) :: scores)

/-! ## Looking for the targets -/

inductive JoinStatus where
  | matched
  | unmatched
  | unverified
  | notApplicable
  deriving DecidableEq, Repr

structure JoinSummary where
  matched : Nat := 0
  unmatched : Nat := 0
  unverified : Nat := 0
  notApplicable : Nat := 0
  deriving DecidableEq, Repr

def JoinSummary.record (summary : JoinSummary) : JoinStatus → JoinSummary
  | .matched => { summary with matched := summary.matched + 1 }
  | .unmatched => { summary with unmatched := summary.unmatched + 1 }
  | .unverified => { summary with unverified := summary.unverified + 1 }
  | .notApplicable => { summary with notApplicable := summary.notApplicable + 1 }

/-- What a reply says of the targets. -/
structure JoinReport where
  checked : Nat
  matched : Nat
  unmatched : Nat
  unverified : Nat
  warnings : List String
  deriving DecidableEq, Repr

def JoinSummary.toReport (summary : JoinSummary) (checked : Nat) : JoinReport where
  checked := checked
  matched := summary.matched
  unmatched := summary.unmatched
  unverified := summary.unverified
  warnings :=
    (if 0 < summary.unmatched then
      [toString summary.unmatched ++ " of " ++ toString checked ++
        " scores reference a span/trace not found in the store " ++
        "(likely a wrong or not-yet-ingested id)"]
    else []) ++
    (if 0 < summary.unverified then
      [toString summary.unverified ++ " of " ++ toString checked ++
        " scores target a span id that could not be confirmed " ++
        "(pass trace_id for an authoritative check)"]
    else [])

/-- The store a batch is posted to.  Its index of traces is exact. -/
structure ScoreDoor where
  hot : HotTier
  cold : ColdState
  indexed : TraceInvariant cold
  scores : ScoreStore

/-- Any state of a running store will do. -/
def doorOf {s : Live} (invariant : LiveInvariant s) (scores : ScoreStore) : ScoreDoor where
  hot := s.proc.hot
  cold := s.disk.cold
  indexed := invariant.cold
  scores := scores

namespace ScoreDoor

variable (door : ScoreDoor)

/-- The spans of a trace, the earliest first. -/
def trace (traceId : String) : Option (List NormalizedSpan) :=
  (query door.hot door.cold (some traceId) usizeMax).map (fun spans =>
    spans.insertionSort (fun a b => a.startUnixNano ≤ b.startUnixNano))

/-- The traces a batch is looked for in. -/
def wanted (items : List (ScoreTarget × Option String)) : List String :=
  (items.filterMap (fun item =>
    match item.1 with
    | .trace id => some id
    | .span _ => item.2
    | _ => none)).dedup

/-- The span ids of each, or that they could not be read. -/
abbrev TraceSpans := Std.ExtTreeMap String (Option (List String))

def readTraces (wanted : List String) : TraceSpans :=
  wanted.foldl (fun read traceId =>
    read.insert traceId ((door.trace traceId).map (List.map NormalizedSpan.spanId))) ∅

/-- How one target matches the spans that are stored. -/
def statusOf (traceSpans : TraceSpans) (hotIds : List String)
    (item : ScoreTarget × Option String) : JoinStatus :=
  match item.1 with
  | .trace id =>
    match traceSpans[id]? with
    | some (some spanIds) => if spanIds.isEmpty then .unmatched else .matched
    | _ => .unverified
  | .span id =>
    match item.2.bind (fun hint => traceSpans[hint]?) with
    | some (some spanIds) => if id ∈ spanIds then .matched else .unmatched
    | some none => .unverified
    | none => if id ∈ hotIds then .matched else .unverified
  | _ => .notApplicable

def validateTargets (items : List (ScoreTarget × Option String)) :
    List JoinStatus × JoinSummary :=
  let traceSpans := door.readTraces (wanted items)
  let hotIds := door.hot.hotSpans.map NormalizedSpan.spanId
  let statuses := items.map (statusOf traceSpans hotIds)
  (statuses, statuses.foldl JoinSummary.record {})

end ScoreDoor

/-! ## The post -/

inductive PostReply where
  | badRequest (message : String)
  /-- Dangling targets. -/
  | unprocessable (join : JoinReport)
  | created (ids : List String) (join : JoinReport)
  | internal (message : String)
  deriving DecidableEq, Repr

variable (codec : ScoreCodec) (float : Floats)

/-- The items whose targets are looked for. -/
def itemsOf (scores : List (Score × Option String)) : List (ScoreTarget × Option String) :=
  scores.map (fun scored => (scored.1.target, scored.2))

/-- Store a batch, unless it is strict and a target is dangling. -/
def storeScores (door : ScoreDoor) (strict : Bool) (fault : Nat → Bool)
    (resolved : List (Score × Option String)) : PostReply × ScoreStore :=
  let scores := resolved.map Prod.fst
  let summary := (door.validateTargets (itemsOf resolved)).2
  let join := summary.toReport scores.length
  if strict && 0 < summary.unmatched then (.unprocessable join, door.scores)
  else
    match door.scores.putBatch codec { scores := scores, fault := fault } with
    | some tables => (.created (scores.map Score.id) join, tables)
    | none => (.internal "evald: could not store scores\n", door.scores)

/-- Post a batch: the reply and the score store it leaves. -/
def postScores (door : ScoreDoor) (draws : Draws) (strict : Bool) (fault : Nat → Bool)
    (body : ScoresBody) : PostReply × ScoreStore :=
  match resolveScores float draws 0 body.inputs with
  | .error message => (.badRequest ("evald: " ++ message ++ "\n"), door.scores)
  | .ok resolved => storeScores codec door strict fault resolved

/-! ## What is dangling -/

/-- The span can be read, from either tier. -/
def ScoreDoor.Stores (door : ScoreDoor) (traceId spanId : String) : Prop :=
  ∃ s, (s ∈ door.hot.allSpans ∨
      ∃ p, door.cold.index.Names p ∧ s ∈ rowsAt door.cold.files p) ∧
    s.traceId = traceId ∧ s.spanId = spanId

/-- The target is provably absent, an empty id being none. -/
def ScoreDoor.Dangling (door : ScoreDoor) (input : ScoreInput) : Prop :=
  match nonEmpty input.spanId, nonEmpty input.traceId with
  | some spanId, some traceId => ¬ door.Stores traceId spanId
  | none, some traceId => ∀ spanId, ¬ door.Stores traceId spanId
  | _, none => False

section Reads

variable {door : ScoreDoor}

theorem spanKey_eq_keyOf_iff {s : NormalizedSpan} {traceId spanId : String} :
    spanKey s = keyOf traceId spanId ↔ s.traceId = traceId ∧ s.spanId = spanId := by
  constructor
  · exact keyOf_inj
  · intro same
    rw [spanKey, same.1, same.2]

/-- What is stored is what a read of everything shows. -/
theorem ScoreDoor.stores_iff {traceId spanId : String} : door.Stores traceId spanId ↔
    ∃ s ∈ readSpans door.hot door.cold none, s.traceId = traceId ∧ s.spanId = spanId := by
  have everything (spans : List NormalizedSpan) : spans.filter (traceMatches none) = spans :=
    List.filter_eq_self.mpr (fun _ _ => rfl)
  have keyed (spans : List NormalizedSpan) : keyOf traceId spanId ∈ spans.map spanKey ↔
      ∃ s ∈ spans, s.traceId = traceId ∧ s.spanId = spanId := by
    rw [List.mem_map]
    simp only [spanKey_eq_keyOf_iff]
  rw [← keyed, readSpans, mem_keys_combine, everything, everything, keyed, keyed]
  simp only [Stores, listedRows, listBlocks, List.mem_flatMap, Index.mem_allBlockPaths]
  constructor
  · intro held
    obtain ⟨s, hot | ⟨p, named, inBlock⟩, same⟩ := held
    · exact .inl ⟨s, hot, same⟩
    · exact .inr ⟨s, ⟨p, named, inBlock⟩, same⟩
  · intro held
    obtain ⟨s, hot, same⟩ | ⟨s, inBlock, same⟩ := held
    · exact ⟨s, .inl hot, same⟩
    · exact ⟨s, .inr inBlock, same⟩

/-- A read of a trace succeeds, and shows the spans of it that are stored. -/
theorem ScoreDoor.trace_exact (door : ScoreDoor) (traceId : String) :
    ∃ spans, door.trace traceId = some spans ∧
      ∀ spanId, spanId ∈ spans.map NormalizedSpan.spanId ↔ door.Stores traceId spanId := by
  have stored : ∀ p ∈ listBlocks door.cold.index (some traceId),
      ∃ file, door.cold.files[p]? = some file := by
    intro p listed
    have named := (door.indexed.exact traceId p).mp (Index.mem_blockPathsForTrace.mp listed)
    exact door.indexed.stored p named.1
  have read : query door.hot door.cold (some traceId) usizeMax =
      some (newestFirst NormalizedSpan.startUnixNano
        (readSpans door.hot door.cold (some traceId))) := by
    rw [query_eq stored (by decide), upTo, if_pos rfl]
  refine ⟨_, by rw [trace, read]; rfl, fun spanId => ?_⟩
  rw [stores_iff, List.mem_map]
  simp only [List.mem_insertionSort, mem_newestFirst, readSpans_trace door.indexed,
    List.mem_filter, traceMatches, decide_eq_true_eq, and_assoc]

theorem ScoreDoor.getElem?_readTraces (wanted : List String) (traceId : String) :
    (door.readTraces wanted)[traceId]? =
      if traceId ∈ wanted then some ((door.trace traceId).map (List.map NormalizedSpan.spanId))
      else none := by
  unfold readTraces
  induction wanted using List.reverseRecOn with
  | nil => simp
  | append_singleton wanted last inductionHypothesis =>
    rw [List.foldl_append, List.foldl_cons, List.foldl_nil, getElem?_insert_if,
      inductionHypothesis]
    by_cases here : last = traceId
    · simp [here]
    · simp [Ne.symm here]

/-- What is looked for is wanted. -/
theorem mem_wanted {items : List (ScoreTarget × Option String)} {traceId : String} :
    traceId ∈ ScoreDoor.wanted items ↔
      (∃ hint, (.trace traceId, hint) ∈ items) ∨ ∃ id, (.span id, some traceId) ∈ items := by
  unfold ScoreDoor.wanted
  rw [List.mem_dedup, List.mem_filterMap]
  constructor
  · intro found
    obtain ⟨⟨target, hint⟩, listed, same⟩ := found
    cases target with
    | trace id =>
      simp only [Option.some.injEq] at same
      exact .inl ⟨hint, same ▸ listed⟩
    | span id =>
      simp only at same
      exact .inr ⟨id, same ▸ listed⟩
    | session id => simp at same
    | run id => simp at same
  · intro found
    obtain ⟨hint, listed⟩ | ⟨id, listed⟩ := found
    · exact ⟨_, listed, rfl⟩
    · exact ⟨_, listed, rfl⟩

/-- Nothing is stored that the target, with the trace it is looked for in, could be. -/
def ScoreDoor.Missing (door : ScoreDoor) : ScoreTarget → Option String → Prop
  | .trace id, _ => ∀ spanId, ¬ door.Stores id spanId
  | .span id, some traceId => ¬ door.Stores traceId id
  | _, _ => False

/-- Which targets of a batch are not matched. -/
theorem ScoreDoor.statusOf_eq_unmatched_iff {items : List (ScoreTarget × Option String)}
    {hotIds : List String} {item : ScoreTarget × Option String} (listed : item ∈ items) :
    statusOf (door.readTraces (wanted items)) hotIds item = .unmatched ↔
      door.Missing item.1 item.2 := by
  obtain ⟨target, hint⟩ := item
  cases target with
  | trace id =>
    obtain ⟨spans, read, isExact⟩ := door.trace_exact id
    have looked := door.getElem?_readTraces (wanted items) id
    rw [if_pos (mem_wanted.mpr (.inl ⟨hint, listed⟩)), read, Option.map_some] at looked
    simp only [statusOf, looked, Missing, ← isExact]
    cases spans.map NormalizedSpan.spanId with
    | nil => simp
    | cons first rest =>
      have present : ¬ ∀ spanId, spanId ∉ first :: rest := fun absent => absent first (by simp)
      exact iff_of_false (by simp) present
  | span id =>
    cases hint with
    | none =>
      simp only [statusOf, Option.bind_none, Missing]
      split <;> simp
    | some traceId =>
      obtain ⟨spans, read, isExact⟩ := door.trace_exact traceId
      have looked := door.getElem?_readTraces (wanted items) traceId
      rw [if_pos (mem_wanted.mpr (.inr ⟨id, listed⟩)), read, Option.map_some] at looked
      simp only [statusOf, Option.bind_some, looked, Missing, ← isExact]
      split <;> simp_all
  | session id => simp [statusOf, Missing]
  | run id => simp [statusOf, Missing]

end Reads

/-! ## A batch -/

section Batch

variable {door : ScoreDoor} {codec : ScoreCodec} {float : Floats}

theorem JoinSummary.foldl_record (statuses : List JoinStatus) (summary : JoinSummary) :
    statuses.foldl JoinSummary.record summary =
      { matched := summary.matched + statuses.count .matched
        unmatched := summary.unmatched + statuses.count .unmatched
        unverified := summary.unverified + statuses.count .unverified
        notApplicable := summary.notApplicable + statuses.count .notApplicable } := by
  induction statuses generalizing summary with
  | nil => simp
  | cons status statuses inductionHypothesis =>
    rw [List.foldl_cons, inductionHypothesis]
    cases status <;> simp [JoinSummary.record, Nat.add_assoc, Nat.add_comm 1]

/-- Every status is tallied once. -/
theorem sum_counts (statuses : List JoinStatus) :
    statuses.count .matched + statuses.count .unmatched + statuses.count .unverified +
      statuses.count .notApplicable = statuses.length := by
  induction statuses with
  | nil => rfl
  | cons status statuses inductionHypothesis =>
    rw [List.length_cons, ← inductionHypothesis]
    cases status <;> simp <;> omega

/-- A score is resolved to the first id it names, and keeps the trace id it came with. -/
theorem resolveScore_target {newId : String} {now : Nat} {input : ScoreInput} {score : Score}
    {source : ScoreSource} (resolved : resolveScore float newId now input source = .ok score) :
    targetFromParts input.spanId input.traceId input.sessionId input.runId =
      some score.target := by
  unfold resolveScore at resolved
  split at resolved
  · contradiction
  · rename_i target found
    simp only at resolved
    split at resolved
    · split at resolved
      · contradiction
      · rw [found, ← Except.ok.inj resolved]
    · -- an explicit value is there
      rw [found, ← Except.ok.inj resolved]

theorem resolveScores_items {draws : Draws} {inputs : List ScoreInput} {i : Nat}
    {resolved : List (Score × Option String)}
    (ok : resolveScores float draws i inputs = .ok resolved) :
    List.Forall₂ (fun input item =>
      targetFromParts input.spanId input.traceId input.sessionId input.runId = some item.1 ∧
        item.2 = input.traceId) inputs (itemsOf resolved) := by
  induction inputs generalizing i resolved with
  | nil =>
    rw [resolveScores, Except.ok.injEq] at ok
    rw [← ok]
    exact .nil
  | cons input rest inductionHypothesis =>
    unfold resolveScores at ok
    split at ok
    · contradiction
    · rename_i score first
      split at ok
      · contradiction
      · rename_i scores later
        rw [← Except.ok.inj ok]
        exact .cons ⟨resolveScore_target first, rfl⟩ (inductionHypothesis later)

/-- A span score whose trace id is there but empty: the trace of no name has the span. -/
def ScoreDoor.EmptyHintFinds (door : ScoreDoor) (input : ScoreInput) : Prop :=
  ∀ spanId, nonEmpty input.spanId = some spanId → input.traceId = some "" → door.Stores "" spanId

/-- A target of a batch is reported unmatched as it should be exactly when it is not a span
with an empty trace id. -/
theorem unmatched_right_iff {input : ScoreInput} {item : ScoreTarget × Option String}
    {items : List (ScoreTarget × Option String)} {hotIds : List String} (listed : item ∈ items)
    (target : targetFromParts input.spanId input.traceId input.sessionId input.runId = some item.1)
    (hint : item.2 = input.traceId) :
    (ScoreDoor.statusOf (door.readTraces (ScoreDoor.wanted items)) hotIds item = .unmatched ↔
      door.Dangling input) ↔ door.EmptyHintFinds input := by
  rw [door.statusOf_eq_unmatched_iff listed]
  obtain ⟨itemTarget, itemHint⟩ := item
  simp only at hint target
  subst hint
  unfold targetFromParts at target
  unfold ScoreDoor.Dangling ScoreDoor.EmptyHintFinds ScoreDoor.Missing
  cases span : nonEmpty input.spanId with
  | some spanId =>
    simp only [span, Option.some.injEq] at target
    subst target
    cases sent : input.traceId with
    | none => simp [nonEmpty]
    | some traceId =>
      -- only here do the two readings part: an empty hint still names a trace to the door
      by_cases empty : traceId = ""
      · subst empty
        have absent : nonEmpty (some "") = none := rfl
        simp [absent]
      · have given : nonEmpty (some traceId) = some traceId := by simp [nonEmpty, empty]
        simp [given, empty]
  | none =>
    cases trace : nonEmpty input.traceId with
    | some traceId =>
      simp only [span, trace, Option.some.injEq] at target
      subst target
      simp
    | none =>
      simp only [span, trace] at target
      split at target
      · contradiction
      · contradiction
      · rw [← Option.some.inj target]
        simp
      · obtain ⟨id, -, same⟩ := Option.map_eq_some_iff.mp target
        rw [← same]
        simp

/-- What a batch of scores should get: each target reported as it is, every one tallied, and
a strict post that stores all of the batch or nothing.  What the tables hold after it is said
for scores whose texts are read with their id, target and time. -/
structure JoinRight (codec : ScoreCodec) (door : ScoreDoor) (fault : Nat → Bool)
    (inputs : List ScoreInput) (resolved : List (Score × Option String)) : Prop where
  unmatched : ∀ (i : Nat) (input : ScoreInput), inputs[i]? = some input →
    ((door.validateTargets (itemsOf resolved)).1[i]? = some .unmatched ↔ door.Dangling input)
  tallied :
    let summary := (door.validateTargets (itemsOf resolved)).2
    summary.matched + summary.unmatched + summary.unverified + summary.notApplicable =
      inputs.length
  refused : (∃ join, (storeScores codec door true fault resolved).1 = .unprocessable join) ↔
    .unmatched ∈ (door.validateTargets (itemsOf resolved)).1
  whole : (∃ ids join, (storeScores codec door true fault resolved).1 = .created ids join ∧
      ∀ current, ScoreStore.Exact codec door.scores current →
        (∀ scored ∈ resolved, codec.Keeps scored.1) →
        ScoreStore.Exact codec (storeScores codec door true fault resolved).2
          ((resolved.map Prod.fst).foldl ScoreStore.Current.write current)) ∨
    (∀ ids join, (storeScores codec door true fault resolved).1 ≠ .created ids join) ∧
      (storeScores codec door true fault resolved).2 = door.scores

theorem unmatched_pos_iff (items : List (ScoreTarget × Option String)) :
    0 < (door.validateTargets items).2.unmatched ↔
      .unmatched ∈ (door.validateTargets items).1 := by
  unfold ScoreDoor.validateTargets
  simp only [JoinSummary.foldl_record, Nat.zero_add, List.count_pos_iff]

theorem storeScores_refused (fault : Nat → Bool) (resolved : List (Score × Option String)) :
    (∃ join, (storeScores codec door true fault resolved).1 = .unprocessable join) ↔
      .unmatched ∈ (door.validateTargets (itemsOf resolved)).1 := by
  rw [← unmatched_pos_iff]
  unfold storeScores
  by_cases dangling : 0 < (door.validateTargets (itemsOf resolved)).2.unmatched
  · simp [dangling]
  · simp only [dangling, Bool.true_and, decide_false, Bool.false_eq_true, if_false, iff_false]
    split <;> simp

theorem storeScores_whole (fault : Nat → Bool) (resolved : List (Score × Option String)) :
    (∃ ids join, (storeScores codec door true fault resolved).1 = .created ids join ∧
      ∀ current, ScoreStore.Exact codec door.scores current →
        (∀ scored ∈ resolved, codec.Keeps scored.1) →
        ScoreStore.Exact codec (storeScores codec door true fault resolved).2
          ((resolved.map Prod.fst).foldl ScoreStore.Current.write current)) ∨
    (∀ ids join, (storeScores codec door true fault resolved).1 ≠ .created ids join) ∧
      (storeScores codec door true fault resolved).2 = door.scores := by
  unfold storeScores
  simp only
  split
  · exact .inr ⟨by simp, rfl⟩
  · split
    · rename_i tables put
      refine .inl ⟨_, _, rfl, fun current isExact keeps => ?_⟩
      apply isExact.putBatch _ put
      intro score listed
      obtain ⟨scored, member, same⟩ := List.mem_map.mp listed
      rw [← same]
      exact keeps scored member
    · exact .inr ⟨by simp, rfl⟩

/-- A batch of scores gets what it should exactly when none of them is a span score with an
empty trace id, unless spans of no trace make it up. -/
theorem joinRight_iff {draws : Draws} {fault : Nat → Bool} {inputs : List ScoreInput}
    {resolved : List (Score × Option String)}
    (ok : resolveScores float draws 0 inputs = .ok resolved) :
    JoinRight codec door fault inputs resolved ↔ ∀ input ∈ inputs, door.EmptyHintFinds input := by
  have items := resolveScores_items ok
  have each (i : Nat) (input : ScoreInput) (listed : inputs[i]? = some input) :
      ((door.validateTargets (itemsOf resolved)).1[i]? = some .unmatched ↔
        door.Dangling input) ↔ door.EmptyHintFinds input := by
    obtain ⟨inside, here⟩ := List.getElem?_eq_some_iff.mp listed
    have inside' : i < (itemsOf resolved).length := items.length_eq ▸ inside
    obtain ⟨target, hint⟩ := items.get inside inside'
    simp only [List.get_eq_getElem, here] at target hint
    simp only [ScoreDoor.validateTargets, List.getElem?_map, List.getElem?_eq_getElem inside',
      Option.map_some, Option.some.injEq]
    exact unmatched_right_iff (List.getElem_mem inside') target hint
  constructor
  · intro right input listed
    obtain ⟨i, inside, here⟩ := List.getElem_of_mem listed
    have listedAt := List.getElem?_eq_some_iff.mpr ⟨inside, here⟩
    exact (each i input listedAt).mp (right.unmatched i input listedAt)
  · intro finds
    refine ⟨fun i input listed => ?_, ?_, storeScores_refused fault resolved,
      storeScores_whole fault resolved⟩
    · exact (each i input listed).mpr (finds input (List.mem_of_getElem? listed))
    · simp only [ScoreDoor.validateTargets, JoinSummary.foldl_record, Nat.zero_add, sum_counts,
        List.length_map, items.length_eq]

end Batch

/-- A post: what is no batch of scores is refused and leaves the scores as they were, and a
batch gets what it should. -/
def PostRight (codec : ScoreCodec) (float : Floats) (door : ScoreDoor) (draws : Draws)
    (fault : Nat → Bool) (body : ScoresBody) : Prop :=
  match resolveScores float draws 0 body.inputs with
  | .error message => postScores codec float door draws true fault body =
      (.badRequest ("evald: " ++ message ++ "\n"), door.scores)
  | .ok resolved => JoinRight codec door fault body.inputs resolved ∧
      postScores codec float door draws true fault body = storeScores codec door true fault resolved

/-- A post is right exactly when, if all of it are scores, none of them is a span score with
an empty trace id, unless a span of no trace is meant. -/
theorem post_right_iff (codec : ScoreCodec) (float : Floats) (door : ScoreDoor) (draws : Draws)
    (fault : Nat → Bool) (body : ScoresBody) :
    PostRight codec float door draws fault body ↔
      ∀ resolved, resolveScores float draws 0 body.inputs = .ok resolved →
        ∀ input ∈ body.inputs, door.EmptyHintFinds input := by
  unfold PostRight postScores
  cases ok : resolveScores float draws 0 body.inputs with
  | error message => simp
  | ok resolved => simp [joinRight_iff ok]

/-! ## An empty trace id -/

/-- A store with one span, still in the hot tier. -/
def oneSpanDoor : ScoreDoor where
  hot := HotTier.push ∅ 1
    [{ traceId := "4bf92f3577b34da6", spanId := "00f067aa0ba902b7", startUnixNano := 1 }]
  cold := {}
  indexed := traceInvariant_empty
  scores := {}

/-- A score on that span, with its trace id left empty. -/
def untracedScore : ScoreInput where
  spanId := some "00f067aa0ba902b7"
  traceId := some ""
  name := "quality"
  value := some (.int 1)

def noDraws : Draws where
  newId := fun _ => "5f1c"
  now := fun _ => 0

def untracedItems : List (ScoreTarget × Option String) :=
  [(.span "00f067aa0ba902b7", some "")]

/-- The span is called dangling, though it is stored and no trace was named to look for it in. -/
theorem empty_trace_id_dangles :
    ¬ PostRight ⟨fun _ => some "", fun _ => none⟩ .exact oneSpanDoor noDraws (fun _ => false)
      (.one untracedScore) := by
  intro right
  have ok : ∃ score, resolveScores .exact noDraws 0 [untracedScore] = .ok [(score, some "")] ∧
      score.target = .span "00f067aa0ba902b7" := ⟨_, rfl, rfl⟩
  obtain ⟨score, ok, target⟩ := ok
  unfold PostRight ScoresBody.inputs at right
  rw [ok] at right
  have reported : (oneSpanDoor.validateTargets (itemsOf [(score, some "")])).1[0]? =
      some .unmatched := by
    have items : itemsOf [(score, some "")] = untracedItems := by
      simp [itemsOf, target, untracedItems]
    rw [items]
    decide
  exact (right.1.unmatched 0 untracedScore rfl).mp reported

end Evald.ScorePost
