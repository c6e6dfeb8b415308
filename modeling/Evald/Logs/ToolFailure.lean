import Evald.Logs.OneCall
import Evald.SessionOrder

/-! # A failure that one signal reports

A tool call that failed is told by an event that says so and by a traced span that may not.
The ledger looks at the key alone: the traced span is always stored, the event only while the
call is not remembered.  So the rollup counts the failure when the event is stored before the
span, or when the span reports it as well (`failure_counted_iff`).
-/

namespace Evald.Sessions

open Evald.Lib

/-! ## The calls that failed -/

variable (deps : Deps)

/-- What identifies the tool calls of a session of which a copy reports a failure. -/
def failedCalls (spans : List NormalizedSpan) (session : String) : List String :=
  let tools := (toolSpans spans session).foldl (addTool deps) ∅
  (tools.toList.filter (fun c => c.2.failed)).map Prod.fst

theorem mem_failedCalls {spans : List NormalizedSpan} {session k : String} :
    k ∈ failedCalls deps spans session ↔
      ∃ s ∈ toolSpans spans session, callIdentity s = k ∧ Agent.failed s = true := by
  unfold failedCalls
  simp only [List.mem_map, List.mem_filter]
  constructor
  · rintro ⟨⟨key, c⟩, ⟨listed, failed⟩, rfl⟩
    have held := Std.ExtTreeMap.mem_toList_iff_getElem?_eq_some.mp listed
    rw [show c.failed = _ from (callOf_held held).failed, List.any_eq_true] at failed
    obtain ⟨s, copy, failed⟩ := failed
    rw [mem_copies] at copy
    exact ⟨s, copy.1, copy.2, failed⟩
  · rintro ⟨s, member, identity, failed⟩
    have held : k ∈ (toolSpans spans session).foldl (addTool deps) ∅ :=
      (mem_foldl_addTool deps).mpr (.inr ⟨s, member, identity⟩)
    obtain ⟨c, held⟩ := Option.isSome_iff_exists.mp
      (Std.ExtTreeMap.mem_iff_isSome_getElem?.mp held)
    refine ⟨(k, c), ⟨Std.ExtTreeMap.mem_toList_iff_getElem?_eq_some.mpr held, ?_⟩, rfl⟩
    show c.failed = true
    rw [(callOf_held held).failed, List.any_eq_true]
    exact ⟨s, mem_copies.mpr ⟨member, identity⟩, failed⟩

/-- Where every tool span carries a call id, the failed calls are what is counted. -/
theorem toolErrors_eq {spans : List NormalizedSpan} {session : String} {truncated : Bool}
    {report : SessionRollup} (rolled : rollup deps spans session truncated = some report)
    (ids : ∀ s ∈ toolSpans spans session, (Agent.toolCallId s).isSome = true) :
    report.toolErrors = (failedCalls deps spans session).length := by
  obtain ⟨-, -, tools⟩ := foldl_add_counts deps
    (spans.filter (fun s => s.sessionId = some session)) {}
  unfold rollup at rolled
  simp only at rolled
  split at rolled
  · cases rolled
    change ((mergeNested (List.foldl (Acc.add deps) {} _).tools).filter ToolCall.failed).length = _
    have byId : ∀ (k : String) (c : ToolCall),
        ((toolSpans spans session).foldl (addTool deps) ∅)[k]? = some c → c.byId = true := by
      apply byId_foldl_addTool deps _ ids
      intro k c held
      simp at held
    rw [tools]
    change ((mergeNested ((toolSpans spans session).foldl (addTool deps) ∅)).filter _).length = _
    rw [mergeNested_byId byId, List.filter_map, List.length_map]
    unfold failedCalls
    rw [List.length_map]
    rfl
  · cases rolled

end Evald.Sessions

namespace Evald.Logs

open Evald.Lib Evald.Otlp Evald.Normalize Evald.Traces

/-! ## A failure on its way to the store -/

/-- The attribute that reports a failure whatever the status says. -/
def errorKey : String := "error.type"

/-- A failure is read of the status and of one attribute. -/
theorem failed_congr {s s' : NormalizedSpan} (code : s.statusCode = s'.statusCode)
    (raw : s.rawAttributes[errorKey]? = s'.rawAttributes[errorKey]?) :
    Agent.failed s = Agent.failed s' := by
  have contains : s.rawAttributes.contains errorKey = s'.rawAttributes.contains errorKey := by
    rw [Std.ExtTreeMap.contains_eq_isSome_getElem?, raw,
      ← Std.ExtTreeMap.contains_eq_isSome_getElem?]
  unfold Agent.failed
  rw [code]
  exact congrArg _ contains

theorem failed_normalize (s : NormalizedSpan) : Agent.failed (Agent.normalize s) = Agent.failed s := by
  obtain ⟨raw, kept, normalized⟩ := Agent.normalize_spec s
  have code : (Agent.usageSetAside s).statusCode = s.statusCode := by
    unfold Agent.usageSetAside
    split <;> rfl
  apply failed_congr
  · rw [normalized]
    exact code
  · rw [normalized]
    exact kept errorKey (by decide)

theorem failed_addSchemaUrl (schema : Option String) (s : NormalizedSpan) :
    Agent.failed (addSchemaUrl schema s) = Agent.failed s := by
  obtain ⟨raw, kept, schemed⟩ := addSchemaUrl_spec schema s
  apply failed_congr
  · rw [schemed]
  · rw [schemed]
    exact kept errorKey (by decide)

theorem failed_fixToolSpan (s : NormalizedSpan) :
    Agent.failed (ClaudeCode.fixToolSpan s) = Agent.failed s := by
  unfold ClaudeCode.fixToolSpan
  split
  · apply failed_congr
    · rfl
    · simp only
      rw [getElem?_insert_if, if_neg (by decide)]
  · rfl

theorem failed_apply (float : Floats) (prices : Pricing.PriceTable) (s : NormalizedSpan) :
    Agent.failed (Pricing.apply float prices s) = Agent.failed s := by
  obtain ⟨cost, raw, kept, priced⟩ := Pricing.apply_spec float prices s
  apply failed_congr
  · rw [priced]
  · rw [priced]
    exact kept errorKey (by decide)

/-- Redacting and offloading leave a failure what it was. -/
theorem failed_prepare (p : Preparation) (s : NormalizedSpan) :
    Agent.failed (p.prepare s) = Agent.failed s := by
  have input (s : NormalizedSpan) : Agent.failed (p.offloadInput s) = Agent.failed s := by
    unfold Preparation.offloadInput
    split
    · rfl
    · split
      · rfl
      · apply failed_congr
        · rfl
        · simp only
          rw [getElem?_insert_if, if_neg (by decide)]
  have output (s : NormalizedSpan) : Agent.failed (p.offloadOutput s) = Agent.failed s := by
    unfold Preparation.offloadOutput
    split
    · rfl
    · split
      · rfl
      · apply failed_congr
        · rfl
        · simp only
          rw [getElem?_insert_if, if_neg (by decide)]
  -- a value that is rewritten is still there
  have rewritten (s : NormalizedSpan) (f : String → Json → Json) :
      Agent.failed { s with rawAttributes := s.rawAttributes.map f } = Agent.failed s := by
    unfold Agent.failed
    simp only [Std.ExtTreeMap.contains_map]
  have scrubbed : Agent.failed (p.scrubSpan s) = Agent.failed s := rewritten s _
  unfold Preparation.prepare Preparation.offload
  split
  · exact scrubbed
  · rw [rewritten, output, input, scrubbed]

/-- The span itself reports a failure. -/
def TracedFailure (span : Span) : Prop :=
  (span.status.map Status.code).getD 0 = 2 ∨ ∃ kv ∈ span.attributes, kv.key = errorKey

theorem failed_readSpan (deps : Deps) (span : Span) (service name version : Option String) :
    Agent.failed (readSpan deps span service name version) = true ↔ TracedFailure span := by
  have contains : (rawAttributes span.attributes).contains errorKey = true ↔
      ∃ kv ∈ span.attributes, kv.key = errorKey := by
    rw [Std.ExtTreeMap.contains_eq_isSome_getElem?, getElem?_rawAttributes, Option.isSome_map,
      List.find?_isSome]
    simp
  show ((span.status.map Status.code).getD 0 = 2 || (rawAttributes span.attributes).contains
    errorKey) = true ↔ _
  rw [Bool.or_eq_true, decide_eq_true_eq, contains]
  rfl

/-! ## The two signals of a call that failed -/

variable (deps : Deps) (prices : Pricing.PriceTable) {session toolUseId : String}

/-- The event reports that its tool failed, or that it was not let run. -/
def ReportsFailure (rec : LogRecord) : Prop :=
  ∃ name, eventName deps rec = some name ∧
    ((stripPrefix name "claude_code.").getD name = "tool_result" ∧
        attrStr deps rec.attributes "success" = some "false" ∨
      (stripPrefix name "claude_code.").getD name = "tool_decision" ∧
        attrStr deps rec.attributes "decision" = some "reject")

theorem anchorOf_finish {call : Call} {draft : SpanDraft} (ctx : RecordCtx)
    (marked : Marked session call draft.attributes) :
    CallLedger.anchorOf (draft.finish deps ctx) = none := by
  have read : Marked session call draft.toSpan.attributes := marked
  exact (congrArg CallMark.anchor (markOf_normalize _)).trans
    (read.readSpan deps ctx.serviceName ctx.scopeName ctx.scopeVersion).2.2.1

theorem failed_toolSpan (ctx : RecordCtx) {rec : LogRecord} {rejected : Option String}
    {message : String}
    (status : ClaudeCode.toolStatus deps rec.attributes rejected = some (.error message)) :
    Agent.failed (ClaudeCode.toolSpan deps ctx rec rejected) = true := by
  unfold ClaudeCode.toolSpan
  simp only [status]
  show Agent.failed (normalizeSpan deps _ _ _ _) = true
  rw [normalizeSpan, failed_normalize, failed_readSpan]
  left
  rfl

/-- Such an event is mapped to a copy of its call that can be dropped and reports the failure,
whatever is remembered. -/
theorem mapRecord_failure {policy : LogsPolicy} {ctx : RecordCtx} {rec : LogRecord}
    (event : EventOf deps session (.tool toolUseId) ctx rec) (failure : ReportsFailure deps rec)
    (on : policy ≠ .off) :
    ∃ s, (∀ state node,
        mapRecord deps prices policy ctx rec state node = (.span s, state, node)) ∧
      CopyOf deps session (.tool toolUseId) s ∧
      s.spanId = hexEncode ((Call.tool toolUseId).spanId deps) ∧
      CallLedger.anchorOf s = none ∧ Agent.failed s = true := by
  obtain ⟨rejected, message, mapped, status⟩ : ∃ rejected message,
      ClaudeCode.mapLog deps ctx rec (eventName deps rec) =
          .span (ClaudeCode.toolSpan deps ctx rec rejected) ∧
        ClaudeCode.toolStatus deps rec.attributes rejected = some (.error message) := by
    obtain ⟨name, named, reports⟩ := failure
    rw [named]
    unfold ClaudeCode.mapLog ClaudeCode.mapEvent
    simp only [event.mine, Bool.not_true, Bool.false_eq_true, if_false]
    -- a result that failed, or a decision that refused
    cases reports with
    | inl result =>
      refine ⟨none, (attrStr deps rec.attributes "error_type").getD "tool failed", ?_, ?_⟩
      · simp [result.1]
      · simp [ClaudeCode.toolStatus, result.2]
    | inr decision =>
      refine ⟨some ("rejected (" ++ (attrStr deps rec.attributes "source").getD "unknown" ++ ")"),
        _, ?_, rfl⟩
      simp [decision.1, decision.2]
  obtain ⟨copy, spanId⟩ := copyOf_toolSpan deps ctx event.naming rejected
  obtain ⟨cost, raw, kept, priced⟩ := Pricing.apply_spec deps.float prices
    (ClaudeCode.toolSpan deps ctx rec rejected)
  refine ⟨Pricing.apply deps.float prices (ClaudeCode.toolSpan deps ctx rec rejected),
    fun state node => mapRecord_of_mapLog deps prices event on mapped state node,
    copy.apply deps.float prices, ?_, ?_, ?_⟩
  · rw [priced]
    exact spanId
  · have unanchored : CallLedger.anchorOf (ClaudeCode.toolSpan deps ctx rec rejected) = none :=
      anchorOf_finish deps ctx (marked_toolAttributes deps event.naming)
    rw [CallLedger.anchorOf, priced, kept ClaudeCode.callAnchor (by decide)]
    exact unanchored
  · rw [failed_apply]
    exact failed_toolSpan deps ctx status

/-- The traced span of a call anchors it. -/
theorem normalizeScoped_tool {scopeSpans : ScopeSpans} {span : Span}
    (sent : SpanOf session (.tool toolUseId) scopeSpans.scope span)
    (service schema : Option String) :
    normalizeScoped deps prices service schema scopeSpans span =
      Pricing.apply deps.float prices (ClaudeCode.fixToolSpan
        (addSchemaUrl ((nonEmpty scopeSpans.schemaUrl).or schema)
          (normalizeSpan deps span service (scopeOf scopeSpans.scope).1
            (scopeOf scopeSpans.scope).2))) := by
  have received := sent.received deps service (scopeOf scopeSpans.scope).1
    (scopeOf scopeSpans.scope).2 ((nonEmpty scopeSpans.schemaUrl).or schema)
  have fixed (n : NormalizedSpan) (name : n.name = ClaudeCode.toolSpanName) :
      ClaudeCode.fixTraceSpan deps n = ClaudeCode.fixToolSpan n := by
    unfold ClaudeCode.fixTraceSpan
    rw [name]
    rfl
  rw [← fixed _ received.name]
  unfold normalizeScoped fixFor
  simp only [sent.traced, if_true]

/-- It fails as it was sent, and it is never dropped. -/
theorem failed_normalizeScoped {scopeSpans : ScopeSpans} {span : Span}
    (sent : SpanOf session (.tool toolUseId) scopeSpans.scope span) (named : toolUseId ≠ "")
    (service schema : Option String) :
    (Agent.failed (normalizeScoped deps prices service schema scopeSpans span) = true ↔
        TracedFailure span) ∧
      CallLedger.Free (normalizeScoped deps prices service schema scopeSpans span) := by
  have received := sent.received deps service (scopeOf scopeSpans.scope).1
    (scopeOf scopeSpans.scope).2 ((nonEmpty scopeSpans.schemaUrl).or schema)
  rw [normalizeScoped_tool deps prices sent]
  constructor
  · rw [failed_apply, failed_fixToolSpan, failed_addSchemaUrl, normalizeSpan, failed_normalize,
      failed_readSpan]
  · left
    generalize addSchemaUrl ((nonEmpty scopeSpans.schemaUrl).or schema)
      (normalizeSpan deps span service (scopeOf scopeSpans.scope).1
        (scopeOf scopeSpans.scope).2) = n at received
    have carried : ClaudeCode.stringAttribute n.rawAttributes "tool_use_id" = some toolUseId := by
      rw [ClaudeCode.stringAttribute, received.raw _ (by decide), show (rawAttributes
        span.attributes)["tool_use_id"]? = some (.str toolUseId) from sent.naming.id.raw]
      simp [Json.asStr, named]
    obtain ⟨cost, raw, kept, priced⟩ := Pricing.apply_spec deps.float prices
      (ClaudeCode.fixToolSpan n)
    rw [CallLedger.anchorOf, priced, kept ClaudeCode.callAnchor (by decide)]
    unfold ClaudeCode.fixToolSpan
    simp only [carried]
    rw [getElem?_insert_if, if_pos rfl]
    exact Option.some_ne_none _

/-! ## Among whatever else the doors are sent -/

section Made

variable (policy : LogsPolicy) (session toolUseId : String)

/-- A span a door makes of an event of the call. -/
def DoorRequest.MadeOfEvent (request : DoorRequest) (s : NormalizedSpan) : Prop :=
  ∃ e ∈ request.events deps, EventOf deps session (.tool toolUseId) e.1 e.2 ∧
    ∃ state memory, s ∈ (mapRecord deps prices policy e.1 e.2 state memory).1.spans

/-- A span a door makes of a traced span of the call. -/
def DoorRequest.MadeOfSpan (request : DoorRequest) (s : NormalizedSpan) (span : Span) : Prop :=
  ∃ service schema scopeSpans, (scopeSpans.scope, span) ∈ request.traced ∧
    SpanOf session (.tool toolUseId) scopeSpans.scope span ∧
      s = normalizeScoped deps prices service schema scopeSpans span

/-- A span that is none of the call's: it has not the call's key nor the ids of a span of
it, and as a tool span of the session it is counted as another call. -/
structure Stranger (kept : String) (requests : List DoorRequest) (p : Preparation)
    (s : NormalizedSpan) : Prop where
  mark : CallLedger.mark s ≠ some (Call.tool toolUseId).key
  derived : s.spanId ≠ hexEncode ((Call.tool toolUseId).spanId deps)
  sent : ∀ request ∈ requests, ∀ x ∈ request.traced, SpanOf session (.tool toolUseId) x.1 x.2 →
    idsOf s ≠ (hexEncode x.2.traceId, hexEncode x.2.spanId)
  counted : s.sessionId = some session → Sessions.isToolCall s = true →
    ∃ other, Agent.toolCallId (p.prepare s) = some other ∧ other ≠ kept

/-- A tool call of a session is told by events that report its failure and by traced spans,
among whatever else arrives; `kept` is what every request leaves of its id. -/
structure FailureTold (kept : String) (requests : List DoorRequest) : Prop where
  named : toolUseId ≠ ""
  readable : kept ≠ ""
  same : ∀ request ∈ requests, keptText request.preparation toolUseId = kept
  event : ∃ request ∈ requests, ∃ e ∈ request.events deps,
    EventOf deps session (.tool toolUseId) e.1 e.2
  traced : ∃ request ∈ requests, ∃ x ∈ request.traced, SpanOf session (.tool toolUseId) x.1 x.2
  failing : ∀ request ∈ requests, ∀ e ∈ request.events deps,
    EventOf deps session (.tool toolUseId) e.1 e.2 → ReportsFailure deps e.2
  /-- A span of a trace has an id of its own, and none is the derived one. -/
  own : ∀ request ∈ requests, ∀ x ∈ request.traced, SpanOf session (.tool toolUseId) x.1 x.2 →
    x.2.spanId ≠ (Call.tool toolUseId).spanId deps ∧
      ∀ request' ∈ requests, ∀ y ∈ request'.traced, SpanOf session (.tool toolUseId) y.1 y.2 →
        x.2.traceId = y.2.traceId → x.2.spanId = y.2.spanId → x.2 = y.2
  others : ∀ before request after, requests = before ++ request :: after →
    ∀ s ∈ request.spans deps prices policy (ingestAll deps prices policy before).memory,
      request.MadeOfEvent deps prices policy session toolUseId s ∨
        (∃ span, request.MadeOfSpan deps prices session toolUseId s span) ∨
          Stranger deps session toolUseId kept requests request.preparation s

/-- Where `request` stands, an event of the call arrives while the call is not remembered. -/
def ArrivesUnknown (before : List DoorRequest) (request : DoorRequest) : Prop :=
  (∃ e ∈ request.events deps, EventOf deps session (.tool toolUseId) e.1 e.2) ∧
    (Call.tool toolUseId).key ∉ (ingestAll deps prices policy before).ledger.set

end Made

section Run

variable {policy : LogsPolicy} {kept : String} {requests : List DoorRequest}

/-- What is stored: of each request what the ledger left by the requests before it keeps. -/
theorem mem_stored_ingestAll {x : NormalizedSpan} :
    x ∈ (ingestAll deps prices policy requests).stored ↔
      ∃ before request after, requests = before ++ request :: after ∧
        ∃ s ∈ ((ingestAll deps prices policy before).ledger.keptOf (request.spans deps prices policy
          (ingestAll deps prices policy before).memory)).1, x = request.preparation.prepare s := by
  have appended (node : LogsNode) (request : DoorRequest) :
      (ingestRequest deps prices policy node request).stored = node.stored ++
        (node.ledger.keptOf (request.spans deps prices policy node.memory)).1.map
          request.preparation.prepare := by
    rw [(ingestRequest_eq deps prices policy node request).2, CallLedger.ingestBatch_eq]
  unfold ingestAll
  rw [mem_outputs_foldl LogsNode.stored _ appended]
  simp only [List.not_mem_nil, false_or, List.mem_map, eq_comm]

theorem exists_madeOfEvent {request : DoorRequest} {e : RecordCtx × LogRecord}
    (member : e ∈ request.events deps) (event : EventOf deps session (.tool toolUseId) e.1 e.2)
    (on : policy ≠ .off) (memory : Remembered) :
    ∃ s ∈ request.spans deps prices policy memory,
      request.MadeOfEvent deps prices policy session toolUseId s := by
  cases request with
  | traces req p => cases member
  | logs req p =>
    obtain ⟨before, after, split⟩ := List.append_of_mem member
    have mapped := fun state memory => mapRecord_event deps prices event on state memory
    let before' := before.foldl (mapNext deps prices policy) ({}, {}, memory)
    obtain ⟨s, isSpan, -⟩ := mapped before'.2.1 before'.2.2
    have made : s ∈ (mapRecord deps prices policy e.1 e.2 before'.2.1 before'.2.2).1.spans := by
      rw [isSpan]
      exact List.mem_singleton_self s
    exact ⟨s, (mem_foldl_mapNext deps prices policy).mpr (.inr ⟨before, e, after, split, made⟩),
      e, member, event, _, _, made⟩

theorem exists_madeOfSpan {request : DoorRequest} {x : Option Scope × Span}
    (member : x ∈ request.traced) (sent : SpanOf session (.tool toolUseId) x.1 x.2)
    (memory : Remembered) : ∃ s ∈ request.spans deps prices policy memory,
      request.MadeOfSpan deps prices session toolUseId s x.2 := by
  cases request with
  | logs req p => cases member
  | traces req p =>
    obtain ⟨resourceSpans, inRequest, scopeSpans, inResource, scope, inScope⟩ :=
      mem_tracedSpans.mp member
    rw [scope] at sent
    refine ⟨_, mem_normalizeRequest.mpr ⟨_, _, scopeSpans, x.2,
      ⟨resourceSpans, inRequest, rfl, rfl, inResource, inScope⟩, rfl⟩, _, _, scopeSpans, ?_, sent,
      rfl⟩
    rw [← scope]
    exact member

variable {deps prices} (told : FailureTold deps prices policy session toolUseId kept requests)

include told in
theorem madeOfEvent_spec {request : DoorRequest} (arrived : request ∈ requests)
    {s : NormalizedSpan} (made : request.MadeOfEvent deps prices policy session toolUseId s)
    (on : policy ≠ .off) :
    CopyOf deps session (.tool toolUseId) s ∧
      s.spanId = hexEncode ((Call.tool toolUseId).spanId deps) ∧
      CallLedger.anchorOf s = none ∧ Agent.failed s = true := by
  obtain ⟨e, member, event, state, memory, isMade⟩ := made
  obtain ⟨s', mapped, spec⟩ :=
    mapRecord_failure deps prices event (told.failing request arrived e member event) on
  rw [mapped] at isMade
  rw [List.mem_singleton.mp isMade]
  exact spec

include told in
theorem madeOfSpan_spec {request : DoorRequest} {s : NormalizedSpan} {span : Span}
    (made : request.MadeOfSpan deps prices session toolUseId s span) :
    CopyOf deps session (.tool toolUseId) s ∧
      idsOf s = (hexEncode span.traceId, hexEncode span.spanId) ∧
      CallLedger.Free s ∧ (Agent.failed s = true ↔ TracedFailure span) := by
  obtain ⟨service, schema, scopeSpans, member, sent, rfl⟩ := made
  obtain ⟨copy, traceId, spanId⟩ :=
    copyOf_normalizeScoped deps prices sent told.named service schema
  obtain ⟨failed, free⟩ := failed_normalizeScoped deps prices sent told.named service schema
  exact ⟨copy, Prod.ext traceId spanId, free, failed⟩

include told in
/-- A copy of the call is counted by what is left of the call's id. -/
theorem counted_of_copy {request : DoorRequest} (arrived : request ∈ requests)
    {s : NormalizedSpan} (copy : CopyOf deps session (.tool toolUseId) s) :
    (request.preparation.prepare s).sessionId = some session ∧
      Sessions.isToolCall (request.preparation.prepare s) = true ∧
      Agent.toolCallId (request.preparation.prepare s) = some kept := by
  have carried := getElem?_prepare request.preparation s (by decide) (copy.tool toolUseId rfl)
  rw [told.same request arrived] at carried
  refine ⟨(sessionId_prepare _ s).trans copy.session, ?_, ?_⟩
  · rw [Sessions.isToolCall, isKind_prepare, isKind_prepare, Agent.isKind, Agent.isKind, copy.kind]
    show (!eqIgnoreAsciiCase "TOOL" "LLM" && eqIgnoreAsciiCase "TOOL" "TOOL") = true
    decide
  · simp [Agent.toolCallId, Agent.toolCallIdKeys, Agent.firstStr, Agent.strAt, carried, Json.asStr,
      told.readable]

/-! ## What is stored of the call -/

include told in
/-- A stored span is one of a traced span of the call, one of an event that arrived while the
call was not remembered, or none of the call's. -/
theorem stored_cases (on : policy ≠ .off) {x : NormalizedSpan}
    (stored : x ∈ (ingestAll deps prices policy requests).stored) :
    ∃ before request after, requests = before ++ request :: after ∧
      ∃ s, x = request.preparation.prepare s ∧
        ((request.MadeOfEvent deps prices policy session toolUseId s ∧
            ArrivesUnknown deps prices policy session toolUseId before request) ∨
          (∃ span, request.MadeOfSpan deps prices session toolUseId s span) ∨
          Stranger deps session toolUseId kept requests request.preparation s) := by
  obtain ⟨before, request, after, split, s, inBatch, rfl⟩ :=
    (mem_stored_ingestAll deps prices).mp stored
  refine ⟨before, request, after, split, s, rfl, ?_⟩
  have arrived : request ∈ requests := by simp [split]
  have made := CallLedger.subset_keptOf _ _ inBatch
  cases told.others before request after split s made with
  | inr other => exact .inr other
  | inl event =>
    left
    obtain ⟨copy, -, unanchored, -⟩ := madeOfEvent_spec told arrived event on
    have key := copy.mark
    rw [CallLedger.mark, unanchored, Option.none_or] at key
    rw [CallLedger.keptOf_of_named made copy.named] at inBatch
    cases CallLedger.free_or_new_of_mem_filterFrom inBatch with
    | inl free => simp [CallLedger.Free, unanchored, key] at free
    | inr new =>
      obtain ⟨k, hasKey, unknown, -⟩ := new
      rw [key, Option.some.injEq] at hasKey
      obtain ⟨e, member, isEvent, -⟩ := id event
      exact ⟨event, ⟨e, member, isEvent⟩, hasKey ▸ unknown⟩

include told in
/-- Every traced span of the call is stored. -/
theorem stored_of_traced {request : DoorRequest} (arrived : request ∈ requests)
    {x : Option Scope × Span} (member : x ∈ request.traced)
    (sent : SpanOf session (.tool toolUseId) x.1 x.2) :
    ∃ s, request.MadeOfSpan deps prices session toolUseId s x.2 ∧
      request.preparation.prepare s ∈ (ingestAll deps prices policy requests).stored := by
  obtain ⟨before, after, split⟩ := List.append_of_mem arrived
  obtain ⟨s, made, isSpan⟩ := exists_madeOfSpan deps prices member sent
    (ingestAll deps prices policy before).memory
  have free := (madeOfSpan_spec told isSpan).2.2.1
  exact ⟨s, isSpan, (mem_stored_ingestAll deps prices).mpr
    ⟨before, request, after, split, s, CallLedger.mem_keptOf_of_free made free, rfl⟩⟩

include told in
/-- Of the events of a call that is not remembered one is stored. -/
theorem stored_of_unknown (on : policy ≠ .off) {before after : List DoorRequest}
    {request : DoorRequest} (split : requests = before ++ request :: after)
    (unknown : ArrivesUnknown deps prices policy session toolUseId before request) :
    ∃ s, request.MadeOfEvent deps prices policy session toolUseId s ∧
      request.preparation.prepare s ∈ (ingestAll deps prices policy requests).stored := by
  obtain ⟨⟨e, member, event⟩, fresh⟩ := unknown
  have arrived : request ∈ requests := by simp [split]
  obtain ⟨s, made, isEvent⟩ := exists_madeOfEvent deps prices member event on
    (ingestAll deps prices policy before).memory
  obtain ⟨copy, -⟩ := madeOfEvent_spec told arrived isEvent on
  obtain ⟨s', inBatch, marked⟩ :=
    CallLedger.exists_kept_of_unknown made copy.named copy.mark fresh
  refine ⟨s', ?_, (mem_stored_ingestAll deps prices).mpr
    ⟨before, request, after, split, s', inBatch, rfl⟩⟩
  obtain own | ⟨span, -, -, scopeSpans, traced, -⟩ | stranger :=
    told.others before request after split s' (CallLedger.subset_keptOf _ _ inBatch)
  · exact own
  · -- events and traced spans do not arrive in one request
    cases request with
    | logs req p => cases traced
    | traces req p => cases member
  · exact absurd marked stranger.mark

/-! ## What the rollup counts -/

theorem isToolCall_prepare (p : Preparation) (s : NormalizedSpan) :
    Sessions.isToolCall (p.prepare s) = Sessions.isToolCall s := by
  rw [Sessions.isToolCall, Sessions.isToolCall, isKind_prepare, isKind_prepare]

theorem mem_toolSpans {spans : List NormalizedSpan} {s : NormalizedSpan} :
    s ∈ Sessions.toolSpans spans session ↔
      s ∈ spans ∧ s.sessionId = some session ∧ Sessions.isToolCall s = true := by
  simp only [Sessions.toolSpans, List.mem_filter, decide_eq_true_eq, and_assoc]

include told in
/-- Every stored tool span of the session is counted by a call id, the call's own spans by
the call's. -/
theorem toolCallId_of_stored (on : policy ≠ .off) {row : NormalizedSpan}
    (stored : row ∈ (ingestAll deps prices policy requests).stored)
    (inSession : row.sessionId = some session) (isTool : Sessions.isToolCall row = true) :
    ∃ id, Agent.toolCallId row = some id := by
  obtain ⟨before, request, after, split, s, rfl, made⟩ := stored_cases told on stored
  have arrived : request ∈ requests := by simp [split]
  obtain ⟨event, -⟩ | ⟨span, isSpan⟩ | stranger := made
  · exact ⟨kept, (counted_of_copy told arrived (madeOfEvent_spec told arrived event on).1).2.2⟩
  · exact ⟨kept, (counted_of_copy told arrived (madeOfSpan_spec told isSpan).1).2.2⟩
  · rw [sessionId_prepare] at inSession
    rw [isToolCall_prepare] at isTool
    obtain ⟨other, carried, -⟩ := stranger.counted inSession isTool
    exact ⟨other, carried⟩

theorem identity_of_id {s : NormalizedSpan} {id : String} (carried : Agent.toolCallId s = some id) :
    Sessions.callIdentity s = "id:" ++ id := by
  rw [Sessions.callIdentity, carried]

include told in
/-- The row that is shown of a traced span of the call is one of that span. -/
theorem row_of_traced (on : policy ≠ .off) {request : DoorRequest} (arrived : request ∈ requests)
    {x : Option Scope × Span} (member : x ∈ request.traced)
    (sent : SpanOf session (.tool toolUseId) x.1 x.2) {row : NormalizedSpan}
    (stored : row ∈ (ingestAll deps prices policy requests).stored)
    (ids : idsOf row = (hexEncode x.2.traceId, hexEncode x.2.spanId)) :
    ∃ request' ∈ requests, ∃ s, row = request'.preparation.prepare s ∧
      request'.MadeOfSpan deps prices session toolUseId s x.2 := by
  obtain ⟨before, request', after, split, s, rfl, made⟩ := stored_cases told on stored
  have arrived' : request' ∈ requests := by simp [split]
  rw [idsOf_prepare] at ids
  obtain ⟨derived, unique⟩ := told.own request arrived x member sent
  obtain ⟨event, -⟩ | ⟨span, isSpan⟩ | stranger := made
  · have spanId := (madeOfEvent_spec told arrived' event on).2.1
    rw [show s.spanId = _ from congrArg Prod.snd ids] at spanId
    exact absurd (hexEncode_inj spanId) derived
  · have ids' := (madeOfSpan_spec told isSpan).2.1
    rw [ids, Prod.mk.injEq] at ids'
    obtain ⟨service, schema, scopeSpans, member', sent', -⟩ := id isSpan
    have same := unique request' arrived' _ member' sent' (hexEncode_inj ids'.1)
      (hexEncode_inj ids'.2)
    refine ⟨request', arrived', s, rfl, ?_⟩
    rw [same]
    exact isSpan
  · exact absurd ids (stranger.sent request arrived x member sent)

include told in
/-- The row that is shown of an event of the call is one of an event. -/
theorem row_of_event (on : policy ≠ .off) {row : NormalizedSpan}
    (stored : row ∈ (ingestAll deps prices policy requests).stored)
    (spanId : row.spanId = hexEncode ((Call.tool toolUseId).spanId deps)) :
    ∃ request ∈ requests, ∃ s, row = request.preparation.prepare s ∧
      request.MadeOfEvent deps prices policy session toolUseId s := by
  obtain ⟨before, request, after, split, s, rfl, made⟩ := stored_cases told on stored
  have arrived : request ∈ requests := by simp [split]
  rw [spanId_prepare] at spanId
  obtain ⟨event, -⟩ | ⟨span, isSpan⟩ | stranger := made
  · exact ⟨request, arrived, s, rfl, event⟩
  · have ids := congrArg Prod.snd (madeOfSpan_spec told isSpan).2.1
    obtain ⟨service, schema, scopeSpans, member, sent, -⟩ := isSpan
    have same : hexEncode span.spanId = hexEncode ((Call.tool toolUseId).spanId deps) :=
      ids.symm.trans spanId
    exact absurd (hexEncode_inj same) (told.own request arrived _ member sent).1
  · exact absurd spanId stranger.derived

include told in
/-- The call is counted as failed if a traced span of it reports the failure, or an event
arrives while the call is not remembered, and else it is not. -/
theorem mem_failedCalls_iff (on : policy ≠ .off) {rows : List NormalizedSpan}
    (read : ReadsOnce (ingestAll deps prices policy requests).stored rows) :
    "id:" ++ kept ∈ Sessions.failedCalls deps rows session ↔
      (∃ request ∈ requests, ∃ x ∈ request.traced, SpanOf session (.tool toolUseId) x.1 x.2 ∧
        TracedFailure x.2) ∨
      ∃ before request after, requests = before ++ request :: after ∧
        ArrivesUnknown deps prices policy session toolUseId before request := by
  rw [Sessions.mem_failedCalls]
  constructor
  · intro counted
    obtain ⟨row, member, identity, failed⟩ := counted
    obtain ⟨shown, inSession, isTool⟩ := mem_toolSpans.mp member
    obtain ⟨before, request, after, split, s, rfl, made⟩ :=
      stored_cases told on (read.stored row shown)
    have arrived : request ∈ requests := by simp [split]
    rw [failed_prepare] at failed
    obtain ⟨-, unknown⟩ | ⟨span, isSpan⟩ | stranger := made
    · exact .inr ⟨before, request, after, split, unknown⟩
    · left
      have reports := (madeOfSpan_spec told isSpan).2.2.2.mp failed
      obtain ⟨service, schema, scopeSpans, sentIn, sent, -⟩ := isSpan
      exact ⟨request, arrived, (scopeSpans.scope, span), sentIn, sent, reports⟩
    · rw [sessionId_prepare] at inSession
      rw [isToolCall_prepare] at isTool
      obtain ⟨other, carried, different⟩ := stranger.counted inSession isTool
      rw [identity_of_id carried, String.append_right_inj] at identity
      exact absurd identity different
  · -- the row that is shown for a stored span of the call is counted as the call
    have counted {request : DoorRequest} (arrived : request ∈ requests) {s : NormalizedSpan}
        (shown : request.preparation.prepare s ∈ rows)
        (copy : CopyOf deps session (.tool toolUseId) s) (failed : Agent.failed s = true) :
        ∃ row ∈ Sessions.toolSpans rows session, Sessions.callIdentity row = "id:" ++ kept ∧
          Agent.failed row = true := by
      obtain ⟨inSession, isTool, carried⟩ := counted_of_copy told arrived copy
      exact ⟨_, mem_toolSpans.mpr ⟨shown, inSession, isTool⟩, identity_of_id carried,
        (failed_prepare _ s).trans failed⟩
    intro reported
    -- the span that was sent failed, or an unknown event reported it
    cases reported with
    | inl traced =>
      obtain ⟨request, arrived, x, member, sent, reports⟩ := traced
      obtain ⟨s, isSpan, stored⟩ := stored_of_traced told arrived member sent
      obtain ⟨row, shown, ids⟩ := List.mem_map.mp (read.all _ stored)
      rw [idsOf_prepare, (madeOfSpan_spec told isSpan).2.1] at ids
      obtain ⟨request', arrived', s', rfl, isSpan'⟩ :=
        row_of_traced told on arrived member sent (read.stored row shown) ids
      obtain ⟨copy, -, -, fails⟩ := madeOfSpan_spec told isSpan'
      exact counted arrived' shown copy (fails.mpr reports)
    | inr unknown =>
      obtain ⟨before, request, after, split, unknown⟩ := unknown
      have arrived : request ∈ requests := by simp [split]
      obtain ⟨s, event, stored⟩ := stored_of_unknown told on split unknown
      obtain ⟨row, shown, ids⟩ := List.mem_map.mp (read.all _ stored)
      have spanId : row.spanId = hexEncode ((Call.tool toolUseId).spanId deps) :=
        ((congrArg Prod.snd ids).trans (spanId_prepare _ s)).trans
          (madeOfEvent_spec told arrived event on).2.1
      obtain ⟨request', arrived', s', rfl, event'⟩ :=
        row_of_event told on (read.stored row shown) spanId
      obtain ⟨copy, -, -, failed⟩ := madeOfEvent_spec told arrived' event' on
      exact counted arrived' shown copy failed

/-! ## When the call is remembered -/

include told in
/-- As long as nothing is forgotten, a call is remembered from its first signal on. -/
theorem known_iff_described (on : policy ≠ .off) {before after : List DoorRequest}
    (split : requests = before ++ after)
    (fits : (ingestAll deps prices policy before).ledger.Fits) :
    (Call.tool toolUseId).key ∈ (ingestAll deps prices policy before).ledger.set ↔
      ∃ request ∈ before, request.Describes deps session (.tool toolUseId) := by
  induction before using List.reverseRecOn generalizing after with
  | nil => simp [ingestAll, Std.ExtTreeSet.not_mem_empty]
  | append_singleton before request inductionHypothesis =>
    have split' : requests = before ++ request :: after := by simp [split]
    have arrived : request ∈ requests := by simp [split']
    have ingested : ingestAll deps prices policy (before ++ [request]) =
        ingestRequest deps prices policy (ingestAll deps prices policy before) request := by
      simp [ingestAll]
    rw [ingested] at fits ⊢
    have earlier := inductionHypothesis split' (fits_of_ingestRequest fits)
    rw [(ingestRequest_eq deps prices policy _ request).1] at fits ⊢
    rw [mem_ingestBatch fits, earlier]
    simp only [List.mem_append, List.mem_singleton, or_and_right, exists_or, exists_eq_left]
    -- one of the batch's spans has the key when the request has a signal of the call
    have options := told.others before request after split'
    have describes {s : NormalizedSpan} (marked : CallLedger.mark s = some (Call.tool toolUseId).key)
        (made : s ∈ request.spans deps prices policy
          (ingestAll deps prices policy before).memory) :
        request.Describes deps session (.tool toolUseId) := by
      obtain ⟨e, member, event, -⟩ | ⟨span, -, -, scopeSpans, member, sent, -⟩ | stranger :=
        options s made
      · exact .inl ⟨e, member, event⟩
      · exact .inr ⟨(scopeSpans.scope, span), member, sent⟩
      · exact absurd marked stranger.mark
    constructor
    · intro known
      cases known with
      | inl old => exact .inl old
      | inr new =>
        right
        unfold CallLedger.keptOf at new
        split at new
        · have found := (CallLedger.marked_of_mem_keys new).resolve_left List.not_mem_nil
          obtain ⟨s, inBatch, marked⟩ := found
          exact describes marked ((CallLedger.filterFrom_sublist _ _ _).subset inBatch)
        · cases new
    · intro known
      cases known with
      | inl old => exact .inl old
      | inr new =>
        obtain ⟨s, made, copy⟩ : ∃ s ∈ request.spans deps prices policy
            (ingestAll deps prices policy before).memory,
            CopyOf deps session (.tool toolUseId) s := by
          cases new with
          | inl event =>
            obtain ⟨e, member, isEvent⟩ := event
            obtain ⟨s, made, isMade⟩ := exists_madeOfEvent deps prices member isEvent on _
            exact ⟨s, made, (madeOfEvent_spec told arrived isMade on).1⟩
          | inr traced =>
            obtain ⟨x, member, sent⟩ := traced
            obtain ⟨s, made, isMade⟩ := exists_madeOfSpan deps prices member sent _
            exact ⟨s, made, (madeOfSpan_spec told isMade).1⟩
        rw [CallLedger.keptOf_of_named made copy.named]
        cases CallLedger.known_of_mem made copy.mark with
        | inl old => exact .inl (earlier.mp old)
        | inr new => exact .inr new

theorem fits_of_ingestAll {before after : List DoorRequest}
    (fits : (ingestAll deps prices policy (before ++ after)).ledger.Fits) :
    (ingestAll deps prices policy before).ledger.Fits := by
  induction after using List.reverseRecOn with
  | nil => rwa [List.append_nil] at fits
  | append_singleton after request inductionHypothesis =>
    rw [← List.append_assoc] at fits
    rw [ingestAll, List.foldl_append] at fits
    exact inductionHypothesis (fits_of_ingestRequest fits)

include told in
/-- A tool failure survives the de-duplication exactly when the traced span reports it too or
an event that reports it is stored before the call is remembered: while the ledger forgets
nothing, before any other signal of the call. -/
theorem failure_counted_iff (on : policy ≠ .off) {s : Store.Live}
    (reached : Store.ProcessReachable s) (idle : s.proc.writer = .idle)
    (stored : s.appended = (ingestAll deps prices policy requests).stored) :
    ∃ rows, Store.query s.proc.hot s.disk.cold none Store.usizeMax = some rows ∧
      (∀ truncated, ∃ report, Sessions.rollup deps rows session truncated = some report ∧
        report.toolErrors = (Sessions.failedCalls deps rows session).length) ∧
      ("id:" ++ kept ∈ Sessions.failedCalls deps rows session ↔
        (∃ request ∈ requests, ∃ x ∈ request.traced, SpanOf session (.tool toolUseId) x.1 x.2 ∧
          TracedFailure x.2) ∨
        ∃ before request after, requests = before ++ request :: after ∧
          ArrivesUnknown deps prices policy session toolUseId before request) ∧
      ((ingestAll deps prices policy requests).ledger.Fits →
        ∀ before request after, requests = before ++ request :: after →
          (ArrivesUnknown deps prices policy session toolUseId before request ↔
            (∃ e ∈ request.events deps, EventOf deps session (.tool toolUseId) e.1 e.2) ∧
              ∀ earlier ∈ before, ¬ earlier.Describes deps session (.tool toolUseId))) := by
  obtain ⟨rows, queried, once, inStore, shown⟩ := Store.query_of_process reached idle
  rw [stored] at inStore shown
  have read := readsOnce_of_keys once inStore shown
  refine ⟨rows, queried, ?_, mem_failedCalls_iff told on read, ?_⟩
  -- the session has a row, that of the traced span
  · intro truncated
    obtain ⟨request, arrived, x, member, sent⟩ := told.traced
    obtain ⟨s, isSpan, isStored⟩ := stored_of_traced told arrived member sent
    obtain ⟨row, listed, ids⟩ := List.mem_map.mp (read.all _ isStored)
    rw [idsOf_prepare, (madeOfSpan_spec told isSpan).2.1] at ids
    obtain ⟨request', arrived', s', rfl, isSpan'⟩ :=
      row_of_traced told on arrived member sent (read.stored row listed) ids
    have inSession := (counted_of_copy told arrived' (madeOfSpan_spec told isSpan').1).1
    obtain ⟨report, rolled⟩ := Option.isSome_iff_exists.mp
      (Sessions.rollup_isSome deps listed inSession truncated)
    refine ⟨report, rolled, Sessions.toolErrors_eq deps rolled ?_⟩
    intro row member
    obtain ⟨listed, inSession, isTool⟩ := mem_toolSpans.mp member
    obtain ⟨id, carried⟩ := toolCallId_of_stored told on (read.stored row listed) inSession isTool
    rw [carried]
    rfl
  · intro fits before request after split
    rw [split] at fits
    unfold ArrivesUnknown
    rw [known_iff_described told on split (fits_of_ingestAll fits)]
    simp only [not_exists, not_and]

end Run

/-! ## Both orders -/

/-- Nothing but signals of the call makes nothing but spans of it. -/
theorem made_of_signals {policy : LogsPolicy} {request : DoorRequest}
    (events : ∀ e ∈ request.events deps, EventOf deps session (.tool toolUseId) e.1 e.2)
    (traced : ∀ x ∈ request.traced, SpanOf session (.tool toolUseId) x.1 x.2)
    (memory : Remembered) {s : NormalizedSpan}
    (made : s ∈ request.spans deps prices policy memory) :
    request.MadeOfEvent deps prices policy session toolUseId s ∨
      ∃ span, request.MadeOfSpan deps prices session toolUseId s span := by
  cases request with
  | logs req p =>
    left
    obtain never | ⟨before, e, after, split, isMade⟩ :=
      (mem_foldl_mapNext deps prices policy).mp made
    · cases never
    · have member : e ∈ recordsOf deps req := by simp [split]
      exact ⟨e, member, events e member, _, _, isMade⟩
  | traces req p =>
    right
    obtain ⟨service, schema, scopeSpans, span,
      ⟨resourceSpans, inRequest, -, -, inResource, inScope⟩, rfl⟩ := mem_normalizeRequest.mp made
    have member : (scopeSpans.scope, span) ∈ (DoorRequest.traces req p).traced :=
      mem_tracedSpans.mpr ⟨resourceSpans, inRequest, scopeSpans, inResource, rfl, inScope⟩
    exact ⟨span, service, schema, scopeSpans, member, traced _ member, rfl⟩

/-- A tool result that reports a failure. -/
def failedResult : LogRecord :=
  { callEvent "s1" (.tool "toolu_1") with
    attributes := callAttributes "s1" (.tool "toolu_1") ++ [kvStr "success" "false"] }

def failedResultRequest : DoorRequest :=
  .logs { resourceLogs := [{ scopeLogs := [
    { scope := some { name := "com.anthropic.claude_code.events" }
      logRecords := [failedResult] }] }] } plainly

/-- The span of the same call, with no status. -/
def tracedToolRequest : DoorRequest :=
  .traces (spanRequest "s1" [(.tool "toolu_1", List.replicate 8 2)]) plainly

theorem eventName_failedResult (deps : Deps) :
    eventName deps failedResult = some "claude_code.tool_result" := by
  have unnamed : attrStr deps failedResult.attributes "event.name" = none := by
    apply Absent.attrStr
    simp [failedResult, callAttributes, kvStr, Absent, Call.idKey, Call.kindKey]
  simp [eventName, unnamed]
  rfl

theorem eventOf_failedResult (deps : Deps) {ctx : RecordCtx} (mine : ClaudeCode.isMine ctx = true) :
    EventOf deps "s1" (.tool "toolu_1") ctx failedResult := by
  have naming : Naming "s1" (.tool "toolu_1") failedResult.attributes := by
    have carries {key value : String} (there : kvStr key value ∈ failedResult.attributes)
        (agrees : Agrees failedResult.attributes key value) :
        Carries failedResult.attributes key value := ⟨⟨_, there, rfl⟩, agrees⟩
    constructor
    · apply carries <;> simp [failedResult, callAttributes, kvStr, Agrees, Call.idKey, Call.kindKey]
    · apply carries <;> simp [failedResult, callAttributes, kvStr, Agrees, Call.idKey, Call.kindKey]
    · simp [failedResult, callAttributes, kvStr, Agrees, Call.idKeys, Agent.toolCallIdKeys,
        Call.idKey, Call.kindKey]
    · simp [failedResult, callAttributes, kvStr, Agrees, Call.idKey, Call.kindKey]
    · simp [failedResult, callAttributes, kvStr, Absent, Call.idKey, Call.kindKey,
        ClaudeCode.callKey, ClaudeCode.callAnchor]
  exact ⟨mine, ⟨_, eventName_failedResult deps, .inl (by decide)⟩, naming⟩

theorem reportsFailure_failedResult (deps : Deps) : ReportsFailure deps failedResult := by
  refine ⟨_, eventName_failedResult deps, .inl ⟨by decide, ?_⟩⟩
  simp [failedResult, callAttributes, kvStr, attrStr, attr, Call.idKey, Call.kindKey, scalarString]

theorem signals_failedTool (deps : Deps) {request : DoorRequest}
    (either : request = failedResultRequest ∨ request = tracedToolRequest) :
    (∀ e ∈ request.events deps, EventOf deps "s1" (.tool "toolu_1") e.1 e.2 ∧ e.2 = failedResult) ∧
      ∀ x ∈ request.traced, SpanOf "s1" (.tool "toolu_1") x.1 x.2 ∧
        x.2 = callSpan "s1" (.tool "toolu_1") (List.replicate 8 2) := by
  cases either with
  | inl isLogs =>
    rw [isLogs]
    refine ⟨fun e member => ?_, fun x member => (by cases member)⟩
    have mine : ClaudeCode.isMine
        { serviceName := serviceName deps none
          scopeName := nonEmpty "com.anthropic.claude_code.events"
          scopeVersion := nonEmpty "" } = true := by
      have prefixed : (nonEmpty "com.anthropic.claude_code.events").any
          (startsWith · "com.anthropic.claude_code") = true := by decide
      simp [ClaudeCode.isMine, prefixed]
    simp only [failedResultRequest, DoorRequest.events, recordsOf, List.flatMap_cons,
      List.flatMap_nil, List.append_nil, List.map_cons, List.map_nil, List.mem_singleton] at member
    rw [member]
    exact ⟨eventOf_failedResult deps mine, rfl⟩
  | inr isTraces =>
    rw [isTraces]
    refine ⟨fun e member => (by cases member), fun x member => ?_⟩
    simp only [tracedToolRequest, DoorRequest.traced, tracedSpans, spanRequest, List.flatMap_cons,
      List.flatMap_nil, List.append_nil, List.map_cons, List.map_nil, List.mem_singleton] at member
    rw [member]
    exact ⟨spanOf_callSpan "s1" (.tool "toolu_1") _, rfl⟩

theorem failureTold_failedTool {requests : List DoorRequest}
    (either : ∀ request ∈ requests, request = failedResultRequest ∨ request = tracedToolRequest)
    (event : failedResultRequest ∈ requests) (traced : tracedToolRequest ∈ requests) :
    FailureTold .hashing noPrices .genai "s1" "toolu_1" "toolu_1" requests where
  named := by decide
  readable := by decide
  same := by
    intro request arrived
    cases either request arrived with
    | inl isLogs => rw [isLogs]; rfl
    | inr isTraces => rw [isTraces]; rfl
  event := by
    have member : (failedResultRequest.events .hashing).length = 1 := rfl
    obtain ⟨e, isEvent⟩ := List.exists_mem_of_length_pos (show 0 < _ by rw [member]; decide)
    exact ⟨_, event, e, isEvent, ((signals_failedTool .hashing (.inl rfl)).1 e isEvent).1⟩
  traced := by
    have member : tracedToolRequest.traced.length = 1 := rfl
    obtain ⟨x, isSpan⟩ := List.exists_mem_of_length_pos (show 0 < _ by rw [member]; decide)
    exact ⟨_, traced, x, isSpan, ((signals_failedTool .hashing (.inr rfl)).2 x isSpan).1⟩
  failing := by
    intro request arrived e member _
    rw [((signals_failedTool .hashing (either request arrived)).1 e member).2]
    exact reportsFailure_failedResult .hashing
  -- both requests carry the one span id
  own := by
    intro request arrived x member _
    have span := ((signals_failedTool .hashing (either request arrived)).2 x member).2
    refine ⟨?_, fun request' arrived' y member' _ _ _ => ?_⟩
    · rw [span]
      show List.replicate 8 (2 : UInt8) ≠ _
      decide +kernel
    · rw [span, ((signals_failedTool .hashing (either request' arrived')).2 y member').2]
  others := by
    intro before request after split s made
    have arrived : request ∈ requests := by simp [split]
    obtain ⟨events, traced⟩ := signals_failedTool .hashing (either request arrived)
    exact (made_of_signals .hashing noPrices (fun e member => (events e member).1)
      (fun x member => (traced x member).1) _ made).imp_right .inl

/-- Event first: the failure is counted. -/
theorem failure_counted_iff_eventFirst : ∃ s : Store.Live, ∃ rows report,
    s.appended =
      (ingestAll .hashing noPrices .genai [failedResultRequest, tracedToolRequest]).stored ∧
    Store.query s.proc.hot s.disk.cold none Store.usizeMax = some rows ∧
      Sessions.rollup .hashing rows "s1" false = some report ∧
      "id:toolu_1" ∈ Sessions.failedCalls .hashing rows "s1" ∧ 0 < report.toolErrors := by
  obtain ⟨s, reached, idle, stored⟩ := Store.exists_process
    (ingestAll .hashing noPrices .genai [failedResultRequest, tracedToolRequest]).stored
  obtain ⟨rows, queried, reports, counted, unknown⟩ := failure_counted_iff
    (failureTold_failedTool (by simp) (by simp) (by simp))
    (show LogsPolicy.genai ≠ .off by decide) reached idle stored
  obtain ⟨report, rolled, errors⟩ := reports false
  have fits : (ingestAll .hashing noPrices .genai
      [failedResultRequest, tracedToolRequest]).ledger.Fits := by
    unfold CallLedger.Fits
    decide
  have member : (failedResultRequest.events .hashing).length = 1 := rfl
  obtain ⟨e, isEvent⟩ := List.exists_mem_of_length_pos (show 0 < _ by rw [member]; decide)
  have first := (unknown fits [] failedResultRequest [tracedToolRequest] rfl).mpr
    ⟨⟨e, isEvent, ((signals_failedTool .hashing (.inl rfl)).1 e isEvent).1⟩, by simp⟩
  have failed := counted.mpr (.inr ⟨_, _, _, rfl, first⟩)
  refine ⟨s, rows, report, stored, queried, rolled, failed, ?_⟩
  rw [errors]
  exact List.length_pos_of_mem failed

/-- Span first: the event is dropped, and the rollup counts no error. -/
theorem failure_dropped_spanFirst : ∃ s : Store.Live, ∃ rows report,
    FailureTold .hashing noPrices .genai "s1" "toolu_1" "toolu_1"
        [tracedToolRequest, failedResultRequest] ∧
      Store.ProcessReachable s ∧ s.proc.writer = .idle ∧
      s.appended =
        (ingestAll .hashing noPrices .genai [tracedToolRequest, failedResultRequest]).stored ∧
      Store.query s.proc.hot s.disk.cold none Store.usizeMax = some rows ∧
      Sessions.rollup .hashing rows "s1" false = some report ∧
      report.toolCalls = 1 ∧ report.toolErrors = 0 := by
  let stored :=
    (ingestAll .hashing noPrices .genai [tracedToolRequest, failedResultRequest]).stored
  obtain ⟨s, reached, idle, appended⟩ := Store.exists_process stored
  obtain ⟨rows, queried, -, inStore, shown⟩ := Store.query_of_process reached idle
  rw [appended] at inStore shown
  -- the traced copy came first and has no status, the event's is dropped
  have fields : ∀ x ∈ stored, x.sessionId = some "s1" ∧ Sessions.isToolCall x = true ∧
      Agent.toolCallId x = some "toolu_1" ∧ Agent.failed x = false := by decide
  obtain ⟨row, listed⟩ : ∃ row, row ∈ rows := by
    obtain ⟨x, member⟩ : ∃ x, x ∈ stored := List.exists_mem_of_ne_nil _ (by decide)
    obtain ⟨row, listed, -⟩ := List.mem_map.mp (shown x member)
    exact ⟨row, listed⟩
  obtain ⟨inSession, isTool, carried, -⟩ := fields row (inStore row listed)
  obtain ⟨report, rolled⟩ := Option.isSome_iff_exists.mp
    (Sessions.rollup_isSome .hashing listed inSession false)
  have counts := Sessions.rollup_counts .hashing rolled
    (fun x member _ _ => by rw [(fields x (inStore x member)).2.2.1]; rfl)
    (List.nodup_singleton "id:toolu_1")
    (by
      intro k
      rw [List.mem_singleton]
      constructor
      · intro isKey
        exact ⟨row, listed, inSession, isTool, isKey ▸ identity_of_id carried⟩
      · intro found
        obtain ⟨x, member, -, -, isKey⟩ := found
        rw [← isKey, identity_of_id (fields x (inStore x member)).2.2.1]
        rfl)
  have errors : report.toolErrors = 0 := by
    rw [Sessions.toolErrors_eq .hashing rolled, List.length_eq_zero_iff,
      List.eq_nil_iff_forall_not_mem]
    · intro k counted
      obtain ⟨x, member, -, failed⟩ := (Sessions.mem_failedCalls .hashing).mp counted
      rw [(fields x (inStore x (mem_toolSpans.mp member).1)).2.2.2] at failed
      cases failed
    · intro x member
      rw [(fields x (inStore x (mem_toolSpans.mp member).1)).2.2.1]
      rfl
  exact ⟨s, rows, report, failureTold_failedTool (by simp) (by simp) (by simp), reached, idle,
    appended, queried, rolled, counts.2, errors⟩

end Evald.Logs
