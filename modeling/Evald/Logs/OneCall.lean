import Evald.Logs.Exporter
import Evald.Logs.Signals
import Evald.Redact
import Evald.Sessions
import Evald.Store.Contents

/-! # One call, counted once

The requests of a session arrive at both doors, one after another, and describe its calls
in any order, each as often as it likes.  An API call is stored once, by its key; a tool
call may be stored twice, and the session rollup counts it by its id
(`calls_counted_once`).
-/

namespace Evald.Logs

open Evald.Lib Evald.Otlp Evald.Normalize Evald.Traces

/-! ## What is left of a text -/

/-- What redacting and offloading make of the text of an attribute. -/
def keptText (p : Preparation) (text : String) : String :=
  let text := p.scrub text
  if p.cap = 0 ∨ startsWith text Preparation.blobRefPrefix then text
  else (p.offloaded text).getD text

/-- An attribute that holds a text, unless it is the offload's own. -/
theorem getElem?_prepare (p : Preparation) (s : NormalizedSpan) {key text : String}
    (other : startsWith key "evald.blob." = false)
    (held : s.rawAttributes[key]? = some (.str text)) :
    (p.prepare s).rawAttributes[key]? = some (.str (keptText p text)) := by
  have scrubbed : (p.scrubSpan s).rawAttributes[key]? = some (.str (p.scrub text)) := by
    simp [Preparation.scrubSpan, held, Preparation.scrubJson]
  -- the two fields add only keys of the offload's own
  have insertOwn (raw : Attributes) (own : String) (isOwn : startsWith own "evald.blob." = true)
      (v : Json) : (raw.insert own v)[key]? = raw[key]? := by
    rw [getElem?_insert_if, if_neg]
    intro same
    rw [same, isOwn] at other
    cases other
  have input (s : NormalizedSpan) : (p.offloadInput s).rawAttributes[key]? = s.rawAttributes[key]? := by
    unfold Preparation.offloadInput
    split
    · rfl
    · split
      · rfl
      · exact insertOwn _ _ (by decide) _
  have output (s : NormalizedSpan) :
      (p.offloadOutput s).rawAttributes[key]? = s.rawAttributes[key]? := by
    unfold Preparation.offloadOutput
    split
    · rfl
    · split
      · rfl
      · exact insertOwn _ _ (by decide) _
  unfold Preparation.prepare Preparation.offload keptText
  by_cases disabled : p.cap = 0
  · simp [disabled, scrubbed]
  · have both := (output (p.offloadInput (p.scrubSpan s))).trans (input (p.scrubSpan s))
    simp only [disabled, if_false, false_or]
    rw [Std.ExtTreeMap.getElem?_map, both, scrubbed]
    simp only [Option.map_some, Preparation.offloadAttribute, other, Bool.false_eq_true, if_false]
    split
    · rfl
    · cases p.offloaded (p.scrub text) <;> rfl

/-! ## Requests at both doors -/

/-- One request, with the redactor and the blob store it meets. -/
inductive DoorRequest where
  | logs (req : ExportLogsServiceRequest) (p : Preparation)
  | traces (req : ExportTraceServiceRequest) (p : Preparation)

def DoorRequest.preparation : DoorRequest → Preparation
  | .logs _ p => p
  | .traces _ p => p

/-- The spans of a request, each with its scope. -/
def tracedSpans (req : ExportTraceServiceRequest) : List (Option Scope × Span) :=
  req.resourceSpans.flatMap (fun resourceSpans =>
    resourceSpans.scopeSpans.flatMap (fun scopeSpans =>
      scopeSpans.spans.map (fun span => (scopeSpans.scope, span))))

def DoorRequest.traced : DoorRequest → List (Option Scope × Span)
  | .logs _ _ => []
  | .traces req _ => tracedSpans req

section Requests

variable (deps : Deps) (prices : Pricing.PriceTable) (policy : LogsPolicy)

def DoorRequest.events : DoorRequest → List (RecordCtx × LogRecord)
  | .logs req _ => recordsOf deps req
  | .traces _ _ => []

/-- The spans a door makes of a request. -/
def DoorRequest.spans (memory : Remembered) : DoorRequest → List NormalizedSpan
  | .logs req _ => (normalizeLogs deps prices policy memory req).1.spans
  | .traces req _ => normalizeRequest deps prices req

/-- Map a request and store its spans. -/
def ingestRequest (node : LogsNode) : DoorRequest → LogsNode
  | .logs req p => exportLogs deps prices policy node p req
  | .traces req p =>
    let (appended, ledger) := ingestBatch node.ledger p (normalizeRequest deps prices req)
    { node with ledger := ledger, stored := node.stored ++ appended }

def ingestAll (requests : List DoorRequest) : LogsNode :=
  requests.foldl (ingestRequest deps prices policy) {}

theorem ingestRequest_eq (node : LogsNode) (request : DoorRequest) :
    (ingestRequest deps prices policy node request).ledger =
        (ingestBatch node.ledger request.preparation
          (request.spans deps prices policy node.memory)).2 ∧
      (ingestRequest deps prices policy node request).stored = node.stored ++
        (ingestBatch node.ledger request.preparation
          (request.spans deps prices policy node.memory)).1 := by
  cases request with
  | logs req p => exact ⟨rfl, rfl⟩
  | traces req p => exact ⟨rfl, rfl⟩

/-- The request has an event or a span of the call. -/
def DoorRequest.Describes (session : String) (call : Call) (request : DoorRequest) : Prop :=
  (∃ e ∈ request.events deps, EventOf deps session call e.1 e.2) ∨
    ∃ x ∈ request.traced, SpanOf session call x.1 x.2

/-- The requests tell the calls of one session: every call is described, and what they
hold describes a call or is a phase of one. -/
structure Tells (session : String) (calls : List Call) (requests : List DoorRequest) :
    Prop where
  distinct : calls.Nodup
  named : ∀ call ∈ calls, call.id ≠ ""
  complete : ∀ call ∈ calls, ∃ request ∈ requests, request.Describes deps session call
  events : ∀ request ∈ requests, ∀ e ∈ request.events deps,
    ∃ call ∈ calls, EventOf deps session call e.1 e.2
  traced : ∀ request ∈ requests, ∀ x ∈ request.traced,
    (∃ call ∈ calls, SpanOf session call x.1 x.2) ∨ PhaseOf x.1 x.2

/-- No two spans of a trace go by one id, whoever gave it. -/
structure IdsApart (calls : List Call) (requests : List DoorRequest) : Prop where
  /-- The ids derived from the calls' own. -/
  derived : ∀ call ∈ calls, ∀ call' ∈ calls, call.spanId deps = call'.spanId deps → call = call'
  /-- The ids the spans were sent with. -/
  sent : ∀ request ∈ requests, ∀ x ∈ request.traced, ∀ request' ∈ requests,
    ∀ y ∈ request'.traced, x.2.traceId = y.2.traceId → x.2.spanId = y.2.spanId → x.2 = y.2
  /-- One of each, where the sent id is kept. -/
  mixed : ∀ request ∈ requests, ∀ x ∈ request.traced, x.2.name ≠ ClaudeCode.llmSpanName →
    ∀ call ∈ calls, x.2.spanId ≠ call.spanId deps

/-- `kept` is what every request leaves of a tool call's id, and it tells the calls apart. -/
structure IdsKept (calls : List Call) (requests : List DoorRequest) (kept : String → String) :
    Prop where
  same : ∀ request ∈ requests, ∀ toolUseId, Call.tool toolUseId ∈ calls →
    keptText request.preparation toolUseId = kept toolUseId
  nonempty : ∀ toolUseId, Call.tool toolUseId ∈ calls → kept toolUseId ≠ ""
  apart : ∀ toolUseId toolUseId', Call.tool toolUseId ∈ calls → Call.tool toolUseId' ∈ calls →
    kept toolUseId = kept toolUseId' → toolUseId = toolUseId'

end Requests

/-! ## What the spans of a request are about -/

/-- The call a span that was made of the requests is about, if it is about one. -/
inductive About (deps : Deps) (session : String) (calls : List Call)
    (requests : List DoorRequest) : Option Call → NormalizedSpan → Prop where
  | derived {call : Call} {s : NormalizedSpan} (listed : call ∈ calls)
      (copy : CopyOf deps session call s) (id : s.spanId = hexEncode (call.spanId deps)) :
      About deps session calls requests (some call) s
  | sent {toolUseId : String} {s : NormalizedSpan} {request : DoorRequest}
      {x : Option Scope × Span} (listed : Call.tool toolUseId ∈ calls)
      (copy : CopyOf deps session (.tool toolUseId) s) (arrived : request ∈ requests)
      (member : x ∈ request.traced) (span : SpanOf session (.tool toolUseId) x.1 x.2)
      (ids : idsOf s = (hexEncode x.2.traceId, hexEncode x.2.spanId)) :
      About deps session calls requests (some (.tool toolUseId)) s
  | phase {s : NormalizedSpan} {request : DoorRequest} {x : Option Scope × Span}
      (uncounted : Uncounted s) (arrived : request ∈ requests) (member : x ∈ request.traced)
      (span : PhaseOf x.1 x.2)
      (ids : idsOf s = (hexEncode x.2.traceId, hexEncode x.2.spanId)) :
      About deps session calls requests none s

section About

variable {deps : Deps} {prices : Pricing.PriceTable} {policy : LogsPolicy} {session : String}
  {calls : List Call} {requests : List DoorRequest}

theorem About.copy {call : Call} {s : NormalizedSpan}
    (about : About deps session calls requests (some call) s) :
    call ∈ calls ∧ CopyOf deps session call s := by
  cases about with
  | derived listed copy id => exact ⟨listed, copy⟩
  | sent listed copy arrived member span ids => exact ⟨listed, copy⟩

/-- A span names the call it is of. -/
theorem SpanOf.unique {call call' : Call} {scope scope' : Option Scope} {span : Span}
    (first : SpanOf session call scope span) (second : SpanOf session call' scope' span) :
    call = call' := by
  have names : call.spanName = call'.spanName := first.name.symm.trans second.name
  have same (key id id' : String) (here : Carries span.attributes key id)
      (there : Carries span.attributes key id') : id = id' := by
    have both := here.raw.symm.trans there.raw
    simpa using both
  have differ : ClaudeCode.llmSpanName ≠ ClaudeCode.toolSpanName := by decide
  cases call with
  | llm requestId =>
    cases call' with
    | llm requestId' => exact congrArg Call.llm (same _ _ _ first.naming.id second.naming.id)
    | tool toolUseId => exact absurd names differ
  | tool toolUseId =>
    cases call' with
    | llm requestId => exact absurd names.symm differ
    | tool toolUseId' => exact congrArg Call.tool (same _ _ _ first.naming.id second.naming.id)

/-- The ids of two spans that keep those they were sent with. -/
theorem sent_of_ids (apart : IdsApart deps calls requests) {s s' : NormalizedSpan}
    (ids : idsOf s = idsOf s') {request request' : DoorRequest} {x y : Option Scope × Span}
    (arrived : request ∈ requests) (member : x ∈ request.traced)
    (here : idsOf s = (hexEncode x.2.traceId, hexEncode x.2.spanId))
    (arrived' : request' ∈ requests) (member' : y ∈ request'.traced)
    (there : idsOf s' = (hexEncode y.2.traceId, hexEncode y.2.spanId)) : x.2 = y.2 := by
  rw [here, there, Prod.mk.injEq] at ids
  exact apart.sent request arrived x member request' arrived' y member' (hexEncode_inj ids.1)
    (hexEncode_inj ids.2)

/-- No span that keeps its id has the derived id of a call. -/
theorem not_derived (apart : IdsApart deps calls requests) {s s' : NormalizedSpan}
    (ids : idsOf s = idsOf s') {call : Call} (listed : call ∈ calls)
    (here : s.spanId = hexEncode (call.spanId deps)) {request : DoorRequest}
    {x : Option Scope × Span} (arrived : request ∈ requests) (member : x ∈ request.traced)
    (there : idsOf s' = (hexEncode x.2.traceId, hexEncode x.2.spanId))
    (keeps : x.2.name ≠ ClaudeCode.llmSpanName) : False := by
  rw [there] at ids
  have spanId : s.spanId = hexEncode x.2.spanId := congrArg Prod.snd ids
  rw [here] at spanId
  exact apart.mixed request arrived x member keeps call listed (hexEncode_inj spanId).symm

/-- Spans that share their ids are about the same. -/
theorem About.unique (apart : IdsApart deps calls requests) {a b : Option Call}
    {s s' : NormalizedSpan} (first : About deps session calls requests a s)
    (second : About deps session calls requests b s') (ids : idsOf s = idsOf s') : a = b := by
  have tool {x : Option Scope × Span} {toolUseId : String}
      (span : SpanOf session (.tool toolUseId) x.1 x.2) : x.2.name ≠ ClaudeCode.llmSpanName := by
    rw [span.name]
    show ClaudeCode.toolSpanName ≠ ClaudeCode.llmSpanName
    decide
  have phase {x : Option Scope × Span} (span : PhaseOf x.1 x.2) :
      x.2.name ≠ ClaudeCode.llmSpanName ∧ x.2.name ≠ ClaudeCode.toolSpanName := by
    rw [span.name]
    decide
  -- a derived id is no sent one, and a phase has a name of its own
  cases first with
  | derived listed copy id =>
    cases second with
    | derived listed' copy' id' =>
      have spanIds : s.spanId = s'.spanId := congrArg Prod.snd ids
      rw [id, id'] at spanIds
      rw [apart.derived _ listed _ listed' (hexEncode_inj spanIds)]
    | sent listed' copy' arrived member span sentIds =>
      exact (not_derived apart ids listed id arrived member sentIds (tool span)).elim
    | phase uncounted arrived member span sentIds =>
      exact (not_derived apart ids listed id arrived member sentIds (phase span).1).elim
  | sent listed copy arrived member span sentIds =>
    cases second with
    | derived listed' copy' id' =>
      exact (not_derived apart ids.symm listed' id' arrived member sentIds (tool span)).elim
    | sent listed' copy' arrived' member' span' sentIds' =>
      have same := sent_of_ids apart ids arrived member sentIds arrived' member' sentIds'
      rw [span.unique (same ▸ span')]
    | phase uncounted arrived' member' span' sentIds' =>
      have same := sent_of_ids apart ids arrived member sentIds arrived' member' sentIds'
      exact absurd (same ▸ span.name) (phase span').2
  | phase uncounted arrived member span sentIds =>
    cases second with
    | derived listed' copy' id' =>
      exact (not_derived apart ids.symm listed' id' arrived member sentIds (phase span).1).elim
    | sent listed' copy' arrived' member' span' sentIds' =>
      have same := sent_of_ids apart ids arrived member sentIds arrived' member' sentIds'
      exact absurd (same ▸ span'.name) (phase span).2
    | phase uncounted' arrived' member' span' sentIds' => rfl

/-! ## What a door makes of a request -/

/-- Records that are all events of calls become a copy each. -/
theorem foldl_mapNext_events (prices : Pricing.PriceTable) (on : policy ≠ .off)
    (records : List (RecordCtx × LogRecord))
    (events : ∀ e ∈ records, ∃ call ∈ calls, EventOf deps session call e.1 e.2)
    (batch : LogsBatch) (state : RequestState) (memory : Remembered) :
    ∃ made : List NormalizedSpan,
      (records.foldl (mapNext deps prices policy) (batch, state, memory)).1.spans =
          batch.spans ++ made ∧
        (∀ s ∈ made, ∃ call ∈ calls, CopyOf deps session call s ∧
          s.spanId = hexEncode (call.spanId deps)) ∧
        ∀ e ∈ records, ∀ call, EventOf deps session call e.1 e.2 →
          ∃ s ∈ made, CopyOf deps session call s := by
  induction records generalizing batch with
  | nil => exact ⟨[], by simp, by simp, by simp⟩
  | cons e records inductionHypothesis =>
    obtain ⟨call, listed, event⟩ := events e List.mem_cons_self
    obtain ⟨s, mapped, copy⟩ := mapRecord_event deps prices event on state memory
    obtain ⟨made, spans, copies, all⟩ := inductionHypothesis
      (fun x member => events x (List.mem_cons_of_mem _ member)) (batch.note (.span s))
    refine ⟨s :: made, ?_, fun x member => ?_, fun x member other isEvent => ?_⟩
    · rw [List.foldl_cons, mapNext]
      simp only [mapped]
      rw [spans]
      simp [LogsBatch.note, Mapped.spans]
    · cases member with
      | head => exact ⟨call, listed, copy⟩
      | tail _ later => exact copies x later
    · cases member with
      | head =>
        obtain ⟨s', mapped', copy'⟩ := mapRecord_event deps prices isEvent on state memory
        rw [mapped] at mapped'
        cases mapped'
        exact ⟨s, List.mem_cons_self, copy'.1⟩
      | tail _ later =>
        obtain ⟨s', member', copy'⟩ := all x later other isEvent
        exact ⟨s', List.mem_cons_of_mem _ member', copy'⟩

theorem mem_normalizeRequest {req : ExportTraceServiceRequest} {s : NormalizedSpan} :
    s ∈ normalizeRequest deps prices req ↔ ∃ service schema scopeSpans span,
      (∃ resourceSpans ∈ req.resourceSpans, service = serviceName deps resourceSpans.resource ∧
        schema = nonEmpty resourceSpans.schemaUrl ∧ scopeSpans ∈ resourceSpans.scopeSpans ∧
        span ∈ scopeSpans.spans) ∧
      s = normalizeScoped deps prices service schema scopeSpans span := by
  unfold normalizeRequest
  simp only [List.mem_flatMap, List.mem_map]
  constructor
  · rintro ⟨resourceSpans, inRequest, scopeSpans, inResource, span, inScope, rfl⟩
    exact ⟨_, _, scopeSpans, span, ⟨resourceSpans, inRequest, rfl, rfl, inResource, inScope⟩, rfl⟩
  · rintro ⟨_, _, scopeSpans, span, ⟨resourceSpans, inRequest, rfl, rfl, inResource, inScope⟩, rfl⟩
    exact ⟨resourceSpans, inRequest, scopeSpans, inResource, span, inScope, rfl⟩

theorem mem_tracedSpans {req : ExportTraceServiceRequest} {x : Option Scope × Span} :
    x ∈ tracedSpans req ↔ ∃ resourceSpans ∈ req.resourceSpans,
      ∃ scopeSpans ∈ resourceSpans.scopeSpans, x.1 = scopeSpans.scope ∧ x.2 ∈ scopeSpans.spans := by
  unfold tracedSpans
  simp only [List.mem_flatMap, List.mem_map]
  constructor
  · rintro ⟨resourceSpans, inRequest, scopeSpans, inResource, span, inScope, rfl⟩
    exact ⟨resourceSpans, inRequest, scopeSpans, inResource, rfl, inScope⟩
  · rintro ⟨resourceSpans, inRequest, scopeSpans, inResource, scope, inScope⟩
    exact ⟨resourceSpans, inRequest, scopeSpans, inResource, x.2, inScope, by rw [← scope]⟩

/-- Every span a door makes is about a call of the session or a phase. -/
theorem about_spans (told : Tells deps session calls requests) (on : policy ≠ .off)
    {request : DoorRequest} (arrived : request ∈ requests) (memory : Remembered)
    {s : NormalizedSpan} (made : s ∈ request.spans deps prices policy memory) :
    ∃ a, About deps session calls requests a s := by
  cases request with
  | logs req p =>
    obtain ⟨spans, all, copies, -⟩ := foldl_mapNext_events prices on (recordsOf deps req)
      (told.events _ arrived) {} {} memory
    change s ∈ ((recordsOf deps req).foldl (mapNext deps prices policy) ({}, {}, memory)).1.spans
      at made
    rw [all] at made
    obtain ⟨call, listed, copy, spanId⟩ := copies s made
    exact ⟨_, .derived listed copy spanId⟩
  | traces req p =>
    obtain ⟨service, schema, scopeSpans, span, ⟨resourceSpans, inRequest, -, -, inResource, inScope⟩,
      rfl⟩ := mem_normalizeRequest.mp made
    have member : (scopeSpans.scope, span) ∈ (DoorRequest.traces req p).traced :=
      mem_tracedSpans.mpr ⟨resourceSpans, inRequest, scopeSpans, inResource, rfl, inScope⟩
    cases told.traced _ arrived _ member with
    | inl ofCall =>
      obtain ⟨call, listed, isSpan⟩ := ofCall
      obtain ⟨copy, traceId, spanId⟩ := copyOf_normalizeScoped deps prices isSpan
        (told.named call listed) service schema
      cases call with
      | llm requestId => exact ⟨_, .derived listed copy spanId⟩
      | tool toolUseId =>
        exact ⟨_, .sent listed copy arrived member isSpan (by rw [idsOf, traceId, spanId])⟩
    | inr phase =>
      obtain ⟨uncounted, traceId, spanId⟩ :=
        uncounted_normalizeScoped deps prices phase service schema
      exact ⟨_, .phase uncounted arrived member phase (by rw [idsOf, traceId, spanId])⟩

/-- A call that a request describes is among them. -/
theorem copy_of_describes (told : Tells deps session calls requests) (on : policy ≠ .off)
    {request : DoorRequest} (arrived : request ∈ requests) (memory : Remembered) {call : Call}
    (listed : call ∈ calls) (described : request.Describes deps session call) :
    ∃ s ∈ request.spans deps prices policy memory, CopyOf deps session call s := by
  cases request with
  | logs req p =>
    cases described with
    | inr never =>
      obtain ⟨x, member, -⟩ := never
      cases member
    | inl event =>
      obtain ⟨e, member, isEvent⟩ := event
      obtain ⟨spans, all, -, each⟩ := foldl_mapNext_events prices on (recordsOf deps req)
        (told.events _ arrived) {} {} memory
      obtain ⟨s, made, copy⟩ := each e member call isEvent
      refine ⟨s, ?_, copy⟩
      show s ∈ ((recordsOf deps req).foldl (mapNext deps prices policy) ({}, {}, memory)).1.spans
      rw [all]
      exact made
  | traces req p =>
    cases described with
    | inl never =>
      obtain ⟨e, member, -⟩ := never
      cases member
    | inr span =>
      obtain ⟨x, member, isSpan⟩ := span
      obtain ⟨resourceSpans, inRequest, scopeSpans, inResource, scope, inScope⟩ :=
        mem_tracedSpans.mp member
      rw [scope] at isSpan
      have made := copyOf_normalizeScoped deps prices isSpan (told.named call listed)
        (serviceName deps resourceSpans.resource) (nonEmpty resourceSpans.schemaUrl)
      refine ⟨_, ?_, made.1⟩
      exact mem_normalizeRequest.mpr ⟨_, _, scopeSpans, x.2,
        ⟨resourceSpans, inRequest, rfl, rfl, inResource, inScope⟩, rfl⟩

/-! ## The batches one after another -/

theorem About.mark {a : Option Call} {s : NormalizedSpan}
    (about : About deps session calls requests a s) :
    CallLedger.mark s = a.map Call.key ∧ startsWith s.name "claude_code." = true := by
  cases about with
  | derived listed copy id => exact ⟨copy.mark, copy.named⟩
  | sent listed copy arrived member span ids => exact ⟨copy.mark, copy.named⟩
  | phase uncounted arrived member span ids => exact ⟨uncounted.mark, uncounted.named⟩

/-- A span of the LLM kind is about an API call, and may be dropped. -/
theorem About.llm {a : Option Call} {s : NormalizedSpan}
    (about : About deps session calls requests a s) (isLlm : Agent.isKind s "LLM" = true) :
    ∃ requestId, a = some (.llm requestId) ∧ Call.llm requestId ∈ calls ∧
      s.spanId = hexEncode ((Call.llm requestId).spanId deps) ∧ CallLedger.anchorOf s = none ∧
      CallLedger.keyOf s = some (Call.llm requestId).key := by
  cases a with
  | none =>
    cases about with
    | phase uncounted arrived member span ids => simp [Agent.isKind, uncounted.kind] at isLlm
  | some call =>
    obtain ⟨listed, copy⟩ := about.copy
    cases call with
    | tool toolUseId =>
      rw [Agent.isKind, copy.kind] at isLlm
      have other : eqIgnoreAsciiCase "TOOL" "LLM" = false := by decide
      exact absurd isLlm (by simp [Call.kind, other])
    | llm requestId =>
      obtain ⟨unanchored, spanId⟩ := copy.llm requestId rfl
      have mark := copy.mark
      rw [CallLedger.mark, unanchored, Option.none_or] at mark
      exact ⟨requestId, rfl, listed, spanId, unanchored, mark⟩

/-- A stored span, with what it was made of. -/
def StoredAs (deps : Deps) (session : String) (calls : List Call) (requests : List DoorRequest)
    (a : Option Call) (x : NormalizedSpan) : Prop :=
  ∃ request ∈ requests, ∃ s, About deps session calls requests a s ∧
    x = request.preparation.prepare s

theorem isKind_prepare (p : Preparation) (s : NormalizedSpan) (kind : String) :
    Agent.isKind (p.prepare s) kind = Agent.isKind s kind := by
  have same : (p.prepare s).oiKind = s.oiKind := congrArg Reading.oiKind (readingOf_prepare p s)
  rw [Agent.isKind, Agent.isKind, same]

theorem spanId_prepare (p : Preparation) (s : NormalizedSpan) : (p.prepare s).spanId = s.spanId :=
  congrArg Reading.spanId (readingOf_prepare p s)

theorem idsOf_prepare (p : Preparation) (s : NormalizedSpan) : idsOf (p.prepare s) = idsOf s :=
  congrArg (fun reading => (reading.traceId, reading.spanId)) (readingOf_prepare p s)

theorem sessionId_prepare (p : Preparation) (s : NormalizedSpan) :
    (p.prepare s).sessionId = s.sessionId :=
  congrArg Reading.sessionId (readingOf_prepare p s)

/-- What holds of a node when the requests of `done` have been ingested. -/
structure Holds (deps : Deps) (session : String) (calls : List Call)
    (requests done : List DoorRequest) (node : LogsNode) : Prop where
  /-- Whatever is stored is about a call that is remembered, or a phase. -/
  stored : ∀ x ∈ node.stored, ∃ a, StoredAs deps session calls requests a x ∧
    ∀ call, a = some call → call.key ∈ node.ledger.set
  /-- What is remembered is stored. -/
  held : ∀ call ∈ calls, call.key ∈ node.ledger.set →
    ∃ x ∈ node.stored, StoredAs deps session calls requests (some call) x
  /-- What was described is remembered. -/
  told : ∀ request ∈ done, ∀ call ∈ calls, request.Describes deps session call →
    call.key ∈ node.ledger.set
  /-- No API call is stored twice. -/
  once : ((node.stored.filter (Agent.isKind · "LLM")).map NormalizedSpan.spanId).Nodup

/-- Every span a door makes of these requests may carry a key. -/
theorem keptOf_eq {ledger : CallLedger} {spans : List NormalizedSpan}
    (named : ∀ s ∈ spans, startsWith s.name "claude_code." = true) :
    ledger.keptOf spans = CallLedger.filterFrom ledger [] spans := by
  cases spans with
  | nil => rfl
  | cons s rest =>
    exact CallLedger.keptOf_of_named List.mem_cons_self (named s List.mem_cons_self)

/-- Two LLM spans of one batch are of two calls. -/
theorem once_filterFrom (apart : IdsApart deps calls requests) {ledger : CallLedger}
    {spans : List NormalizedSpan} (p : Preparation)
    (about : ∀ s ∈ spans, ∃ a, About deps session calls requests a s) :
    (((CallLedger.filterFrom ledger [] spans).1.map p.prepare).filter (Agent.isKind · "LLM")
      |>.map NormalizedSpan.spanId).Nodup := by
  rw [List.Nodup, List.pairwise_map, List.pairwise_filter, List.pairwise_map]
  apply (CallLedger.pairwise_filterFrom ledger [] spans).imp_of_mem
  intro a b inBatch inBatch' differ aKind bKind sameId
  have subset := (CallLedger.filterFrom_sublist ledger [] spans).subset
  rw [isKind_prepare] at aKind bKind
  obtain ⟨_, first⟩ := about a (subset inBatch)
  obtain ⟨_, second⟩ := about b (subset inBatch')
  obtain ⟨requestId, rfl, listed, spanId, -, -⟩ := first.llm aKind
  obtain ⟨requestId', rfl, listed', spanId', unanchored', key'⟩ := second.llm bKind
  rw [spanId_prepare, spanId_prepare, spanId, spanId'] at sameId
  have sameCall := apart.derived _ listed _ listed' (hexEncode_inj sameId)
  apply differ unanchored' _ key'
  rw [first.mark.1, sameCall]
  rfl

/-- One request keeps what holds. -/
theorem Holds.step (told : Tells deps session calls requests)
    (apart : IdsApart deps calls requests) (on : policy ≠ .off) {done : List DoorRequest}
    {node : LogsNode} (holds : Holds deps session calls requests done node)
    {request : DoorRequest} (arrived : request ∈ requests)
    (fits : (ingestRequest deps prices policy node request).ledger.Fits) :
    Holds deps session calls requests (done ++ [request])
      (ingestRequest deps prices policy node request) := by
  obtain ⟨ledger, stored⟩ := ingestRequest_eq deps prices policy node request
  have about : ∀ s ∈ request.spans deps prices policy node.memory,
      ∃ a, About deps session calls requests a s :=
    fun s made => about_spans told on arrived node.memory made
  have described (call : Call) (listed : call ∈ calls)
      (describes : request.Describes deps session call) :
      ∃ s ∈ request.spans deps prices policy node.memory, CopyOf deps session call s :=
    copy_of_describes told on arrived node.memory listed describes
  generalize request.spans deps prices policy node.memory = spans at ledger stored about described
  have kept : node.ledger.keptOf spans = CallLedger.filterFrom node.ledger [] spans := by
    apply keptOf_eq
    intro s made
    obtain ⟨a, isAbout⟩ := about s made
    exact isAbout.mark.2
  rw [ledger] at fits
  have known := mem_ingestBatch fits
  have appended : (ingestBatch node.ledger request.preparation spans).1 =
      (CallLedger.filterFrom node.ledger [] spans).1.map request.preparation.prepare := by
    rw [CallLedger.ingestBatch_eq, kept]
  rw [kept] at known
  have subset := (CallLedger.filterFrom_sublist node.ledger [] spans).subset
  have remembered {s : NormalizedSpan} (made : s ∈ spans) {call : Call}
      (mark : CallLedger.mark s = some call.key) :
      call.key ∈ (ingestRequest deps prices policy node request).ledger.set := by
    rw [ledger, known]
    exact CallLedger.known_of_mem made mark
  have older {k : String} (old : k ∈ node.ledger.set) :
      k ∈ (ingestRequest deps prices policy node request).ledger.set := by
    rw [ledger, known]
    exact .inl old
  constructor
  · intro x member
    rw [stored, appended] at member
    cases List.mem_append.mp member with
    | inl old =>
      obtain ⟨a, as, marked⟩ := holds.stored x old
      exact ⟨a, as, fun call isCall => older (marked call isCall)⟩
    | inr new =>
      obtain ⟨s, inBatch, rfl⟩ := List.mem_map.mp new
      obtain ⟨a, isAbout⟩ := about s (subset inBatch)
      refine ⟨a, ⟨request, arrived, s, isAbout, rfl⟩, fun call isCall => ?_⟩
      subst isCall
      exact remembered (subset inBatch) isAbout.mark.1
  · intro call listed marked
    rw [ledger, known] at marked
    rw [stored, appended]
    cases marked with
    | inl old =>
      obtain ⟨x, member, as⟩ := holds.held call listed old
      exact ⟨x, List.mem_append_left _ member, as⟩
    | inr new =>
      cases CallLedger.marked_of_mem_keys new with
      | inl never => cases never
      | inr found =>
        obtain ⟨s, inBatch, mark⟩ := found
        obtain ⟨a, isAbout⟩ := about s (subset inBatch)
        rw [isAbout.mark.1, Option.map_eq_some_iff] at mark
        obtain ⟨call', rfl, sameKey⟩ := mark
        rw [Call.key_inj sameKey] at isAbout
        exact ⟨_, List.mem_append_right _ (List.mem_map_of_mem inBatch), request, arrived, s,
          isAbout, rfl⟩
  · intro other member call listed describes
    cases List.mem_append.mp member with
    | inl before => exact older (holds.told other before call listed describes)
    | inr now =>
      rw [List.mem_singleton.mp now] at describes
      obtain ⟨s, made, copy⟩ := described call listed describes
      exact remembered made copy.mark
  · rw [stored, appended, List.filter_append, List.map_append, List.nodup_append]
    refine ⟨holds.once, once_filterFrom apart request.preparation about, ?_⟩
    -- an LLM span that is kept is of a call that was not remembered
    intro id old id' new same
    simp only [List.mem_map, List.mem_filter] at old new
    obtain ⟨x, ⟨member, xKind⟩, rfl⟩ := old
    obtain ⟨y, ⟨⟨s, inBatch, rfl⟩, yKind⟩, rfl⟩ := new
    obtain ⟨a, ⟨request', arrived', s', isAbout', rfl⟩, marked⟩ := holds.stored x member
    obtain ⟨_, isAbout⟩ := about s (subset inBatch)
    rw [isKind_prepare] at xKind yKind
    obtain ⟨requestId', rfl, listed', spanId', -, -⟩ := isAbout'.llm xKind
    obtain ⟨requestId, rfl, listed, spanId, unanchored, key⟩ := isAbout.llm yKind
    rw [spanId_prepare, spanId_prepare, spanId', spanId] at same
    have sameCall := apart.derived _ listed' _ listed (hexEncode_inj same)
    have remembered' := marked _ rfl
    rw [sameCall] at remembered'
    cases CallLedger.free_or_new_of_mem_filterFrom inBatch with
    | inl free => simp [CallLedger.Free, unanchored, key] at free
    | inr fresh =>
      obtain ⟨k, hasKey, unknown, -⟩ := fresh
      rw [key, Option.some.injEq] at hasKey
      exact unknown (hasKey ▸ remembered')

theorem fits_of_ingestRequest {node : LogsNode} {request : DoorRequest}
    (fits : (ingestRequest deps prices policy node request).ledger.Fits) : node.ledger.Fits := by
  rw [(ingestRequest_eq deps prices policy node request).1] at fits
  exact fits_of_ingestBatch fits

/-- Every run. -/
theorem holds_of_ingestAll (told : Tells deps session calls requests)
    (apart : IdsApart deps calls requests) (on : policy ≠ .off) {done : List DoorRequest}
    (arrived : ∀ request ∈ done, request ∈ requests)
    (fits : (ingestAll deps prices policy done).ledger.Fits) :
    Holds deps session calls requests done (ingestAll deps prices policy done) := by
  induction done using List.reverseRecOn with
  | nil =>
    constructor
    · intro x member
      cases member
    · intro call listed marked
      exact absurd marked Std.ExtTreeSet.not_mem_empty
    · intro request member
      cases member
    · exact .nil
  | append_singleton done request inductionHypothesis =>
    unfold ingestAll at fits inductionHypothesis ⊢
    rw [List.foldl_append] at fits ⊢
    have before := inductionHypothesis (fun r member => arrived r (List.mem_append_left _ member))
      (fits_of_ingestRequest fits)
    exact before.step told apart on (arrived request (by simp)) fits

/-- Stored spans that share their ids are about the same. -/
theorem StoredAs.unique (apart : IdsApart deps calls requests) {a b : Option Call}
    {x y : NormalizedSpan} (first : StoredAs deps session calls requests a x)
    (second : StoredAs deps session calls requests b y)
    (sameIds : idsOf x = idsOf y) : a = b := by
  obtain ⟨request, -, s, about, rfl⟩ := first
  obtain ⟨request', -, s', about', rfl⟩ := second
  rw [idsOf_prepare, idsOf_prepare] at sameIds
  exact about.unique apart about' sameIds

/-- What a reader sees of a stored span. -/
theorem StoredAs.fields {a : Option Call} {x : NormalizedSpan}
    (as : StoredAs deps session calls requests a x) :
    x.oiKind = a.map Call.kind ∧ (∀ call, a = some call → call ∈ calls ∧
      x.sessionId = some session) ∧
      ∀ requestId, a = some (.llm requestId) →
        x.spanId = hexEncode ((Call.llm requestId).spanId deps) := by
  obtain ⟨request, -, s, about, rfl⟩ := as
  have kind : (request.preparation.prepare s).oiKind = s.oiKind :=
    congrArg Reading.oiKind (readingOf_prepare request.preparation s)
  rw [kind, sessionId_prepare, spanId_prepare]
  cases a with
  | none =>
    cases about with
    | phase uncounted arrived member span ids =>
      simp [uncounted.kind]
  | some call =>
    obtain ⟨listed, copy⟩ := about.copy
    refine ⟨copy.kind, fun _ same => ?_, fun requestId same => ?_⟩
    · cases same
      exact ⟨listed, copy.session⟩
    · cases same
      exact (copy.llm requestId rfl).2

/-- A stored tool span carries what is left of the call's id. -/
theorem StoredAs.toolCallId {kept : String → String} (ids : IdsKept calls requests kept)
    {toolUseId : String} {x : NormalizedSpan}
    (as : StoredAs deps session calls requests (some (.tool toolUseId)) x) :
    Agent.toolCallId x = some (kept toolUseId) := by
  obtain ⟨request, arrived, s, about, rfl⟩ := as
  obtain ⟨listed, copy⟩ := about.copy
  have carried := getElem?_prepare request.preparation s (by decide) (copy.tool toolUseId rfl)
  rw [ids.same request arrived toolUseId listed] at carried
  have nonempty := ids.nonempty toolUseId listed
  simp [Agent.toolCallId, Agent.toolCallIdKeys, Agent.firstStr, Agent.strAt, carried, Json.asStr,
    nonempty]

end About

/-! ## What is counted -/

def Call.isLlm : Call → Bool
  | .llm _ => true
  | .tool _ => false

/-- The ids the rollup tells the tool calls apart by. -/
def toolIdentities (kept : String → String) (calls : List Call) : List String :=
  (calls.filter (fun call => !call.isLlm)).map (fun call => "id:" ++ kept call.id)

section Counted

variable {deps : Deps} {prices : Pricing.PriceTable} {policy : LogsPolicy} {session : String}
  {calls : List Call} {requests : List DoorRequest} {kept : String → String}

/-- What a read of a store's keys shows. -/
theorem readsOnce_of_keys {stored rows : List NormalizedSpan}
    (once : (rows.map Store.spanKey).Nodup) (inStore : ∀ x ∈ rows, x ∈ stored)
    (shown : ∀ x ∈ stored, Store.spanKey x ∈ rows.map Store.spanKey) : ReadsOnce stored rows where
  stored := inStore
  once := by
    apply (List.Nodup.of_map _ once).map_on
    intro x member y member' sameIds
    apply List.inj_on_of_nodup_map once member member'
    exact Store.spanKey_eq_iff.mpr (Prod.mk.injEq .. ▸ sameIds)
  all := by
    intro x member
    obtain ⟨row, listed, sameKey⟩ := List.mem_map.mp (shown x member)
    obtain ⟨traces, spans⟩ := Store.spanKey_eq_iff.mp sameKey
    exact List.mem_map.mpr ⟨row, listed, Prod.ext traces spans⟩

theorem StoredAs.isLlm {a : Option Call} {x : NormalizedSpan}
    (as : StoredAs deps session calls requests a x) :
    Agent.isKind x "LLM" = (a.map Call.isLlm).getD false := by
  rw [Agent.isKind, as.fields.1]
  cases a with
  | none => rfl
  | some call =>
    cases call with
    | llm requestId =>
      show eqIgnoreAsciiCase "LLM" "LLM" = true
      decide
    | tool toolUseId =>
      show eqIgnoreAsciiCase "TOOL" "LLM" = false
      decide

theorem StoredAs.isTool {a : Option Call} {x : NormalizedSpan}
    (as : StoredAs deps session calls requests a x) :
    Sessions.isToolCall x = (a.map (fun call => !call.isLlm)).getD false := by
  rw [Sessions.isToolCall, as.isLlm, Agent.isKind, as.fields.1]
  cases a with
  | none => rfl
  | some call =>
    cases call with
    | llm requestId => rfl
    | tool toolUseId =>
      show (!false && eqIgnoreAsciiCase "TOOL" "TOOL") = true
      decide

/-- A row is shown of every call. -/
theorem row_of_call {stored rows : List NormalizedSpan} (read : ReadsOnce stored rows)
    (apart : IdsApart deps calls requests)
    (about : ∀ x ∈ stored, ∃ a, StoredAs deps session calls requests a x) {call : Call}
    (held : ∃ x ∈ stored, StoredAs deps session calls requests (some call) x) :
    ∃ row ∈ rows, StoredAs deps session calls requests (some call) row := by
  obtain ⟨x, member, as⟩ := held
  obtain ⟨row, shown, sameIds⟩ := List.mem_map.mp (read.all x member)
  obtain ⟨b, as'⟩ := about row (read.stored row shown)
  rw [as'.unique apart as sameIds] at as'
  exact ⟨row, shown, as'⟩

/-- One LLM row for each API call. -/
theorem llm_rows {stored rows : List NormalizedSpan} (read : ReadsOnce stored rows)
    (apart : IdsApart deps calls requests) (distinct : calls.Nodup)
    (about : ∀ x ∈ stored, ∃ a, StoredAs deps session calls requests a x)
    (held : ∀ call ∈ calls, ∃ x ∈ stored, StoredAs deps session calls requests (some call) x)
    (once : ((stored.filter (Agent.isKind · "LLM")).map NormalizedSpan.spanId).Nodup) :
    ((rows.filter (Agent.isKind · "LLM")).map NormalizedSpan.spanId).Perm
      ((calls.filter Call.isLlm).map (fun call => hexEncode (call.spanId deps))) := by
  apply (List.perm_ext_iff_of_nodup _ _).mpr
  -- every model call has its row, and every row of one is a call
  · intro id
    simp only [List.mem_map, List.mem_filter]
    constructor
    · intro ⟨row, ⟨shown, isLlm⟩, sameId⟩
      obtain ⟨a, as⟩ := about row (read.stored row shown)
      rw [as.isLlm] at isLlm
      cases a with
      | none => cases isLlm
      | some call =>
        cases call with
        | tool toolUseId => cases isLlm
        | llm requestId =>
          obtain ⟨-, listed, spanId⟩ := as.fields
          exact ⟨.llm requestId, ⟨(listed _ rfl).1, rfl⟩, by rw [← sameId, spanId requestId rfl]⟩
    · intro ⟨call, ⟨listed, isLlm⟩, sameId⟩
      obtain ⟨row, shown, as⟩ := row_of_call read apart about (held call listed)
      cases call with
      | tool toolUseId => cases isLlm
      | llm requestId =>
        refine ⟨row, ⟨shown, ?_⟩, ?_⟩
        · rw [as.isLlm]
          rfl
        · rw [as.fields.2.2 requestId rfl, sameId]
  · -- an LLM span that is stored is told by its span id
    have rowsNodup := (List.Nodup.of_map _ read.once).filter (Agent.isKind · "LLM")
    apply rowsNodup.map_on
    intro x member y member' sameId
    simp only [List.mem_filter] at member member'
    apply List.inj_on_of_nodup_map once _ _ sameId
    · simp [read.stored x member.1, member.2]
    · simp [read.stored y member'.1, member'.2]
  · apply (distinct.filter Call.isLlm).map_on
    intro call listed call' listed' sameId
    exact apart.derived call (List.mem_of_mem_filter listed) call' (List.mem_of_mem_filter listed')
      (hexEncode_inj sameId)

theorem nodup_toolIdentities (ids : IdsKept calls requests kept) (distinct : calls.Nodup) :
    (toolIdentities kept calls).Nodup := by
  apply (distinct.filter _).map_on
  intro call listed call' listed' same
  rw [String.append_right_inj] at same
  simp only [List.mem_filter] at listed listed'
  cases call with
  | llm requestId => cases listed.2
  | tool toolUseId =>
    cases call' with
    | llm requestId => cases listed'.2
    | tool toolUseId' => rw [ids.apart _ _ listed.1 listed'.1 same]

/-- The rollup over such rows counts every call once. -/
theorem rollup_rows {stored rows : List NormalizedSpan} (read : ReadsOnce stored rows)
    (apart : IdsApart deps calls requests) (ids : IdsKept calls requests kept)
    (distinct : calls.Nodup)
    (about : ∀ x ∈ stored, ∃ a, StoredAs deps session calls requests a x)
    (held : ∀ call ∈ calls, ∃ x ∈ stored, StoredAs deps session calls requests (some call) x)
    (once : ((stored.filter (Agent.isKind · "LLM")).map NormalizedSpan.spanId).Nodup)
    {truncated : Bool} {report : Sessions.SessionRollup}
    (rolled : Sessions.rollup deps rows session truncated = some report) :
    report.llmCalls = (calls.filter Call.isLlm).length ∧
      report.toolCalls = (calls.filter (fun call => !call.isLlm)).length := by
  -- the tool call of a row of that kind
  have toolOf {row : NormalizedSpan} (shown : row ∈ rows)
      (isTool : Sessions.isToolCall row = true) : ∃ toolUseId, Call.tool toolUseId ∈ calls ∧
        Agent.toolCallId row = some (kept toolUseId) := by
    obtain ⟨a, as⟩ := about row (read.stored row shown)
    rw [as.isTool] at isTool
    cases a with
    | none => cases isTool
    | some call =>
      cases call with
      | llm requestId => cases isTool
      | tool toolUseId => exact ⟨toolUseId, (as.fields.2.1 _ rfl).1, as.toolCallId ids⟩
  obtain ⟨llm, tool⟩ := Sessions.rollup_counts deps rolled
    (fun row shown _ isTool => by
      obtain ⟨toolUseId, -, carried⟩ := toolOf shown isTool
      simp [carried])
    (nodup_toolIdentities ids distinct)
    (by
      intro k
      simp only [toolIdentities, List.mem_map, List.mem_filter]
      constructor
      · intro ⟨call, ⟨listed, isTool⟩, isKey⟩
        obtain ⟨row, shown, as⟩ := row_of_call read apart about (held call listed)
        cases call with
        | llm requestId => cases isTool
        | tool toolUseId =>
          refine ⟨row, shown, (as.fields.2.1 _ rfl).2, as.isTool, ?_⟩
          rw [Sessions.callIdentity, as.toolCallId ids, ← isKey]
          rfl
      · intro found
        obtain ⟨row, shown, -, isTool, isKey⟩ := found
        obtain ⟨toolUseId, listed, carried⟩ := toolOf shown isTool
        refine ⟨.tool toolUseId, ⟨listed, rfl⟩, ?_⟩
        rw [← isKey, Sessions.callIdentity, carried]
        rfl)
  constructor
  · have perm := llm_rows read apart distinct about held once
    have lengths := perm.length_eq
    rw [List.length_map, List.length_map] at lengths
    rw [llm, ← lengths, List.filter_filter]
    congr 1
    apply List.filter_congr
    intro row shown
    obtain ⟨a, as⟩ := about row (read.stored row shown)
    cases isLlm : Agent.isKind row "LLM" with
    | false => rfl
    | true =>
      rw [as.isLlm] at isLlm
      cases a with
      | none => cases isLlm
      | some call => simp [(as.fields.2.1 call rfl).2]
  · rw [tool, toolIdentities, List.length_map]

/-- Whichever signals describe the calls of a session, and in whatever order: a read of
everything shows one LLM span for each API call, and the session's rollup counts every call
once. -/
theorem calls_counted_once (told : Tells deps session calls requests)
    (apart : IdsApart deps calls requests) (ids : IdsKept calls requests kept)
    (on : policy ≠ .off) (fits : (ingestAll deps prices policy requests).ledger.Fits)
    {s : Store.Live} (reached : Store.ProcessReachable s) (idle : s.proc.writer = .idle)
    (stored : s.appended = (ingestAll deps prices policy requests).stored) :
    ∃ rows, Store.query s.proc.hot s.disk.cold none Store.usizeMax = some rows ∧
      ((rows.filter (Agent.isKind · "LLM")).map NormalizedSpan.spanId).Perm
        ((calls.filter Call.isLlm).map (fun call => hexEncode (call.spanId deps))) ∧
      (calls ≠ [] → ∀ truncated,
        (Sessions.rollup deps rows session truncated).isSome = true) ∧
      ∀ truncated report, Sessions.rollup deps rows session truncated = some report →
        report.llmCalls = (calls.filter Call.isLlm).length ∧
          report.toolCalls = (calls.filter (fun call => !call.isLlm)).length := by
  obtain ⟨rows, queried, once, inStore, shown⟩ := Store.query_of_process reached idle
  rw [stored] at inStore shown
  have read := readsOnce_of_keys once inStore shown
  have holds := holds_of_ingestAll told apart on (fun _ arrived => arrived) fits
  have about : ∀ x ∈ (ingestAll deps prices policy requests).stored,
      ∃ a, StoredAs deps session calls requests a x := by
    intro x member
    obtain ⟨a, as, -⟩ := holds.stored x member
    exact ⟨a, as⟩
  have held : ∀ call ∈ calls, ∃ x ∈ (ingestAll deps prices policy requests).stored,
      StoredAs deps session calls requests (some call) x := by
    intro call listed
    obtain ⟨request, arrived, describes⟩ := told.complete call listed
    exact holds.held call listed (holds.told request arrived call listed describes)
  refine ⟨rows, queried, llm_rows read apart told.distinct about held holds.once, ?_,
    fun truncated report rolled =>
      rollup_rows read apart ids told.distinct about held holds.once rolled⟩
  intro some truncated
  obtain ⟨call, listed⟩ := List.exists_mem_of_ne_nil calls some
  obtain ⟨row, member, as⟩ := row_of_call read apart about (held call listed)
  exact Sessions.rollup_isSome deps member (as.fields.2.1 call rfl).2 truncated

end Counted

/-! ## Signals as short as they can be -/

/-- What names a call, and what gives its span a kind. -/
def callAttributes (session : String) (call : Call) : List KeyValue :=
  [kvStr "session.id" session, kvStr call.idKey call.id, kvStr call.kindKey call.operation]

def callEvent (session : String) (call : Call) : LogRecord :=
  { eventName := if call.isLlm then "claude_code.api_request" else "claude_code.tool_result"
    attributes := callAttributes session call }

def callSpan (session : String) (call : Call) (spanId : List UInt8) : Span :=
  { traceId := List.replicate 16 1
    spanId := spanId
    name := call.spanName
    attributes := callAttributes session call }

def eventRequest (session : String) (calls : List Call) : ExportLogsServiceRequest :=
  { resourceLogs := [{ scopeLogs := [
      { scope := some { name := "com.anthropic.claude_code.events" }
        logRecords := calls.map (callEvent session) }] }] }

def spanRequest (session : String) (sent : List (Call × List UInt8)) :
    ExportTraceServiceRequest :=
  { resourceSpans := [{ scopeSpans := [
      { scope := some { name := ClaudeCode.tracingScope }
        spans := sent.map (fun x => callSpan session x.1 x.2) }] }] }

/-- An event of every call, then a span of some with the ids they are sent with. -/
def twoSignals (session : String) (calls : List Call) (sent : List (Call × List UInt8))
    (p : Preparation) : List DoorRequest :=
  [.logs (eventRequest session calls) p, .traces (spanRequest session sent) p]

theorem naming_callAttributes (session : String) (call : Call) :
    Naming session call (callAttributes session call) := by
  have carries {key value : String} (there : kvStr key value ∈ callAttributes session call)
      (agrees : Agrees (callAttributes session call) key value) :
      Carries (callAttributes session call) key value := ⟨⟨_, there, rfl⟩, agrees⟩
  cases call with
  | llm requestId =>
    constructor
    · apply carries <;> simp [callAttributes, kvStr, Agrees, Call.idKey, Call.kindKey]
    · apply carries <;> simp [callAttributes, kvStr, Agrees, Call.idKey, Call.kindKey]
    · simp [callAttributes, kvStr, Agrees, Call.idKeys, Call.idKey, Call.kindKey]
    · simp [callAttributes, kvStr, Agrees, Call.idKey, Call.kindKey]
    · simp [callAttributes, kvStr, Absent, Call.idKey, Call.kindKey, ClaudeCode.callKey,
        ClaudeCode.callAnchor]
  | tool toolUseId =>
    constructor
    · apply carries <;> simp [callAttributes, kvStr, Agrees, Call.idKey, Call.kindKey]
    · apply carries <;> simp [callAttributes, kvStr, Agrees, Call.idKey, Call.kindKey]
    · simp [callAttributes, kvStr, Agrees, Call.idKeys, Agent.toolCallIdKeys, Call.idKey,
        Call.kindKey]
    · simp [callAttributes, kvStr, Agrees, Call.idKey, Call.kindKey]
    · simp [callAttributes, kvStr, Absent, Call.idKey, Call.kindKey, ClaudeCode.callKey,
        ClaudeCode.callAnchor]

theorem eventOf_callEvent (deps : Deps) (session : String) (call : Call) {ctx : RecordCtx}
    (mine : ClaudeCode.isMine ctx = true) :
    EventOf deps session call ctx (callEvent session call) := by
  refine ⟨mine, ?_, naming_callAttributes session call⟩
  have unnamed : attrStr deps (callAttributes session call) "event.name" = none := by
    apply Absent.attrStr
    cases call <;> simp [callAttributes, kvStr, Absent, Call.idKey, Call.kindKey]
  cases call with
  | llm requestId =>
    refine ⟨"claude_code.api_request", ?_, .inl (by decide)⟩
    simp [eventName, callEvent, unnamed, Call.isLlm]
  | tool toolUseId =>
    refine ⟨"claude_code.tool_result", ?_, .inl (by decide)⟩
    simp [eventName, callEvent, unnamed, Call.isLlm]

theorem spanOf_callSpan (session : String) (call : Call) (spanId : List UInt8) :
    SpanOf session call (some { name := ClaudeCode.tracingScope })
      (callSpan session call spanId) where
  traced := by decide
  name := rfl
  naming := naming_callAttributes session call
  kind := ⟨kvStr call.kindKey call.operation, by simp [callSpan, callAttributes], rfl⟩

section TwoSignals

variable {deps : Deps} {session : String} {calls : List Call}
  {sent : List (Call × List UInt8)}

theorem recordsOf_eventRequest (deps : Deps) (session : String) (calls : List Call) :
    ∃ ctx, ClaudeCode.isMine ctx = true ∧ recordsOf deps (eventRequest session calls) =
      calls.map (fun call => (ctx, callEvent session call)) := by
  refine ⟨{ serviceName := serviceName deps none
            scopeName := nonEmpty "com.anthropic.claude_code.events"
            scopeVersion := nonEmpty "" }, ?_, by simp [recordsOf, eventRequest, scopeOf]⟩
  have prefixed : (nonEmpty "com.anthropic.claude_code.events").any
      (startsWith · "com.anthropic.claude_code") = true := by decide
  simp [ClaudeCode.isMine, prefixed]

theorem traced_twoSignals {p : Preparation} {request : DoorRequest}
    (arrived : request ∈ twoSignals session calls sent p) {x : Option Scope × Span}
    (member : x ∈ request.traced) :
    x.1 = some { name := ClaudeCode.tracingScope } ∧
      ∃ y ∈ sent, x.2 = callSpan session y.1 y.2 := by
  simp only [twoSignals, List.mem_cons, List.not_mem_nil, or_false] at arrived
  cases arrived with
  | inl isLogs =>
    rw [isLogs] at member
    cases member
  | inr isTraces =>
    rw [isTraces] at member
    simp only [DoorRequest.traced, tracedSpans, spanRequest, List.flatMap_cons, List.flatMap_nil,
      List.append_nil, List.map_map, List.mem_map, Function.comp_apply] at member
    obtain ⟨y, listed, rfl⟩ := member
    exact ⟨rfl, y, listed, rfl⟩

theorem tells_twoSignals (p : Preparation) (distinct : calls.Nodup)
    (named : ∀ call ∈ calls, call.id ≠ "") (listed : ∀ x ∈ sent, x.1 ∈ calls) :
    Tells deps session calls (twoSignals session calls sent p) where
  distinct := distinct
  named := named
  complete := by
    intro call member
    obtain ⟨ctx, mine, records⟩ := recordsOf_eventRequest deps session calls
    refine ⟨_, List.mem_cons_self, .inl ⟨(ctx, callEvent session call), ?_, ?_⟩⟩
    · show _ ∈ recordsOf deps (eventRequest session calls)
      rw [records]
      exact List.mem_map_of_mem member
    · exact eventOf_callEvent deps session call mine
  events := by
    intro request arrived e member
    simp only [twoSignals, List.mem_cons, List.not_mem_nil, or_false] at arrived
    cases arrived with
    | inr isTraces =>
      rw [isTraces] at member
      cases member
    | inl isLogs =>
      obtain ⟨ctx, mine, records⟩ := recordsOf_eventRequest deps session calls
      rw [isLogs, DoorRequest.events, records] at member
      obtain ⟨call, isCall, rfl⟩ := List.mem_map.mp member
      exact ⟨call, isCall, eventOf_callEvent deps session call mine⟩
  traced := by
    intro request arrived x member
    obtain ⟨scope, y, isSent, span⟩ := traced_twoSignals arrived member
    left
    refine ⟨y.1, listed y isSent, ?_⟩
    rw [scope, span]
    exact spanOf_callSpan session y.1 y.2

/-- Spans that are sent with an id of their own, none of them derived. -/
theorem idsApart_twoSignals (p : Preparation)
    (derived : ∀ call ∈ calls, ∀ call' ∈ calls,
      call.spanId deps = call'.spanId deps → call = call')
    (own : ∀ x ∈ sent, ∀ y ∈ sent, x.2 = y.2 → x.1 = y.1)
    (mixed : ∀ x ∈ sent, ∀ call ∈ calls, x.2 ≠ call.spanId deps) :
    IdsApart deps calls (twoSignals session calls sent p) where
  derived := derived
  sent := by
    intro request arrived x member request' arrived' y member' _ sameId
    obtain ⟨-, u, isSent, first⟩ := traced_twoSignals arrived member
    obtain ⟨-, v, isSent', second⟩ := traced_twoSignals arrived' member'
    rw [first, second] at sameId ⊢
    have ids : u.2 = v.2 := sameId
    rw [own u isSent v isSent' ids, ids]
  mixed := by
    intro request arrived x member _ call listed
    obtain ⟨-, y, isSent, span⟩ := traced_twoSignals arrived member
    rw [span]
    exact mixed y isSent call listed

end TwoSignals

/-- One call of each kind, both told by both signals. -/
theorem calls_counted_once_twoSignals : ∃ s : Store.Live, ∃ rows,
    Store.query s.proc.hot s.disk.cold none Store.usizeMax = some rows ∧
      (rows.filter (Agent.isKind · "LLM")).length = 1 ∧
      ∃ report, Sessions.rollup .hashing rows "s1" false = some report ∧
        report.llmCalls = 1 ∧ report.toolCalls = 1 := by
  let calls : List Call := [.llm "req_1", .tool "toolu_1"]
  let sent : List (Call × List UInt8) :=
    [(.llm "req_1", List.replicate 8 1), (.tool "toolu_1", List.replicate 8 2)]
  obtain ⟨s, reached, idle, stored⟩ := Store.exists_process
    (ingestAll .hashing noPrices .genai (twoSignals "s1" calls sent plainly)).stored
  obtain ⟨rows, queried, llm, some, counted⟩ := calls_counted_once
    (tells_twoSignals plainly (by decide) (by decide) (by decide))
    (idsApart_twoSignals plainly (by decide +kernel) (by decide) (by decide +kernel))
    (show IdsKept calls (twoSignals "s1" calls sent plainly) id from
      { same := by
          intro request arrived toolUseId _
          simp only [twoSignals, List.mem_cons, List.not_mem_nil, or_false] at arrived
          cases arrived with
          | inl isLogs => rw [isLogs]; rfl
          | inr isTraces => rw [isTraces]; rfl
        nonempty := fun _ listed => (show ∀ call ∈ calls, call.id ≠ "" by decide) _ listed
        apart := fun _ _ _ _ same => same })
    (show LogsPolicy.genai ≠ .off by decide) (by unfold CallLedger.Fits; decide)
    reached idle stored
  obtain ⟨report, rolled⟩ := Option.isSome_iff_exists.mp (some (by simp [calls]) false)
  have lengths := llm.length_eq
  rw [List.length_map, List.length_map] at lengths
  exact ⟨s, rows, queried, lengths, report, rolled, counted false report rolled⟩

/-! ## Calls that are not told apart -/

/-- Mail addresses are redacted. -/
def hidingEmail : Preparation where
  scrub := (Redact.Redactor.ofClasses [.email] .redact).rewrite .hashing
  cap := 0
  put := fun _ => none

/-- Under a redactor that leaves the same of two ids, their calls are counted as one; a logs
door that keeps no record has none to count. -/
theorem calls_not_told_apart :
    (∃ s rows, Tells .hashing "s1" [.tool "a@b.io", .tool "c@d.io"]
        (twoSignals "s1" [.tool "a@b.io", .tool "c@d.io"] [] hidingEmail) ∧
      IdsApart .hashing [.tool "a@b.io", .tool "c@d.io"]
        (twoSignals "s1" [.tool "a@b.io", .tool "c@d.io"] [] hidingEmail) ∧
      Store.ProcessReachable s ∧ s.proc.writer = .idle ∧
      s.appended = (ingestAll .hashing noPrices .genai
        (twoSignals "s1" [.tool "a@b.io", .tool "c@d.io"] [] hidingEmail)).stored ∧
      Store.query s.proc.hot s.disk.cold none Store.usizeMax = some rows ∧
      ∃ report, Sessions.rollup .hashing rows "s1" false = some report ∧ report.toolCalls = 1) ∧
    ∃ s, Tells .hashing "s1" [.llm "req_1"] (twoSignals "s1" [.llm "req_1"] [] plainly) ∧
      IdsApart .hashing [.llm "req_1"] (twoSignals "s1" [.llm "req_1"] [] plainly) ∧
      Store.ProcessReachable s ∧ s.proc.writer = .idle ∧
      s.appended = (ingestAll .hashing noPrices .off
        (twoSignals "s1" [.llm "req_1"] [] plainly)).stored ∧
      Store.query s.proc.hot s.disk.cold none Store.usizeMax = some [] := by
  constructor
  · let calls : List Call := [.tool "a@b.io", .tool "c@d.io"]
    let stored :=
      (ingestAll .hashing noPrices .genai (twoSignals "s1" calls [] hidingEmail)).stored
    obtain ⟨s, reached, idle, appended⟩ := Store.exists_process stored
    obtain ⟨rows, queried, -, inStore, shown⟩ := Store.query_of_process reached idle
    rw [appended] at inStore shown
    -- the policy takes both ids for an address
    have redacted : ∀ x ∈ stored, x.sessionId = some "s1" ∧ Sessions.isToolCall x = true ∧
        Agent.toolCallId x = some "[REDACTED:email]" := by decide
    have identity : ∀ x ∈ rows, Sessions.callIdentity x = "id:[REDACTED:email]" := by
      intro x member
      rw [Sessions.callIdentity, (redacted x (inStore x member)).2.2]
      rfl
    obtain ⟨row, listed⟩ : ∃ row, row ∈ rows := by
      have some : ∃ x, x ∈ stored := List.exists_mem_of_ne_nil _ (by decide)
      obtain ⟨x, member⟩ := some
      obtain ⟨row, listed, -⟩ := List.mem_map.mp (shown x member)
      exact ⟨row, listed⟩
    obtain ⟨report, rolled⟩ := Option.isSome_iff_exists.mp
      (Sessions.rollup_isSome .hashing listed (redacted row (inStore row listed)).1 false)
    have counts := Sessions.rollup_counts .hashing rolled
      (fun x member _ _ => by rw [(redacted x (inStore x member)).2.2]; rfl)
      (List.nodup_singleton "id:[REDACTED:email]")
      (by
        intro k
        rw [List.mem_singleton]
        constructor
        · intro isKey
          obtain ⟨session, tool, -⟩ := redacted row (inStore row listed)
          exact ⟨row, listed, session, tool, isKey ▸ identity row listed⟩
        · intro found
          obtain ⟨x, member, -, -, isKey⟩ := found
          rw [← isKey, identity x member])
    exact ⟨s, rows, tells_twoSignals hidingEmail (by decide) (by decide) (by decide),
      idsApart_twoSignals hidingEmail (by decide +kernel) (by decide) (by decide), reached, idle,
      appended, queried, report, rolled, counts.2⟩
  · obtain ⟨s, reached, idle, appended⟩ := Store.exists_process
      (ingestAll .hashing noPrices .off (twoSignals "s1" [.llm "req_1"] [] plainly)).stored
    obtain ⟨rows, queried, -, inStore, -⟩ := Store.query_of_process reached idle
    -- with the logs off and nothing traced, nothing is stored
    have nothing :
        (ingestAll .hashing noPrices .off (twoSignals "s1" [.llm "req_1"] [] plainly)).stored =
          [] := rfl
    rw [appended, nothing] at inStore
    have noRows : rows = [] := List.eq_nil_iff_forall_not_mem.mpr (fun x member => by
      cases inStore x member)
    exact ⟨s, tells_twoSignals plainly (by decide) (by decide) (by decide),
      idsApart_twoSignals plainly (by decide +kernel) (by decide) (by decide), reached, idle, appended,
      noRows ▸ queried⟩

end Evald.Logs
