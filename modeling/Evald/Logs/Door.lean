import Evald.Traces

/-! # The logs door

An export request is mapped record by record: an evaluation result becomes a score, a
dialect's event a span, and everything else is left to the policy.  What a dialect
remembers of a session is threaded through the records, in the request's own layer and
in the node's.
-/

namespace Evald.Logs

open Evald.Lib Evald.Otlp Evald.Normalize Evald.Traces

/-- What the door keeps. -/
inductive LogsPolicy where
  | off
  | genai
  | all
  deriving DecidableEq

/-- What happened to one record. -/
inductive Outcome where
  | span
  | score
  | folded
  | unmapped
  | off
  | malformed
  deriving DecidableEq

/-- What the dialects remember on this node. -/
structure Remembered where
  codex : Recall Codex.Conversation := {}
  gemini : Recall GeminiCli.Session := {}

/-- What they remember while one request is mapped. -/
structure RequestState where
  codex : Local Codex.Conversation := ∅
  gemini : Local GeminiCli.Session := ∅

/-- One request, mapped. -/
structure LogsBatch where
  spans : List NormalizedSpan := []
  scores : List Score := []
  outcomes : List Outcome := []

def LogsBatch.records (batch : LogsBatch) : Nat := batch.outcomes.length

variable (deps : Deps)

/-- The dialects, tried in order. -/
def mapDialect (ctx : RecordCtx) (rec : LogRecord) (name : Option String) (node : Remembered)
    (state : RequestState) : Mapping × RequestState × Remembered :=
  match ClaudeCode.mapLog deps ctx rec name with
  | .notMine =>
    match Codex.mapLog deps ctx rec name node.codex state.codex with
    | (.notMine, codex, recent) =>
      let (mapping, gemini, recent') :=
        GeminiCli.mapLog deps ctx rec name node.gemini state.gemini
      (mapping, { codex := codex, gemini := gemini }, { codex := recent, gemini := recent' })
    | (mapping, codex, recent) =>
      (mapping, { state with codex := codex }, { node with codex := recent })
  | mapping => (mapping, state, node)

def genericTrace (ctx : RecordCtx) (rec : LogRecord) (name body : String) : List UInt8 :=
  match (traceContext rec).1 with
  | some t => t
  | none =>
    deriveId deps 16
      ["evald.log.trace", ctx.serviceName.getD "", name, toString (recordTime rec),
        toString rec.observedTimeUnixNano, body]

def genericAttributes (rec : LogRecord) : List KeyValue :=
  rec.attributes ++
    (rec.body.map (fun b => KeyValue.mk "log.body" (some b))).toList ++
    (if rec.severityText ≠ "" then [kvStr "log.severity_text" rec.severityText] else []) ++
    (if rec.severityNumber ≠ 0 then [kvInt "log.severity_number" rec.severityNumber] else []) ++
    [kvStr "evald.source" "log"]

/-- An unrecognised record as a zero-duration span. -/
def genericSpan (ctx : RecordCtx) (rec : LogRecord) (name : Option String) : NormalizedSpan :=
  let t := recordTime rec
  let n := name.getD "log"
  let body := (rec.body.map deps.debugAnyValue).getD ""
  let traceId := genericTrace deps ctx rec n body
  SpanDraft.finish deps
    { traceId := traceId
      spanId := deriveId deps 8
        ["evald.log.span", hexEncode traceId, n, toString t, toString rec.observedTimeUnixNano,
          body]
      parentSpanId := (traceContext rec).2.getD []
      name := n
      startUnixNano := t
      endUnixNano := t
      status := none
      attributes := genericAttributes rec } ctx

/-- What one record becomes. -/
inductive Mapped where
  | span (span : NormalizedSpan)
  | score (score : Score)
  | dropped (outcome : Outcome)

def Mapped.outcome : Mapped → Outcome
  | .span _ => .span
  | .score _ => .score
  | .dropped outcome => outcome

def Mapped.spans : Mapped → List NormalizedSpan
  | .span s => [s]
  | _ => []

def Mapped.scores : Mapped → List Score
  | .score s => [s]
  | _ => []

def LogsBatch.note (batch : LogsBatch) (mapped : Mapped) : LogsBatch :=
  { spans := batch.spans ++ mapped.spans
    scores := batch.scores ++ mapped.scores
    outcomes := batch.outcomes ++ [mapped.outcome] }

/-- An evaluation result, as a score. -/
def mapEvaluation (rec : LogRecord) : Mapped :=
  let (trace, span) := traceContext rec
  let t := recordTime rec
  match EvalEvent.scoreFromEvent deps (trace.getD []) (span.getD []) rec.attributes t t with
  | some score => .score score
  | none => .dropped .malformed

/-- What the policy makes of a dialect's answer. -/
def settle (prices : Pricing.PriceTable) (policy : LogsPolicy) (ctx : RecordCtx) (rec : LogRecord)
    (name : Option String) : Mapping → Mapped
  | .span span => .span (Pricing.apply deps.float prices span)
  | .folded => .dropped .folded
  | .notMine =>
    if policy = .all then
      .span (Pricing.apply deps.float prices (genericSpan deps ctx rec name))
    else .dropped .unmapped

def mapRecord (prices : Pricing.PriceTable) (policy : LogsPolicy) (ctx : RecordCtx)
    (rec : LogRecord) (state : RequestState) (node : Remembered) :
    Mapped × RequestState × Remembered :=
  if policy = .off then (.dropped .off, state, node)
  else
    let name := eventName deps rec
    if name = some EvalEvent.eventName then (mapEvaluation deps rec, state, node)
    else
      let (mapping, state, node) := mapDialect deps ctx rec name node state
      (settle deps prices policy ctx rec name mapping, state, node)

/-- The records of a request in order, each with the context it arrived under. -/
def recordsOf (req : ExportLogsServiceRequest) : List (RecordCtx × LogRecord) :=
  req.resourceLogs.flatMap (fun resourceLogs =>
    let service := serviceName deps resourceLogs.resource
    resourceLogs.scopeLogs.flatMap (fun scopeLogs =>
      let (name, version) := scopeOf scopeLogs.scope
      scopeLogs.logRecords.map (fun rec =>
        ({ serviceName := service, scopeName := name, scopeVersion := version }, rec))))

/-- One record after what came before it. -/
def mapNext (prices : Pricing.PriceTable) (policy : LogsPolicy)
    (mapped : LogsBatch × RequestState × Remembered) (record : RecordCtx × LogRecord) :
    LogsBatch × RequestState × Remembered :=
  let (m, state, node) := mapRecord deps prices policy record.1 record.2 mapped.2.1 mapped.2.2
  (mapped.1.note m, state, node)

/-- Map an export request; what is remembered on the node goes on to the next. -/
def normalizeLogs (prices : Pricing.PriceTable) (policy : LogsPolicy) (node : Remembered)
    (req : ExportLogsServiceRequest) : LogsBatch × Remembered :=
  let (batch, _, node) := (recordsOf deps req).foldl (mapNext deps prices policy) ({}, {}, node)
  (batch, node)

end Evald.Logs
