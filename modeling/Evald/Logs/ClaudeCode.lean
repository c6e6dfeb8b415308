import Evald.Logs.Record

/-! # Claude Code's records and spans

A request event becomes an LLM span, a tool event a TOOL span, a prompt a marker.
Nothing is remembered between records: a span's ids come from the record's own, so
both signals of an API call are given one span id and one call key.
-/

namespace Evald.Logs.ClaudeCode

open Evald.Lib Evald.Otlp Evald.Normalize

def callKey : String := "evald.call_key"
def callAnchor : String := "evald.call_anchor"

def tracingScope : String := "com.anthropic.claude_code.tracing"
def serviceName : String := "claude-code"

def llmSpanName : String := "claude_code.llm_request"
def toolSpanName : String := "claude_code.tool"
def promptSpanName : String := "claude_code.user_prompt"

def isMine (ctx : RecordCtx) : Bool :=
  ctx.scopeName.any (startsWith · "com.anthropic.claude_code") ||
    ctx.serviceName = some serviceName

variable (deps : Deps)

/-- The span id both signals give one API call. -/
def llmSpanId (requestId : String) : List UInt8 := deriveId deps 8 ["claude_code.llm", requestId]
def toolSpanId (toolUseId : String) : List UInt8 := deriveId deps 8 ["claude_code.tool", toolUseId]
def promptSpanId (promptId : String) : List UInt8 :=
  deriveId deps 8 ["claude_code.prompt", promptId]

def llmCallKey (requestId : String) : String := "claude_code.llm:" ++ requestId
def toolCallKey (toolUseId : String) : String := "claude_code.tool:" ++ toolUseId

/-- Trace, parent and time: the record's own context, else a trace per turn under the
turn's prompt marker. -/
def placement (rec : LogRecord) (isPrompt : Bool) : List UInt8 × List UInt8 × Nat :=
  let a := rec.attributes
  let prompt := attrStr deps a "prompt.id"
  let traceId :=
    match (traceContext rec).1 with
    | some t => t
    | none =>
      deriveId deps 16
        ["claude_code.trace", (attrStr deps a "session.id").getD "", prompt.getD ""]
  let parent :=
    match (traceContext rec).2, prompt with
    | some s, _ => s
    | none, some p => if isPrompt then [] else promptSpanId deps p
    | none, none => []
  (traceId, parent, recordTime rec)

/-- The identity of a record that carries none of the ids it should. -/
def recordKey (rec : LogRecord) : String :=
  (attrStr deps rec.attributes "session.id").getD "" ++ "|" ++
    (attrStr deps rec.attributes "event.sequence").getD "" ++ "|" ++ toString (recordTime rec)

/-- A double that may be stored as a cost or a time. -/
def finiteNonneg (v : Option F64) : Option F64 := v.filter (fun d => d.isFinite && d.nonneg)

def tokenAttributes (a : List KeyValue) : List (String × Option Nat) :=
  [("gen_ai.usage.input_tokens", attrU64 a "input_tokens"),
    ("gen_ai.usage.output_tokens", attrU64 a "output_tokens"),
    ("gen_ai.usage.cache_read.input_tokens", attrU64 a "cache_read_tokens"),
    ("gen_ai.usage.cache_creation.input_tokens", attrU64 a "cache_creation_tokens")]

def addCount (attrs : List KeyValue) (count : String × Option Nat) : List KeyValue :=
  addSome attrs (count.2.map (fun v => kvInt count.1 (asI64 v)))

/-- The sum of the counts that are there. -/
def sumCounts (counts : List (Option Nat)) : Nat :=
  counts.foldl (fun total v => wrappingAdd total (v.getD 0)) 0

def totalAttribute (a : List KeyValue) : Option KeyValue :=
  if (attrU64 a "input_tokens").isSome || (attrU64 a "output_tokens").isSome then
    some (kvInt "gen_ai.usage.total_tokens" (asI64 (sumCounts ((tokenAttributes a).map Prod.snd))))
  else none

def addModel (attrs : List KeyValue) (model : Option String) : List KeyValue :=
  addSome (addSome attrs (model.map (kvStr "gen_ai.request.model")))
    (model.map (kvStr "gen_ai.response.model"))

/-- What tells one request from another. -/
def requestKey (rec : LogRecord) : String :=
  ((attrStr deps rec.attributes "request_id").or
    (attrStr deps rec.attributes "client_request_id")).getD (recordKey deps rec)

def llmAttributes (rec : LogRecord) : List KeyValue :=
  let a := rec.attributes
  let attributes := add a (kvStr "gen_ai.operation.name" "chat")
  let attributes := add attributes (kvStr "gen_ai.provider.name" "anthropic")
  let attributes := addModel attributes (attrStr deps a "model")
  let attributes := (tokenAttributes a).foldl addCount attributes
  let attributes := addSome attributes (totalAttribute a)
  let attributes := addSome attributes
    ((finiteNonneg (attrF64 deps a "cost_usd")).map (kvF64 "gen_ai.usage.cost"))
  let attributes := addSome attributes
    ((attrStr deps a "request_id").map (kvStr "gen_ai.response.id"))
  let attributes := addSome attributes
    ((finiteNonneg (attrF64 deps a "ttft_ms")).map (fun ms =>
      kvF64 "gen_ai.response.time_to_first_chunk" (deps.float.div ms (.finite 1000))))
  let attributes := add attributes (kvStr "evald.source" "log")
  add attributes (kvStr callKey (llmCallKey (requestKey deps rec)))

def llmSpan (ctx : RecordCtx) (rec : LogRecord) (error : Option String) : NormalizedSpan :=
  let (traceId, parent, time) := placement deps rec false
  SpanDraft.finish deps
    { traceId := traceId
      spanId := llmSpanId deps (requestKey deps rec)
      parentSpanId := parent
      name := llmSpanName
      startUnixNano := startOf time rec.attributes
      endUnixNano := time
      status := error.map Except.error
      attributes := llmAttributes deps rec } ctx

/-- A non-empty string member of an object. -/
def stringMember (details : Option Json) (key : String) : Option String :=
  match details with
  | some (.obj members) => ((members.lookup key).bind Json.asStr).filter (· ≠ "")
  | _ => none

/-- The tool an event is about: an MCP tool is named by its server and tool when the
event says which. -/
def toolName (a : List KeyValue) : Option String :=
  match attrStr deps a "tool_name" with
  | none => none
  | some name =>
    if name ≠ "mcp_tool" then some name
    else
      let details := (attrStr deps a "tool_parameters").bind deps.parseJson
      match stringMember details "mcp_server_name", stringMember details "mcp_tool_name" with
      | some server, some tool => some ("mcp__" ++ server ++ "__" ++ tool)
      | _, _ => some name

def toolUseKey (rec : LogRecord) : String :=
  (attrStr deps rec.attributes "tool_use_id").getD (recordKey deps rec)

def toolAttributes (rec : LogRecord) : List KeyValue :=
  let a := rec.attributes
  let attributes := add a (kvStr "gen_ai.operation.name" "execute_tool")
  let attributes := addSome attributes ((toolName deps a).map (kvStr "gen_ai.tool.name"))
  let attributes := addSome attributes
    ((attrStr deps a "tool_use_id").map (kvStr "gen_ai.tool.call.id"))
  let attributes := add attributes (kvStr "evald.source" "log")
  add attributes (kvStr callKey (toolCallKey (toolUseKey deps rec)))

def toolStatus (a : List KeyValue) (rejected : Option String) : Option (Except String Unit) :=
  match rejected with
  | some reason => some (.error reason)
  | none =>
    if attrStr deps a "success" = some "false" then
      some (.error ((attrStr deps a "error_type").getD "tool failed"))
    else none

def toolSpan (ctx : RecordCtx) (rec : LogRecord) (rejected : Option String) : NormalizedSpan :=
  let (traceId, parent, time) := placement deps rec false
  let status := toolStatus deps rec.attributes rejected
  SpanDraft.finish deps
    { traceId := traceId
      spanId := toolSpanId deps (toolUseKey deps rec)
      parentSpanId := parent
      name := toolSpanName
      startUnixNano :=
        if status.isSome && (attrU64 rec.attributes "duration_ms").isNone then time
        else startOf time rec.attributes
      endUnixNano := time
      status := status
      attributes := toolAttributes deps rec } ctx

def promptSpan (ctx : RecordCtx) (rec : LogRecord) : NormalizedSpan :=
  let (traceId, parent, time) := placement deps rec true
  SpanDraft.finish deps
    { traceId := traceId
      spanId := promptSpanId deps
        ((attrStr deps rec.attributes "prompt.id").getD (recordKey deps rec))
      parentSpanId := parent
      name := promptSpanName
      startUnixNano := time
      endUnixNano := time
      status := none
      attributes := add rec.attributes (kvStr "evald.source" "log") } ctx

def mapEvent (ctx : RecordCtx) (rec : LogRecord) (event : String) : Mapping :=
  let a := rec.attributes
  if event = "api_request" then .span (llmSpan deps ctx rec none)
  else if event = "api_error" then
    .span (llmSpan deps ctx rec (some ((attrStr deps a "error").getD "API request failed")))
  else if event = "tool_result" then .span (toolSpan deps ctx rec none)
  else if event = "tool_decision" then
    if attrStr deps a "decision" = some "reject" then
      let source := (attrStr deps a "source").getD "unknown"
      .span (toolSpan deps ctx rec (some ("rejected (" ++ source ++ ")")))
    else .folded
  else if event = "user_prompt" then .span (promptSpan deps ctx rec)
  else if event = "assistant_response" || event = "api_refusal" then .folded
  else .notMine

/-- Map one Claude Code event record. -/
def mapLog (ctx : RecordCtx) (rec : LogRecord) (name : Option String) : Mapping :=
  if !isMine ctx then .notMine
  else
    match name with
    | none => .notMine
    | some name =>
      mapEvent deps ctx rec ((stripPrefix name "claude_code.").getD name)

/-! ## Its spans -/

def jsonF64 : Json → Option F64
  | .int i => some (deps.float.ofInt i)
  | .float q => some (.finite q)
  | .str s => deps.float.parse s
  | _ => none

def rawU64 (r : Attributes) (key : String) : Option Nat :=
  match r[key]? with
  | some (.str s) => parseU64 s
  | some v => v.asU64
  | none => none

/-- A double as a JSON number. -/
def jsonOfF64 : F64 → Json
  | .finite q => .float q
  | _ => .null

def fixTokens (r : Attributes) (t : Tokens) : Tokens :=
  let t :=
    { t with
      prompt := t.prompt.or (rawU64 r "input_tokens")
      completion := t.completion.or (rawU64 r "output_tokens")
      cacheRead := t.cacheRead.or (rawU64 r "cache_read_tokens")
      cacheWrite := t.cacheWrite.or (rawU64 r "cache_creation_tokens") }
  if t.total.isNone && (t.prompt.isSome || t.completion.isSome) then
    { t with total := some (sumCounts [t.prompt, t.completion, t.cacheRead, t.cacheWrite]) }
  else t

def fixFirstChunk (r : Attributes) : Attributes :=
  if r.contains "gen_ai.response.time_to_first_chunk" then r
  else
    match finiteNonneg ((r["ttft_ms"]?).bind (jsonF64 deps)) with
    | some ms =>
      r.insert "gen_ai.response.time_to_first_chunk"
        (jsonOfF64 (deps.float.div ms (.finite 1000)))
    | none => r

def stringAttribute (r : Attributes) (key : String) : Option String :=
  ((r[key]?).bind Json.asStr).filter (· ≠ "")

/-- The span of an API call, given the call's id and key. -/
def fixLlmSpan (n : NormalizedSpan) : NormalizedSpan :=
  let raw := fixFirstChunk deps n.rawAttributes
  let n := { n with tokens := fixTokens n.rawAttributes n.tokens, rawAttributes := raw }
  match stringAttribute raw "request_id" with
  | some req =>
    { n with
      spanId := hexEncode (llmSpanId deps req)
      rawAttributes :=
        (raw.insert "evald.otel.span_id" (.str n.spanId)).insert callKey (.str (llmCallKey req)) }
  | none => n

/-- The span of a tool call anchors the call. -/
def fixToolSpan (n : NormalizedSpan) : NormalizedSpan :=
  match stringAttribute n.rawAttributes "tool_use_id" with
  | some id =>
    { n with rawAttributes := n.rawAttributes.insert callAnchor (.str (toolCallKey id)) }
  | none => n

def fixTraceSpan (n : NormalizedSpan) : NormalizedSpan :=
  if n.name = llmSpanName then fixLlmSpan deps n
  -- a phase of a tool call, not a call of its own
  else if n.name = "claude_code.tool.execution" then { n with oiKind := none }
  else if n.name = toolSpanName then fixToolSpan n
  else n

end Evald.Logs.ClaudeCode
