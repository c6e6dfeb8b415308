import Evald.Logs.Record
import Evald.Logs.Recall

/-! # Codex CLI's records and spans

A turn is one trace under its prompt marker: each prompt starts a trace, remembered
for the conversation, and every span after it sits there.  The memory also holds the
request whose usage is to come, the provider, and the tool calls that were refused.
Every record reads and changes the memory of one conversation (`mapLog_eq_run`).
-/

namespace Evald.Logs.Codex

open Evald.Lib Evald.Otlp Evald.Normalize

def llmSpanName : String := "codex.llm_request"
def toolSpanName : String := "codex.tool"
def promptSpanName : String := "codex.user_prompt"

structure Request where
  traceId : List UInt8
  spanId : List UInt8
  start : Nat
  deriving DecidableEq

/-- A turn in progress: its trace and its prompt marker. -/
abbrev Turn := List UInt8 × List UInt8

/-- What is remembered about one conversation between records. -/
structure Conversation where
  turn : Option Turn := none
  request : Option Request := none
  provider : Option String := none
  /-- Tool calls refused by a decision, and why. -/
  refused : List (String × String) := []
  deriving DecidableEq

instance : Inhabited Conversation := ⟨{}⟩

def refusedKept : Nat := 16

def isMine (ctx : RecordCtx) : Bool :=
  ctx.scopeName.any (startsWith · "codex_otel") || ctx.serviceName.any (startsWith · "codex")

def isTraceScope (serviceName : Option String) : Bool := serviceName.any (startsWith · "codex")

variable (deps : Deps)

def conversationId (rec : LogRecord) : String :=
  (attrStr deps rec.attributes "conversation.id").getD ""

/-- Why a request record failed, or `none` when it succeeded. -/
def requestError (event : String) (a : List KeyValue) : Option String :=
  match (attrStr deps a "error.message").filter (· ≠ "") with
  | some msg => some msg
  | none =>
    if event = "websocket_request" then
      if attrStr deps a "success" = some "false" then some "websocket request failed" else none
    else
      match attrU64 a "http.response.status_code" with
      | some code => if 200 ≤ code ∧ code < 300 then none else some ("HTTP " ++ toString code)
      | none => some "no response"

/-- The trace of a conversation with no turn remembered. -/
def ownTrace (conv : String) : List UInt8 := deriveId deps 16 ["codex.trace", conv]

/-- The turn a span belongs to, of what is remembered. -/
def placement (seen : Option Conversation) (conv : String) : Turn :=
  (seen.bind Conversation.turn).getD (ownTrace deps conv, [])

/-- A record's own trace context, when it has one. -/
def ownContext (rec : LogRecord) : Option (List UInt8 × List UInt8) :=
  match traceContext rec with
  | (some t, some s) => some (t, s)
  | _ => none

/-- The attributes of every span made here. -/
def common (a : List KeyValue) (conv : String) (own : Option (List UInt8 × List UInt8)) :
    List KeyValue :=
  let attributes := addSome a (own.map (fun o => kvStr "evald.otel.trace_id" (hexEncode o.1)))
  let attributes := addSome attributes
    (own.map (fun o => kvStr "evald.otel.span_id" (hexEncode o.2)))
  let attributes :=
    if conv ≠ "" then add attributes (kvStr "gen_ai.conversation.id" conv) else attributes
  add attributes (kvStr "evald.source" "log")

/-- When a model call started, and the trace context it is known by. -/
def callStart (rec : LogRecord) (request : Option Request) :
    Nat × Option (List UInt8 × List UInt8) :=
  let time := recordTime rec
  match ownContext rec, request with
  -- a failed request is its own record, with its own duration
  | some own, _ => (startOf time rec.attributes, some own)
  -- the end of a stream: it started when the request it ends did
  | none, some r =>
    (min r.start time, if r.traceId.isEmpty then none else some (r.traceId, r.spanId))
  | none, none => (time, none)

def usageAttributes (a : List KeyValue) : List (String × Option Nat) :=
  [("gen_ai.usage.input_tokens", attrU64 a "input_token_count"),
    ("gen_ai.usage.output_tokens", attrU64 a "output_token_count"),
    ("gen_ai.usage.cache_read.input_tokens", attrU64 a "cached_token_count"),
    ("gen_ai.usage.cache_creation.input_tokens", attrU64 a "cache_write_token_count"),
    ("gen_ai.usage.reasoning.output_tokens", attrU64 a "reasoning_token_count"),
    ("gen_ai.usage.total_tokens", attrU64 a "tool_token_count")]

def addUsage (attrs : List KeyValue) (count : String × Option Nat) : List KeyValue :=
  addSome attrs (count.2.map (fun v => kvInt count.1 (asI64 v)))

/-- The attributes of a model call, from the record and from what is remembered. -/
def llmAttributes (rec : LogRecord) (conv : String) (own : Option (List UInt8 × List UInt8))
    (provider : Option String) : List KeyValue :=
  let a := rec.attributes
  let attributes := common a conv own
  let attributes := add attributes (kvStr "gen_ai.operation.name" "chat")
  let attributes := addSome attributes (provider.map (kvStr "gen_ai.provider.name"))
  let attributes := addSome attributes ((attrStr deps a "model").map (kvStr "gen_ai.request.model"))
  let attributes := addSome attributes
    ((attrStr deps a "model").map (kvStr "gen_ai.response.model"))
  let attributes := (usageAttributes a).foldl addUsage attributes
  addSome attributes
    (((attrF64 deps a "ttft_ms").filter (fun d => d.isFinite && d.nonneg)).map (fun ms =>
      kvF64 "gen_ai.response.time_to_first_chunk" (deps.float.div ms (.finite 1000))))

/-- A model call; `seen` is what is remembered of its conversation. -/
def llmSpan (ctx : RecordCtx) (rec : LogRecord) (conv : String) (error : Option String)
    (seen : Option Conversation) : NormalizedSpan :=
  let time := recordTime rec
  let remembered := seen.getD default
  let turn := placement deps seen conv
  let call := callStart rec remembered.request
  let attempt := (attrStr deps rec.attributes "attempt").getD ""
  SpanDraft.finish deps
    { traceId := turn.1
      spanId := deriveId deps 8 ["codex.llm", conv, toString time, attempt]
      parentSpanId := turn.2
      name := llmSpanName
      startUnixNano := call.1
      endUnixNano := time
      status := error.map Except.error
      attributes := llmAttributes deps rec conv call.2 remembered.provider } ctx

/-- The tool a result is about, as Codex names it to the model. -/
def toolName (a : List KeyValue) : Option String :=
  match attrStr deps a "tool_name" with
  | none => none
  | some name =>
    match attrStr deps a "tool_namespace" with
    | some ns => if startsWith ns "mcp__" then some (ns ++ "__" ++ name) else some name
    | none => some name

/-- The exit code in a command's output, when it is not 0. -/
def exitCode (a : List KeyValue) : Option ℤ :=
  match attrStr deps a "output" with
  | none => none
  | some output =>
    match (lines output).findSome? (fun l => stripPrefix l "Process exited with code ") with
    | none => none
    | some rest => (parseI64 (trim rest)).filter (· ≠ 0)

/-- Why a tool call was refused. -/
def refusal (seen : Option Conversation) (call : Option String) : Option String :=
  match seen, call with
  | some c, some id => (c.refused.find? (fun r => r.1 = id)).map Prod.snd
  | _, _ => none

def toolStatus (a : List KeyValue) (refused : Option String) : Option (Except String Unit) :=
  match refused with
  | some why => some (.error why)
  | none =>
    if attrStr deps a "success" = some "false" then some (.error "tool failed")
    else (exitCode deps a).map (fun c => .error ("exit code " ++ toString c))

def toolAttributes (rec : LogRecord) (conv : String) : List KeyValue :=
  let a := rec.attributes
  let attributes := common a conv (ownContext rec)
  let attributes := add attributes (kvStr "gen_ai.operation.name" "execute_tool")
  let attributes := addSome attributes ((toolName deps a).map (kvStr "gen_ai.tool.name"))
  let attributes := addSome attributes
    ((attrStr deps a "call_id").map (kvStr "gen_ai.tool.call.id"))
  let attributes := addSome attributes
    (((attrStr deps a "arguments").filter (· ≠ "")).map (kvStr "gen_ai.tool.call.arguments"))
  addSome attributes
    (((attrStr deps a "mcp_server").filter (· ≠ "")).map (kvStr "mcp.server.name"))

def toolKey (rec : LogRecord) (conv : String) : String :=
  (attrStr deps rec.attributes "call_id").getD (conv ++ "|" ++ toString (recordTime rec))

/-- A tool call; `seen` is what is remembered of its conversation. -/
def toolSpan (ctx : RecordCtx) (rec : LogRecord) (conv : String) (seen : Option Conversation) :
    NormalizedSpan :=
  let a := rec.attributes
  let time := recordTime rec
  let turn := placement deps seen conv
  SpanDraft.finish deps
    { traceId := turn.1
      spanId := deriveId deps 8 ["codex.tool", toolKey deps rec conv]
      parentSpanId := turn.2
      name := toolSpanName
      startUnixNano := startOf time a
      endUnixNano := time
      -- a refusal is decided before the call, and remembered until its result arrives
      status := toolStatus deps a (refusal seen (attrStr deps a "call_id"))
      attributes := toolAttributes deps rec conv } ctx

def promptSpan (ctx : RecordCtx) (rec : LogRecord) (conv : String) (turn : Turn) :
    NormalizedSpan :=
  let time := recordTime rec
  SpanDraft.finish deps
    { traceId := turn.1
      spanId := turn.2
      parentSpanId := []
      name := promptSpanName
      startUnixNano := time
      endUnixNano := time
      status := none
      attributes := common rec.attributes conv (ownContext rec) } ctx

/-- The turn a prompt starts. -/
def promptTurn (rec : LogRecord) (conv : String) : Turn :=
  let time := toString (recordTime rec)
  (deriveId deps 16 ["codex.turn", conv, time], deriveId deps 8 ["codex.prompt", conv, time])

/-- The request whose usage is to come. -/
def sentRequest (rec : LogRecord) : Request :=
  let (trace, span) := traceContext rec
  { traceId := trace.getD []
    spanId := span.getD []
    start := startOf (recordTime rec) rec.attributes }

def Conversation.refuse (call why : String) (c : Conversation) : Conversation :=
  let refused := c.refused ++ [(call, why)]
  { c with refused := if refusedKept < refused.length then refused.tail else refused }

def Conversation.forgetRefusal (call : String) (c : Conversation) : Conversation :=
  { c with refused := c.refused.eraseP (fun r => r.1 = call) }

/-- What a `tool_decision` has to remember: the call and why it was refused. -/
def refusedCall (a : List KeyValue) : Option (String × String) :=
  let decision := (attrStr deps a "decision").getD ""
  if startsWith decision "approved" then none
  else
    (attrStr deps a "call_id").map (fun call =>
      (call, decision ++ " (" ++ (attrStr deps a "source").getD "unknown" ++ ")"))

/-- What an `sse_event` reports: a failed call, a completed one, or nothing. -/
def sseCall (a : List KeyValue) : Option (Option String) :=
  let kind := attrStr deps a "event.kind"
  let endsCall := kind = none || kind = some "response.completed" || kind = some "response.failed"
  match (attrStr deps a "error.message").filter (fun _ => endsCall) with
  | some err => some (some err)
  | none =>
    if kind = some "response.completed" && (attrU64 a "input_token_count").isSome then some none
    else none

/-- A request to anything but the Responses API. -/
def otherEndpoint (a : List KeyValue) : Bool :=
  (attrStr deps a "endpoint").any (fun e => !containsText e "responses")

/-- Map one event of a conversation; the record reads `recent` through `loc`. -/
def mapEvent (ctx : RecordCtx) (rec : LogRecord) (event : String) (recent : Recall Conversation)
    (loc : Local Conversation) : Mapping × Local Conversation × Recall Conversation :=
  let a := rec.attributes
  let conv := conversationId deps rec
  let seen := recent.get loc conv
  if event = "conversation_starts" then
    match (attrStr deps a "provider_name").filter (· ≠ "") with
    | some p =>
      (.folded, recent.update loc conv (fun c => { c with provider := some (asciiLowercase p) }))
    | none => (.folded, loc, recent)
  else if event = "user_prompt" then
    let turn := promptTurn deps rec conv
    (.span (promptSpan deps ctx rec conv turn),
      recent.update loc conv (fun c => { c with turn := some turn }))
  else if event = "api_request" && otherEndpoint deps a then (.folded, loc, recent)
  else if event = "api_request" || event = "websocket_request" then
    match requestError deps event a with
    | some msg => (.span (llmSpan deps ctx rec conv (some msg) seen), loc, recent)
    | none =>
      (.folded, recent.update loc conv (fun c => { c with request := some (sentRequest rec) }))
  else if event = "sse_event" then
    match sseCall deps a with
    | some error => (.span (llmSpan deps ctx rec conv error seen), loc, recent)
    | none => (.folded, loc, recent)
  else if event = "tool_decision" then
    match refusedCall deps a with
    | some (call, why) => (.folded, recent.update loc conv (Conversation.refuse call why))
    | none => (.folded, loc, recent)
  else if event = "tool_result" then
    (.span (toolSpan deps ctx rec conv seen),
      match attrStr deps a "call_id", refusal seen (attrStr deps a "call_id") with
      | some id, some _ => recent.update loc conv (Conversation.forgetRefusal id)
      | _, _ => (loc, recent))
  else (.notMine, loc, recent)

/-- Map one Codex event record. -/
def mapLog (ctx : RecordCtx) (rec : LogRecord) (name : Option String)
    (recent : Recall Conversation) (loc : Local Conversation) :
    Mapping × Local Conversation × Recall Conversation :=
  if !isMine ctx then (.notMine, loc, recent)
  else
    match name.bind (stripPrefix · "codex.") with
    | none => (.notMine, loc, recent)
    | some event => mapEvent deps ctx rec event recent loc

/-! ## Its spans -/

/-- Usage that an event reports is set aside, and no span is part of a session. -/
def fixTraceSpan (n : NormalizedSpan) : NormalizedSpan :=
  let n :=
    if n.name = "handle_responses" && (!n.tokens.isEmpty || n.costUsd.isSome) then
      Agent.setAside Agent.usageCopy n
    else n
  { n with sessionId := none }

/-! ## A record reads and changes one conversation -/

/-- What an event does to a conversation, given what is remembered of it. -/
def eventUse (ctx : RecordCtx) (rec : LogRecord) (event : String) :
    Option Conversation → Mapping × Option (Conversation → Conversation) :=
  fun seen =>
  let a := rec.attributes
  let conv := conversationId deps rec
  if event = "conversation_starts" then
    (.folded, ((attrStr deps a "provider_name").filter (· ≠ "")).map (fun p c =>
      { c with provider := some (asciiLowercase p) }))
  else if event = "user_prompt" then
    let turn := promptTurn deps rec conv
    (.span (promptSpan deps ctx rec conv turn), some (fun c => { c with turn := some turn }))
  else if event = "api_request" && otherEndpoint deps a then (.folded, none)
  else if event = "api_request" || event = "websocket_request" then
    match requestError deps event a with
    | some msg => (.span (llmSpan deps ctx rec conv (some msg) seen), none)
    | none => (.folded, some (fun c => { c with request := some (sentRequest rec) }))
  else if event = "sse_event" then
    match sseCall deps a with
    | some error => (.span (llmSpan deps ctx rec conv error seen), none)
    | none => (.folded, none)
  else if event = "tool_decision" then
    (.folded, (refusedCall deps a).map (fun r => Conversation.refuse r.1 r.2))
  else if event = "tool_result" then
    (.span (toolSpan deps ctx rec conv seen),
      (attrStr deps a "call_id").bind (fun id =>
        (refusal seen (some id)).map (fun _ => Conversation.forgetRefusal id)))
  else (.notMine, none)

def use (ctx : RecordCtx) (rec : LogRecord) (name : Option String) : Use Conversation Mapping :=
  if !isMine ctx then .constant .notMine
  else
    match name.bind (stripPrefix · "codex.") with
    | none => .constant .notMine
    | some event =>
      { session := conversationId deps rec
        answer := fun seen => (eventUse deps ctx rec event seen).1
        change := fun seen => (eventUse deps ctx rec event seen).2 }

theorem mapEvent_eq (ctx : RecordCtx) (rec : LogRecord) (event : String)
    (recent : Recall Conversation) (loc : Local Conversation) :
    mapEvent deps ctx rec event recent loc =
      ((eventUse deps ctx rec event (recent.get loc (conversationId deps rec))).1,
        match (eventUse deps ctx rec event (recent.get loc (conversationId deps rec))).2 with
        | none => (loc, recent)
        | some f => recent.update loc (conversationId deps rec) f) := by
  -- the same question is asked on both sides, one event after the other
  unfold mapEvent eventUse
  by_cases starts : event = "conversation_starts"
  · rw [if_pos starts, if_pos starts]
    cases (attrStr deps rec.attributes "provider_name").filter (· ≠ "") <;> rfl
  rw [if_neg starts, if_neg starts]
  by_cases prompt : event = "user_prompt"
  · rw [if_pos prompt, if_pos prompt]
  rw [if_neg prompt, if_neg prompt]
  by_cases other : (event = "api_request" && otherEndpoint deps rec.attributes) = true
  · rw [if_pos other, if_pos other]
  rw [if_neg other, if_neg other]
  by_cases request : (event = "api_request" || event = "websocket_request") = true
  · rw [if_pos request, if_pos request]
    cases requestError deps event rec.attributes <;> rfl
  rw [if_neg request, if_neg request]
  by_cases sse : event = "sse_event"
  · rw [if_pos sse, if_pos sse]
    cases sseCall deps rec.attributes <;> rfl
  rw [if_neg sse, if_neg sse]
  by_cases decision : event = "tool_decision"
  · rw [if_pos decision, if_pos decision]
    cases refusedCall deps rec.attributes <;> rfl
  rw [if_neg decision, if_neg decision]
  by_cases result : event = "tool_result"
  · rw [if_pos result, if_pos result]
    cases attrStr deps rec.attributes "call_id" with
    | none => rfl
    | some id =>
      cases refused : refusal (recent.get loc (conversationId deps rec)) (some id) <;>
        simp [refused]
  rw [if_neg result, if_neg result]

/-- Every record reads and changes the memory of one conversation. -/
theorem mapLog_eq_run (ctx : RecordCtx) (rec : LogRecord) (name : Option String)
    (recent : Recall Conversation) (loc : Local Conversation) :
    mapLog deps ctx rec name recent loc = (use deps ctx rec name).run recent loc := by
  unfold mapLog use
  by_cases mine : (!isMine ctx) = true
  · rw [if_pos mine, if_pos mine]
    rfl
  rw [if_neg mine, if_neg mine]
  cases name.bind (stripPrefix · "codex.") with
  | none => rfl
  | some event =>
    simp only [mapEvent_eq, Use.run]
    cases (eventUse deps ctx rec event (recent.get loc (conversationId deps rec))).2 <;> rfl

end Evald.Logs.Codex
