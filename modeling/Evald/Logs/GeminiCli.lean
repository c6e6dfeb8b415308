import Evald.Logs.Record
import Evald.Logs.Recall

/-! # Gemini CLI's records and spans

Placed by turn like Codex's: each prompt starts a trace, remembered for the session.
With no turn remembered a span goes to a trace of its session and prompt id.  Every
record reads and changes the memory of one session (`mapLog_eq_run`).
-/

namespace Evald.Logs.GeminiCli

open Evald.Lib Evald.Otlp Evald.Normalize

def serviceName : String := "gemini-cli"

def llmSpanName : String := "gemini_cli.llm_request"
def toolSpanName : String := "gemini_cli.tool"
def promptSpanName : String := "gemini_cli.user_prompt"

structure Turn where
  traceId : List UInt8
  promptSpan : List UInt8
  deriving DecidableEq

/-- What is remembered about one session between records. -/
structure Session where
  turn : Option Turn := none
  /-- The trace context of the model request most recently sent. -/
  request : Option (List UInt8 × List UInt8) := none
  deriving DecidableEq

instance : Inhabited Session := ⟨{}⟩

def isMine (ctx : RecordCtx) : Bool :=
  ctx.serviceName = some serviceName || ctx.scopeName = some serviceName

def isTraceScope (name : Option String) : Bool := name = some serviceName

variable (deps : Deps)

def sessionId (rec : LogRecord) : String := (attrStr deps rec.attributes "session.id").getD ""

def promptId (rec : LogRecord) : String := (attrStr deps rec.attributes "prompt_id").getD ""

/-- The record's attributes and what every span made here carries. -/
def common (rec : LogRecord) (session : String) (own : Option (List UInt8 × List UInt8)) :
    List KeyValue :=
  let attributes := addSome rec.attributes
    (own.map (fun o => kvStr "evald.otel.trace_id" (hexEncode o.1)))
  let attributes := addSome attributes
    (own.map (fun o => kvStr "evald.otel.span_id" (hexEncode o.2)))
  let attributes :=
    if session ≠ "" then add attributes (kvStr "gen_ai.conversation.id" session) else attributes
  add attributes (kvStr "evald.source" "log")

/-- The trace of a span whose turn is not remembered. -/
def ownTrace (rec : LogRecord) (session : String) : List UInt8 :=
  deriveId deps 16 ["gemini_cli.turn", session, promptId deps rec]

/-- The turn a span belongs to, of what is remembered. -/
def placement (rec : LogRecord) (session : String) (seen : Option Session) :
    List UInt8 × List UInt8 :=
  match seen.bind Session.turn with
  | some t => (t.traceId, t.promptSpan)
  | none => (ownTrace deps rec session, [])

/-- A record's own trace context, when it has one. -/
def ownContext (rec : LogRecord) : Option (List UInt8 × List UInt8) :=
  match traceContext rec with
  | (some t, some s) => some (t, s)
  | _ => none

def provider (a : List KeyValue) : String :=
  if attrStr deps a "auth_type" = some "vertex-ai" then "gcp.vertex_ai" else "gcp.gemini"

def usageAttributes (a : List KeyValue) : List (String × Option Nat) :=
  let toolInput := (attrU64 a "tool_token_count").getD 0
  [("gen_ai.usage.input_tokens",
      (attrU64 a "input_token_count").map (fun i => wrappingAdd i toolInput)),
    ("gen_ai.usage.output_tokens", attrU64 a "output_token_count"),
    ("gen_ai.usage.cache_read.input_tokens", attrU64 a "cached_content_token_count"),
    ("gen_ai.usage.reasoning.output_tokens", attrU64 a "thoughts_token_count"),
    ("gen_ai.usage.total_tokens", attrU64 a "total_token_count")]

def addUsage (attrs : List KeyValue) (count : String × Option Nat) : List KeyValue :=
  addSome attrs (count.2.map (fun v => kvInt count.1 (asI64 v)))

def llmAttributes (rec : LogRecord) (session : String) (own : Option (List UInt8 × List UInt8)) :
    List KeyValue :=
  let a := rec.attributes
  let attributes := common rec session own
  let attributes := add attributes (kvStr "gen_ai.operation.name" "chat")
  let attributes := add attributes (kvStr "gen_ai.provider.name" (provider deps a))
  let attributes := addSome attributes ((attrStr deps a "model").map (kvStr "gen_ai.request.model"))
  let attributes := addSome attributes
    ((attrStr deps a "model").map (kvStr "gen_ai.response.model"))
  (usageAttributes a).foldl addUsage attributes

/-- A model call; `seen` is what is remembered of its session. -/
def llmSpan (ctx : RecordCtx) (rec : LogRecord) (session : String) (error : Option String)
    (seen : Option Session) : NormalizedSpan :=
  let a := rec.attributes
  let time := recordTime rec
  let turn := placement deps rec session seen
  -- the response carries no context; the request it ends does
  let own := (ownContext rec).or (seen.bind Session.request)
  SpanDraft.finish deps
    { traceId := turn.1
      spanId := deriveId deps 8
        ["gemini_cli.llm", session, toString time, (attrStr deps a "model").getD ""]
      parentSpanId := turn.2
      name := llmSpanName
      startUnixNano := startOf time a
      endUnixNano := time
      status := error.map Except.error
      attributes := llmAttributes deps rec session own } ctx

/-- The tool a call is about; an MCP tool is named by its server and tool. -/
def toolName (a : List KeyValue) : Option String :=
  match attrStr deps a "function_name" with
  | none => none
  | some name =>
    let server := (attrStr deps a "mcp_server_name").filter (· ≠ "")
    match server.bind (fun s => (stripPrefix name ("mcp_" ++ s ++ "_")).map (fun t => (s, t))) with
    | some (server, tool) => some ("mcp__" ++ server ++ "__" ++ tool)
    | none => some name

def toolAttributes (rec : LogRecord) (session : String) : List KeyValue :=
  let a := rec.attributes
  let attributes := common rec session (ownContext rec)
  let attributes := add attributes (kvStr "gen_ai.operation.name" "execute_tool")
  let attributes := addSome attributes ((toolName deps a).map (kvStr "gen_ai.tool.name"))
  let attributes := addSome attributes
    (((attrStr deps a "function_args").filter (· ≠ "")).map (kvStr "gen_ai.tool.call.arguments"))
  addSome attributes
    (((attrStr deps a "mcp_server_name").filter (· ≠ "")).map (kvStr "mcp.server.name"))

def toolStatus (a : List KeyValue) : Option (Except String Unit) :=
  if attrStr deps a "decision" = some "reject" then some (.error "rejected")
  else if attrStr deps a "success" = some "false" then
    some (.error ((attrStr deps a "error_type").getD "tool failed"))
  else none

/-- A tool call; `seen` is what is remembered of its session. -/
def toolSpan (ctx : RecordCtx) (rec : LogRecord) (session : String) (seen : Option Session) :
    NormalizedSpan :=
  let a := rec.attributes
  let time := recordTime rec
  let turn := placement deps rec session seen
  SpanDraft.finish deps
    { traceId := turn.1
      spanId := deriveId deps 8
        ["gemini_cli.tool", session, toString time, (toolName deps a).getD ""]
      parentSpanId := turn.2
      name := toolSpanName
      startUnixNano := startOf time a
      endUnixNano := time
      status := toolStatus deps a
      attributes := toolAttributes deps rec session } ctx

/-- The turn a prompt starts. -/
def promptTurn (rec : LogRecord) (session : String) : Turn :=
  let time := toString (recordTime rec)
  { traceId := deriveId deps 16 ["gemini_cli.turn", session, promptId deps rec, time]
    promptSpan := deriveId deps 8 ["gemini_cli.prompt", session, time] }

def promptSpan (ctx : RecordCtx) (rec : LogRecord) (session : String) (turn : Turn) :
    NormalizedSpan :=
  let time := recordTime rec
  SpanDraft.finish deps
    { traceId := turn.traceId
      spanId := turn.promptSpan
      parentSpanId := []
      name := promptSpanName
      startUnixNano := time
      endUnixNano := time
      status := none
      attributes := common rec session none } ctx

def errorMessage (a : List KeyValue) : String :=
  (((attrStr deps a "error").or (attrStr deps a "error.message")).or
    (attrStr deps a "error_type")).getD "API request failed"

/-- Map one event of a session; the record reads `recent` through `loc`. -/
def mapEvent (ctx : RecordCtx) (rec : LogRecord) (name : String) (recent : Recall Session)
    (loc : Local Session) : Mapping × Local Session × Recall Session :=
  let a := rec.attributes
  let session := sessionId deps rec
  let seen := recent.get loc session
  if name = "gemini_cli.user_prompt" then
    let turn := promptTurn deps rec session
    (.span (promptSpan deps ctx rec session turn),
      recent.update loc session (fun s => { s with turn := some turn }))
  else if name = "gemini_cli.api_response" then
    (.span (llmSpan deps ctx rec session none seen), loc, recent)
  else if name = "gemini_cli.api_error" then
    (.span (llmSpan deps ctx rec session (some (errorMessage deps a)) seen), loc, recent)
  else if name = "gemini_cli.tool_call" then
    (.span (toolSpan deps ctx rec session seen), loc, recent)
  else if name = "gemini_cli.api_request" then
    match ownContext rec with
    | some own => (.folded, recent.update loc session (fun s => { s with request := some own }))
    | none => (.folded, loc, recent)
  else if name = "gen_ai.client.inference.operation.details" then (.folded, loc, recent)
  else (.notMine, loc, recent)

/-- Map one Gemini CLI event record. -/
def mapLog (ctx : RecordCtx) (rec : LogRecord) (name : Option String) (recent : Recall Session)
    (loc : Local Session) : Mapping × Local Session × Recall Session :=
  if !isMine ctx then (.notMine, loc, recent)
  else
    match name with
    | none => (.notMine, loc, recent)
    | some name => mapEvent deps ctx rec name recent loc

/-! ## Its spans -/

/-- Usage that an event reports is set aside, and no span is part of a session. -/
def fixTraceSpan (n : NormalizedSpan) : NormalizedSpan :=
  let n := if n.name = "llm_call" then Agent.setAside Agent.usageCopy n else n
  { n with sessionId := none }

/-! ## A record reads and changes one session -/

/-- What an event does to a session, given what is remembered of it. -/
def eventUse (ctx : RecordCtx) (rec : LogRecord) (name : String) :
    Option Session → Mapping × Option (Session → Session) :=
  fun seen =>
  let a := rec.attributes
  let session := sessionId deps rec
  if name = "gemini_cli.user_prompt" then
    let turn := promptTurn deps rec session
    (.span (promptSpan deps ctx rec session turn), some (fun s => { s with turn := some turn }))
  else if name = "gemini_cli.api_response" then
    (.span (llmSpan deps ctx rec session none seen), none)
  else if name = "gemini_cli.api_error" then
    (.span (llmSpan deps ctx rec session (some (errorMessage deps a)) seen), none)
  else if name = "gemini_cli.tool_call" then (.span (toolSpan deps ctx rec session seen), none)
  else if name = "gemini_cli.api_request" then
    (.folded, (ownContext rec).map (fun own s => { s with request := some own }))
  else if name = "gen_ai.client.inference.operation.details" then (.folded, none)
  else (.notMine, none)

def use (ctx : RecordCtx) (rec : LogRecord) (name : Option String) : Use Session Mapping :=
  if !isMine ctx then .constant .notMine
  else
    match name with
    | none => .constant .notMine
    | some name =>
      { session := sessionId deps rec
        answer := fun seen => (eventUse deps ctx rec name seen).1
        change := fun seen => (eventUse deps ctx rec name seen).2 }

theorem mapEvent_eq (ctx : RecordCtx) (rec : LogRecord) (name : String) (recent : Recall Session)
    (loc : Local Session) :
    mapEvent deps ctx rec name recent loc =
      ((eventUse deps ctx rec name (recent.get loc (sessionId deps rec))).1,
        match (eventUse deps ctx rec name (recent.get loc (sessionId deps rec))).2 with
        | none => (loc, recent)
        | some f => recent.update loc (sessionId deps rec) f) := by
  unfold mapEvent eventUse
  by_cases prompt : name = "gemini_cli.user_prompt"
  · rw [if_pos prompt, if_pos prompt]
  rw [if_neg prompt, if_neg prompt]
  by_cases response : name = "gemini_cli.api_response"
  · rw [if_pos response, if_pos response]
  rw [if_neg response, if_neg response]
  by_cases error : name = "gemini_cli.api_error"
  · rw [if_pos error, if_pos error]
  rw [if_neg error, if_neg error]
  by_cases call : name = "gemini_cli.tool_call"
  · rw [if_pos call, if_pos call]
  rw [if_neg call, if_neg call]
  by_cases request : name = "gemini_cli.api_request"
  · rw [if_pos request, if_pos request]
    cases ownContext rec <;> rfl
  rw [if_neg request, if_neg request]
  by_cases details : name = "gen_ai.client.inference.operation.details"
  · rw [if_pos details, if_pos details]
  rw [if_neg details, if_neg details]

/-- Every record reads and changes the memory of one session. -/
theorem mapLog_eq_run (ctx : RecordCtx) (rec : LogRecord) (name : Option String)
    (recent : Recall Session) (loc : Local Session) :
    mapLog deps ctx rec name recent loc = (use deps ctx rec name).run recent loc := by
  unfold mapLog use
  by_cases mine : (!isMine ctx) = true
  · rw [if_pos mine, if_pos mine]
    rfl
  rw [if_neg mine, if_neg mine]
  cases name with
  | none => rfl
  | some name =>
    simp only [mapEvent_eq, Use.run]
    cases (eventUse deps ctx rec name (recent.get loc (sessionId deps rec))).2 <;> rfl

end Evald.Logs.GeminiCli
