import Evald.Cost
import Evald.JsonText
import Evald.Store.Scores
import Evald.TtftReport

/-! # The tool server

A coding agent sends one JSON-RPC message a line (or one a request) and reads the reply.  The
tools read the store; `add_score` writes one score, and is there only where writes are allowed.

The reads behind the tools are parameters here: what matters is which message reaches which of
them, and what is sent back.
-/

namespace Evald

open Lib

def Cost.Dimension.parse (debugText : String → String) (s : String) : Except String Dimension :=
  let other := asciiLowercase s
  if other = "model" then .ok .model
  else if other = "user" then .ok .user
  else if other = "session" then .ok .session
  else if other = "service" then .ok .service
  else if other = "provider" then .ok .provider
  else .error ("unknown --by " ++ debugText other ++
    " (expected one of: model, user, session, service, provider)")

def Latency.Dimension.parse (debugText : String → String) (s : String) :
    Except String Dimension :=
  let other := asciiLowercase s
  if other = "model" then .ok .model
  else if other = "provider" then .ok .provider
  else if other = "service" then .ok .service
  else .error ("unknown --by " ++ debugText other ++
    " (expected one of: model, provider, service)")

namespace Mcp

open Store

/-- What the connected agent may do. -/
structure Access where
  writes : Bool := false

/-- Newest first. -/
def protocolVersions : List String := ["2025-06-18", "2025-03-26", "2024-11-05"]

def maxString : Nat := 2000

def parseErrorCode : ℤ := -32700
def invalidRequest : ℤ := -32600
def methodNotFound : ℤ := -32601
def invalidParams : ℤ := -32602

/-- What the server is built with and runs on. -/
structure Host where
  float : Floats
  printFloat : ℚ → List Char
  parseJson : String → Except String Json
  debugText : String → String
  version : String
  codec : ScoreCodec
  scoreJson : Score → Json
  /-- The readings of the clock, and where the n-th write of the score store fails. -/
  clock : Nat → Nat
  fault : Nat → Nat → Bool
  ioError : String

/-- The reads behind the tools, over the spans and the scores. -/
structure Reads (S : Type) where
  sql : S → ScoreStore → String → Nat → Except String Json
  trace : S → String → Except String (List Json)
  traceScores : S → ScoreStore → String → Except String (List Json)
  sessions : S → Except String (List Json)
  session : S → String → Except String (Option Json)
  costRows : S → Cost.Dimension → Nat → Except String (List Json)
  latencyRows : S → Latency.Dimension → Nat → Except String (List Json)
  compareRuns : ScoreStore → String → String → F64 → Except String (List Json)

/-- The store, and how many scores were sent to it. -/
structure Node (S : Type) where
  spans : S
  scores : ScoreStore
  writes : Nat := 0

/-! ## Replies -/

def ok (id result : Json) : Json :=
  .obj [("id", id), ("jsonrpc", .str "2.0"), ("result", result)]

def error (id : Json) (code : ℤ) (message : String) : Json :=
  .obj [("error", .obj [("code", .int code), ("message", .str message)]), ("id", id),
    ("jsonrpc", .str "2.0")]

/-- The reply to a text that is no JSON at all. -/
def parseError (detail : String) : Json :=
  error .null parseErrorCode ("parse error: " ++ detail)

/-! ## The tools -/

/-- One tool's listing. -/
def tool (name title description : String) (properties : Json) (required : List String)
    (readOnly : Bool) : Json :=
  .obj
    [("annotations", .obj [("openWorldHint", .bool false), ("readOnlyHint", .bool readOnly)]),
      ("description", .str description),
      ("inputSchema", .obj
        [("properties", properties), ("required", .arr (required.map Json.str)),
          ("type", .str "object")]),
      ("name", .str name),
      ("title", .str title)]

def typed (type : String) : Json := .obj [("type", .str type)]

def described (type description : String) : Json :=
  .obj [("description", .str description), ("type", .str type)]

def oneOf (values : List String) : Json :=
  .obj [("enum", .arr (values.map Json.str)), ("type", .str "string")]

def limitProperty : String × Json :=
  ("limit", .obj [("description", .str "Most rows to return."), ("minimum", .int 1),
    ("type", .str "integer")])

def readTools : List Json :=
  [tool "sql" "Run a read-only SQL query"
      ("DataFusion SQL over the store, read-only. Tables: `spans` (trace_id, span_id, " ++
        "parent_span_id, name, oi_kind, model, provider, prompt_tokens, completion_tokens, " ++
        "total_tokens, cost_usd, input_value, output_value, session_id, user_id, " ++
        "service_name, start_unix_nano, end_unix_nano, status_code, raw_attributes_json) " ++
        "and `scores` (id, target_type, target_id, name, num_value, str_value, source, " ++
        "comment, config_id, ts_unix_nano). scores.target_id joins spans.span_id.")
      (.obj [limitProperty, ("sql", typed "string")]) ["sql"] true,
    tool "get_trace" "Get one trace"
      "Every span of a trace in start order, with the scores attached to it."
      (.obj [("trace_id", described "string" "32 hex characters")]) ["trace_id"] true,
    tool "list_sessions" "List recent sessions"
      ("The most recently active sessions (an agent's or a chat's run across traces): " ++
        "model and tool calls, failures, cost, steps per trace, suspected tool loops.")
      (.obj [limitProperty]) [] true,
    tool "get_session" "Get one session"
      ("One session rolled up: duration, traces, model calls, tool calls by tool, tool " ++
        "error rate, repeated identical tool calls, cost, models, agents.")
      (.obj [("session_id", typed "string")]) ["session_id"] true,
    tool "cost_report" "Spend by model, user, session, service or provider"
      ("Tokens and USD cost grouped by one dimension, biggest spend first. Spans without a " ++
        "price are counted in missing_cost, never as $0.")
      (.obj [("by", oneOf ["model", "user", "session", "service", "provider"]), limitProperty])
      [] true,
    tool "latency_report" "Model-call latency percentiles"
      ("Exact p50 / p95 / p99 / max of model-call duration (ms) and time to first token, " ++
        "grouped by model, provider or service.")
      (.obj [("by", oneOf ["model", "provider", "service"]), limitProperty]) [] true,
    tool "compare_runs" "Compare two eval runs"
      ("Per evaluator: run A's and run B's mean, the delta (B - A), and where both runs " ++
        "carry statistics a Welch's t-test (p-value, confidence interval on the delta). A " ++
        "negative delta is a regression.")
      (.obj [("alpha", described "number" "significance level, default 0.05"),
        ("run_a", described "string" "baseline run id"),
        ("run_b", described "string" "candidate run id")]) ["run_a", "run_b"] true,
    tool "failing_items" "The lowest-scoring items of an eval run"
      ("A run's per-item scores below a value (default 1, i.e. anything not perfect), " ++
        "lowest first, each with the span or trace it scored: get_trace shows what happened.")
      (.obj [("below", typed "number"),
        ("evaluator", described "string" "only this evaluator"), limitProperty,
        ("run_id", typed "string")]) ["run_id"] true]

def writeTool : Json :=
  tool "add_score" "Score a span, trace or session"
    "Write a score (a number, or a label) onto a span, trace or session, as source `api`."
    (.obj [("comment", typed "string"), ("label", typed "string"), ("name", typed "string"),
      ("target_id", typed "string"), ("target_type", oneOf ["span", "trace", "session"]),
      ("value", typed "number")])
    ["target_type", "target_id", "name"] false

def tools (access : Access) : List Json :=
  readTools ++ if access.writes then [writeTool] else []

def toolName (t : Json) : Option String := (t.get "name").bind Json.asStr

def argStr (args : Json) (key : String) : Except String String :=
  match ((args.get key).bind Json.asStr).filter (· ≠ "") with
  | some s => .ok s
  | none => .error ("`" ++ key ++ "` is required")

def argLimit (args : Json) (default max : Nat) : Nat :=
  min (Nat.max 1 (((args.get "limit").bind Json.asU64).getD default)) max

/-- A literal of the query language, its single quotes doubled. -/
def sqlStr (s : String) : String :=
  "'" ++ String.ofList (s.toList.flatMap (fun c => if c = '\'' then ['\'', '\''] else [c])) ++ "'"

/-- The items of a run below a value. -/
def failingSql (float : Floats) (runId : String) (below : F64) (evaluator : Option String) :
    String :=
  "SELECT name AS evaluator, num_value AS value, target_type, target_id, comment, id " ++
    "FROM scores WHERE config_id = " ++ sqlStr runId ++ " AND NOT starts_with(id, " ++
    sqlStr (runId ++ ":agg:") ++ ") AND num_value < " ++ float.display below ++
    (match evaluator with
      | some e => " AND name = " ++ sqlStr e
      | none => "") ++
    " ORDER BY num_value ASC, id"

def trimText (s : String) : String :=
  let total := s.length
  if maxString < total then
    String.ofList (s.toList.take maxString) ++ "… [" ++ toString (total - maxString) ++
      " more characters; SQL returns the whole value]"
  else s

mutual

/-- Every string that is too long is cut. -/
def trim : Json → Json
  | .str s => .str (trimText s)
  | .arr items => .arr (trimItems items)
  | .obj members => .obj (trimMembers members)
  | other => other

def trimItems : List Json → List Json
  | [] => []
  | item :: items => trim item :: trimItems items

def trimMembers : List (String × Json) → List (String × Json)
  | [] => []
  | member :: members => trimMember member :: trimMembers members

def trimMember : String × Json → String × Json
  | (key, value) => (key, trim value)

end

section Server

variable {S : Type} (host : Host) (reads : Reads S) (access : Access)

def targetOf (targetType id : String) : Except String ScoreTarget :=
  if targetType = "span" then .ok (.span id)
  else if targetType = "trace" then .ok (.trace id)
  else if targetType = "session" then .ok (.session id)
  else .error ("`target_type` is span, trace or session, not " ++ targetType)

/-- The score that `add_score` is asked to write. -/
def scoreOf (now : Nat) (args : Json) : Except String Score := do
  let id ← argStr args "target_id"
  let targetType ← argStr args "target_type"
  let target ← targetOf targetType id
  let name ← argStr args "name"
  let numValue := (args.get "value").bind (Json.asF64 host.float)
  let strValue := (args.get "label").bind Json.asStr
  if numValue.isSome = strValue.isSome then
    .error "give `value` (a number) or `label` (a string), one of them"
  else
    .ok
      { id := "mcp:" ++ targetKey target ++ ":" ++ name ++ ":" ++ toString now
        target := target
        name := name
        dataType := if numValue.isSome then .numeric else .categorical
        numValue := numValue
        strValue := strValue
        source := .api
        comment := (args.get "comment").bind Json.asStr
        tsUnixNano := now }

def addScore (node : Node S) (args : Json) : Except String Json × Node S :=
  match scoreOf host (host.clock node.writes) args with
  | .error e => (.error e, node)
  | .ok score =>
    let batch : ScoreStore.PutBatch := { scores := [score], fault := host.fault node.writes }
    let next := { node with
      scores := node.scores.afterPut host.codec batch
      writes := node.writes + 1 }
    match node.scores.putBatch host.codec batch with
    | some _ => (.ok (.obj [("stored", host.scoreJson score)]), next)
    | none => (.error host.ioError, next)

/-- A tool that reads. -/
def read (node : Node S) (name : String) (args : Json) : Except String Json :=
  if name = "sql" then do
    let sql ← argStr args "sql"
    reads.sql node.spans node.scores sql (argLimit args 200 10000)
  else if name = "get_trace" then do
    let traceId ← argStr args "trace_id"
    let spans ← reads.trace node.spans traceId
    if spans.isEmpty then .error ("no spans for trace " ++ traceId)
    else do
      let scores ← reads.traceScores node.spans node.scores traceId
      pure (.obj [("scores", .arr scores), ("spans", .arr spans), ("trace_id", .str traceId)])
  else if name = "list_sessions" then do
    let rows ← reads.sessions node.spans
    pure (.obj [("sessions", .arr (rows.take (argLimit args 20 1000)))])
  else if name = "get_session" then do
    let id ← argStr args "session_id"
    match ← reads.session node.spans id with
    | some row => pure row
    | none => .error ("no spans carry session id " ++ id)
  else if name = "cost_report" then do
    let dimension ← Cost.Dimension.parse host.debugText
      (((args.get "by").bind Json.asStr).getD "model")
    let rows ← reads.costRows node.spans dimension (argLimit args 20 1000)
    pure (.obj [("rows", .arr rows)])
  else if name = "latency_report" then do
    let dimension ← Latency.Dimension.parse host.debugText
      (((args.get "by").bind Json.asStr).getD "model")
    let rows ← reads.latencyRows node.spans dimension (argLimit args 20 1000)
    pure (.obj [("rows", .arr rows)])
  else if name = "compare_runs" then
    -- the double nearest to 0.05
    let default := F64.finite (3602879701896397 / 72057594037927936)
    match ((args.get "alpha").bind (Json.asF64 host.float)).getD default with
    | .finite alpha =>
      if 0 < alpha ∧ alpha < 1 then do
        let runA ← argStr args "run_a"
        let runB ← argStr args "run_b"
        let rows ← reads.compareRuns node.scores runA runB (.finite alpha)
        pure (.obj [("alpha", .float alpha), ("rows", .arr rows), ("run_a", .str runA),
          ("run_b", .str runB)])
      else .error "`alpha` is between 0 and 1"
    | _ => .error "`alpha` is between 0 and 1"
  else if name = "failing_items" then do
    let runId ← argStr args "run_id"
    match ((args.get "below").bind (Json.asF64 host.float)).getD (.finite 1) with
    | .finite below =>
      let evaluator := (args.get "evaluator").bind Json.asStr
      let sql := failingSql host.float runId (.finite below) evaluator
      let found ← reads.sql node.spans node.scores sql (argLimit args 50 10000)
      pure (.obj [("below", .float below), ("items", (found.get "rows").getD .null),
        ("run_id", .str runId), ("truncated", (found.get "truncated").getD .null)])
    | _ => .error "`below` is a number"
  else .error ("unknown tool: " ++ name)

def run (node : Node S) (name : String) (args : Json) : Except String Json × Node S :=
  if name = "add_score" then addScore host node args
  else (read host reads node name args, node)

/-- What a tool that failed says, which the agent can read. -/
def failed (reason : String) : Json :=
  .obj [("content", .arr [.obj [("text", .str reason), ("type", .str "text")]]),
    ("isError", .bool true)]

def answered (value : Json) : Json :=
  let value := trim value
  let structured :=
    match value with
    | .obj _ => value
    | other => .obj [("result", other)]
  .obj
    [("content", .arr
        [.obj [("text", .str (String.ofList (structured.text host.printFloat))),
          ("type", .str "text")]]),
      ("isError", .bool false),
      ("structuredContent", structured)]

/-- A call of a tool.  An error here is one of the protocol: there is no such tool. -/
def call (node : Node S) (params : Json) : Except String Json × Node S :=
  match (params.get "name").bind Json.asStr with
  | none => (.error "tools/call needs a tool name", node)
  | some name =>
    if (tools access).any (fun t => toolName t = some name) then
      match run host reads node name ((params.get "arguments").getD (.obj [])) with
      | (.ok value, next) => (.ok (answered host value), next)
      | (.error e, next) => (.ok (failed e), next)
    else (.error ("unknown tool: " ++ name), node)

def initializeReply (params : Json) : Json :=
  let asked := (params.get "protocolVersion").bind Json.asStr
  let version := (asked.filter (· ∈ protocolVersions)).getD "2025-06-18"
  let writes :=
    if access.writes then " add_score writes a score onto a span, trace or session."
    else " Read-only."
  .obj
    [("capabilities", .obj [("tools", .obj [("listChanged", .bool false)])]),
      ("instructions", .str
        ("evald stores this machine's LLM and agent traces, sessions, costs and eval runs. " ++
          "Start with list_sessions or cost_report; sql answers anything else (tables `spans` " ++
          "and `scores`; spans.raw_attributes_json holds every attribute)." ++ writes)),
      ("protocolVersion", .str version),
      ("serverInfo", .obj [("name", .str "evald"), ("version", .str host.version)])]

/-- A request: a method and an id. -/
def answer (node : Node S) (id : Json) (method : String) (params : Json) : Json × Node S :=
  if method = "initialize" then (ok id (initializeReply host access params), node)
  else if method = "ping" then (ok id (.obj []), node)
  else if method = "tools/list" then (ok id (.obj [("tools", .arr (tools access))]), node)
  else if method = "tools/call" then
    match call host reads access node params with
    | (.ok result, next) => (ok id result, next)
    | (.error e, next) => (error id invalidParams e, next)
  else if method = "resources/list" then (ok id (.obj [("resources", .arr [])]), node)
  else if method = "prompts/list" then (ok id (.obj [("prompts", .arr [])]), node)
  else (error id methodNotFound ("method not found: " ++ method), node)

mutual

/-- One message, or a batch.  Nothing is owed to a notification or to a response. -/
def handle (node : Node S) : Json → Option Json × Node S
  | .arr [] => (some (error .null invalidRequest "empty batch"), node)
  | .arr (first :: batch) =>
    let (reply, node) := handle node first
    let (replies, node) := handleAll node batch
    let replies := reply.toList ++ replies
    (if replies.isEmpty then none else some (.arr replies), node)
  | .obj members =>
    let message := Json.obj members
    match (message.get "method").bind Json.asStr, message.get "id" with
    | some method, some id =>
      let (reply, node) :=
        answer host reads access node id method ((message.get "params").getD .null)
      (some reply, node)
    | _, _ => (none, node)
  | _ => (some (error .null invalidRequest "a message is a JSON object"), node)

def handleAll (node : Node S) : List Json → List Json × Node S
  | [] => ([], node)
  | message :: batch =>
    let (reply, node) := handle node message
    let (replies, node) := handleAll node batch
    (reply.toList ++ replies, node)

end

/-! ## The two transports -/

/-- One line of standard input. -/
def serveLine (node : Node S) (line : String) : Option Json × Node S :=
  if Lib.trim line = "" then (none, node)
  else
    match host.parseJson line with
    | .ok message => handle host reads access node message
    | .error e => (some (parseError e), node)

/-- The lines of standard input, and what is written to standard output. -/
def serveLines (node : Node S) : List String → List Char × Node S
  | [] => ([], node)
  | line :: lines =>
    let (reply, node) := serveLine host reads access node line
    let (written, node) := serveLines node lines
    (reply.elim [] (fun r => r.text host.printFloat ++ ['\n']) ++ written, node)

/-- The host of an authority: what stands in the brackets, else what stands before the port. -/
def hostname (authority : List Char) : List Char :=
  match authority with
  | '[' :: v6 => v6.takeWhile (· ≠ ']')
  | _ => authority.takeWhile (· ≠ ':')

/-- An origin may drive the server only when it is a loopback address. -/
def mcpOriginAllowed (origin : String) : Bool :=
  match (stripPrefix origin "http://").or (stripPrefix origin "https://") with
  | none => false
  | some rest =>
    let hostname := hostname (rest.toList.takeWhile (· ≠ '/'))
    hostname = "localhost".toList || hostname = "127.0.0.1".toList || hostname = "::1".toList

inductive HttpReply where
  | forbidden
  | badRequest (body : Json)
  | json (body : Json)
  | accepted

/-- A request carries the text of its `Origin`, where it has one. -/
def postMcp (node : Node S) (origin : Option String) (body : String) : HttpReply × Node S :=
  if origin.any (fun o => !mcpOriginAllowed o) then (.forbidden, node)
  else
    match host.parseJson body with
    | .error e => (.badRequest (parseError e), node)
    | .ok message =>
      match handle host reads access node message with
      | (some reply, node) => (.json reply, node)
      | (none, node) => (.accepted, node)

end Server

end Mcp

end Evald
