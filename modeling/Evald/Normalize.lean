import Evald.Agent
import Evald.Deps

/-! # From a received span to the normalized one

Every field is read by trying the keys of the conventions in their order, so a span
in either convention, or a mix, comes out the same.  An attribute lookup takes the
first entry with the key; the copy of all attributes keeps the last.
-/

namespace Evald.Normalize

open Evald.Lib Evald.Otlp

/-! ## Reading attributes -/

def attr (attrs : List KeyValue) (key : String) : Option AnyValue :=
  (attrs.find? (fun kv => kv.key = key)).bind KeyValue.value

variable (deps : Deps)

/-- A scalar as a string; an array, a key-value list or bytes have no such form. -/
def scalarString : AnyValue → Option String
  | .string s => some s
  | .int i => some (toString i)
  | .double d => some (deps.float.display d)
  | .bool b => some (toString b)
  | _ => none

def attrStr (attrs : List KeyValue) (key : String) : Option String :=
  (attr attrs key).bind (scalarString deps)

/-- An attribute as a count: an integer, a whole double or a numeric string. -/
def attrU64 (attrs : List KeyValue) (key : String) : Option Nat :=
  match attr attrs key with
  | some (.int i) => if 0 ≤ i then some i.toNat else none
  | some (.double d) => d.toU64?
  | some (.string s) => parseU64 s
  | _ => none

def attrF64 (attrs : List KeyValue) (key : String) : Option F64 :=
  match attr attrs key with
  | some (.double d) => some d
  | some (.int i) => some (deps.float.ofInt i)
  | some (.string s) => deps.float.parse s
  | _ => none

def firstStr (attrs : List KeyValue) (keys : List String) : Option String :=
  keys.findSome? (attrStr deps attrs)

def firstU64 (attrs : List KeyValue) (keys : List String) : Option Nat :=
  keys.findSome? (attrU64 attrs)

def firstF64 (attrs : List KeyValue) (keys : List String) : Option F64 :=
  keys.findSome? (attrF64 deps attrs)

def nonEmpty (s : String) : Option String := if s = "" then none else some s

/-! ## The copy of all attributes -/

/-- An object keeps its members in key order, and the last value of each key. -/
def insertMember (key : String) (value : Json) : List (String × Json) → List (String × Json)
  | [] => [(key, value)]
  | (k, v) :: rest =>
    match compare key k with
    | .lt => (key, value) :: (k, v) :: rest
    | .eq => (key, value) :: rest
    | .gt => (k, v) :: insertMember key value rest

mutual

def anyvalueToJson : AnyValue → Json
  | .unset => .null
  | .string s => .str s
  | .bool b => .bool b
  | .int i => .int i
  | .double (.finite q) => .float q
  -- a JSON number is finite
  | .double (.infinite _) => .null
  | .double .nan => .null
  | .array values => .arr (arrayToJson values)
  | .kvlist values => .obj (membersToJson values [])
  | .bytes b => .str (hexEncode b)
  | .stringIndex _ => .null

def arrayToJson : List AnyValue → List Json
  | [] => []
  | v :: rest => anyvalueToJson v :: arrayToJson rest

def membersToJson : List KeyValue → List (String × Json) → List (String × Json)
  | [], members => members
  | .mk key value :: rest, members =>
    membersToJson rest (insertMember key (valueToJson value) members)

def valueToJson : Option AnyValue → Json
  | none => .null
  | some v => anyvalueToJson v

end

def rawAttributes (attrs : List KeyValue) : Attributes :=
  attrs.foldl (fun raw kv => raw.insert kv.key (valueToJson kv.value)) ∅

/-! ## The kind and the convention -/

def isGenaiCallKey (key : String) : Bool :=
  startsWith key "gen_ai.request." || startsWith key "gen_ai.response." ||
    startsWith key "gen_ai.usage."

def hasGenaiCall (attrs : List KeyValue) : Bool := attrs.any (fun kv => isGenaiCallKey kv.key)

def operationKind (attrs : List KeyValue) (operation : String) : String :=
  let op := asciiLowercase operation
  if op = "chat" || op = "text_completion" || op = "generate_content" then "LLM"
  else if op = "embeddings" || op = "embedding" then "EMBEDDING"
  else if op = "execute_tool" || op = "tool" then "TOOL"
  else if op = "create_agent" || op = "invoke_agent" || op = "agent" then "AGENT"
  else if op = "retrieval" || op = "search_memory" then "RETRIEVER"
  -- any other operation is a model call when it carries a model call's attributes
  else if hasGenaiCall attrs then "LLM"
  else "CHAIN"

/-- The kind of a span that does not name one. -/
def inferOiKind (attrs : List KeyValue) : Option String :=
  match attrStr deps attrs "gen_ai.operation.name" with
  | some op => some (operationKind attrs op)
  | none =>
    if hasGenaiCall attrs then some "LLM"
    else if attrs.any (fun kv => startsWith kv.key "gen_ai.tool.") ||
        attrStr deps attrs "mcp.method.name" = some "tools/call" then some "TOOL"
    else none

def detectDialect (attrs : List KeyValue) : Dialect :=
  let hasOi := attrs.any (fun kv => kv.key = "openinference.span.kind" ||
    startsWith kv.key "llm." || startsWith kv.key "openinference.")
  let hasGenai := attrs.any (fun kv => startsWith kv.key "gen_ai.")
  match hasOi, hasGenai with
  | true, true => .mixed
  | true, false => .openInference
  | false, true => .genAi
  | false, false => .unknown

/-! ## Messages in the indexed shape -/

def maxIndexedMessages : Nat := 4096

/-- The role and the content of each message index. -/
abbrev Messages := Std.ExtTreeMap Nat (Option String × Option String)

/-- `<index>.<field>` after the prefix of a kind of message. -/
def messageKey (rest : String) : Option (Nat × String) :=
  match splitOnce rest '.' with
  | some (index, field) =>
    match parseU64 index with
    | some i => if maxIndexedMessages ≤ i then none else some (i, field)
    | none => none
  | none => none

/-- One attribute: any field marks its index present. -/
def indexMessage (start : String) (byIndex : Messages) (kv : KeyValue) : Messages :=
  match (stripPrefix kv.key start).bind messageKey with
  | some (i, field) =>
    let entry := byIndex.getD i (none, none)
    let scalar := kv.value.bind (scalarString deps)
    if field = "role" then byIndex.insert i (scalar, entry.2)
    else if field = "content" then byIndex.insert i (entry.1, scalar)
    else byIndex.insert i entry
  | none => byIndex

def messageJson (message : Option String × Option String) : Option Json :=
  match message with
  | (none, none) => none
  | (role, content) =>
    some (.obj ((content.map (fun c => ("content", Json.str c))).toList ++
      (role.map (fun r => ("role", Json.str r))).toList))

/-- The messages from index `i` on, up to the first absent index. -/
def contiguous (byIndex : Messages) : Nat → Nat → List Json
  | 0, _ => []
  | fuel + 1, i =>
    match byIndex[i]? with
    | some message => (messageJson message).toList ++ contiguous byIndex fuel (i + 1)
    | none => []

def indexedMessages (attrs : List KeyValue) (kind : String) : Option String :=
  let byIndex := attrs.foldl (indexMessage deps ("gen_ai." ++ kind ++ ".")) ∅
  -- an index is below the cap, so the scan ends within it
  let messages := contiguous byIndex maxIndexedMessages 0
  if messages.isEmpty then none else some (deps.renderJson (.arr messages))

/-! ## One span -/

def costAttributes : List String := ["llm.cost.total", "gen_ai.usage.cost"]

def reportedTokens (a : List KeyValue) : Tokens :=
  { prompt := firstU64 a
      ["llm.token_count.prompt", "gen_ai.usage.input_tokens", "gen_ai.usage.prompt_tokens"]
    completion := firstU64 a
      ["llm.token_count.completion", "gen_ai.usage.output_tokens",
        "gen_ai.usage.completion_tokens"]
    total := firstU64 a ["llm.token_count.total", "gen_ai.usage.total_tokens"]
    cacheRead := firstU64 a
      ["llm.token_count.prompt_details.cache_read", "gen_ai.usage.cache_read.input_tokens"]
    cacheWrite := firstU64 a
      ["llm.token_count.prompt_details.cache_write",
        "gen_ai.usage.cache_creation.input_tokens", "gen_ai.usage.cache_write.input_tokens"]
    reasoning := firstU64 a
      ["llm.token_count.completion_details.reasoning", "gen_ai.usage.reasoning_tokens",
        "gen_ai.usage.reasoning.output_tokens"] }

/-- The total is derived when only the parts are reported. -/
def withTotal (tokens : Tokens) : Tokens :=
  match tokens.total, tokens.prompt, tokens.completion with
  | none, some p, some c => { tokens with total := some (wrappingAdd p c) }
  | _, _, _ => tokens

/-- The fields of a span as its attributes give them. -/
def readSpan (span : Span) (serviceName scopeName scopeVersion : Option String) :
    NormalizedSpan :=
  let a := span.attributes
  { dialect := detectDialect a
    traceId := hexEncode span.traceId
    spanId := hexEncode span.spanId
    parentSpanId := if span.parentSpanId.isEmpty then none else some (hexEncode span.parentSpanId)
    name := span.name
    otelKind := span.kind
    oiKind := (attrStr deps a "openinference.span.kind").or (inferOiKind deps a)
    startUnixNano := span.startTimeUnixNano
    endUnixNano := span.endTimeUnixNano
    statusCode := (span.status.map Status.code).getD 0
    statusMessage := span.status.bind (fun s => nonEmpty s.message)
    model := firstStr deps a ["gen_ai.response.model", "gen_ai.request.model", "llm.model_name"]
    provider := firstStr deps a
      ["gen_ai.provider.name", "gen_ai.system", "llm.provider", "llm.system"]
    tokens := withTotal (reportedTokens a)
    costUsd := firstF64 deps a costAttributes
    inputValue := (firstStr deps a ["input.value", "gen_ai.input.messages", "gen_ai.prompt"]).or
      (indexedMessages deps a "prompt")
    outputValue :=
      (firstStr deps a ["output.value", "gen_ai.output.messages", "gen_ai.completion"]).or
        (indexedMessages deps a "completion")
    sessionId := firstStr deps a ["session.id", "gen_ai.conversation.id"]
    userId := firstStr deps a ["user.id"]
    serviceName := serviceName
    scopeName := scopeName
    scopeVersion := scopeVersion
    rawAttributes := rawAttributes a }

/-- Normalize a single span with its resource and scope already resolved. -/
def normalizeSpan (span : Span) (serviceName scopeName scopeVersion : Option String) :
    NormalizedSpan :=
  Agent.normalize (readSpan deps span serviceName scopeName scopeVersion)

end Evald.Normalize
