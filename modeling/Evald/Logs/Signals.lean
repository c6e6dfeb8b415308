import Evald.Ledger
import Evald.Logs.Facts
import Evald.Logs.Door

/-! # The two signals of a call

Claude Code describes a call by an event on the logs door, by a span on the traces door,
or by both, and both name it by its id.  Whichever describes it, the normalized span is of
the call's kind and session and marks the call's key (`CopyOf`).  The span of an API call
is also given the call's own span id; a tool span keeps the id it was sent with.
-/

namespace Evald.Logs

open Evald.Lib Evald.Otlp Evald.Normalize Evald.Traces

/-! ## What a list of attributes carries -/

/-- Every attribute with the key is this text. -/
def Agrees (attrs : List KeyValue) (key value : String) : Prop :=
  ∀ kv ∈ attrs, kv.key = key → kv.value = some (.string value)

/-- The text under the key. -/
structure Carries (attrs : List KeyValue) (key value : String) : Prop where
  there : ∃ kv ∈ attrs, kv.key = key
  agrees : Agrees attrs key value

def Absent (attrs : List KeyValue) (key : String) : Prop := ∀ kv ∈ attrs, kv.key ≠ key

theorem Agrees.attrStr {attrs : List KeyValue} {key value : String} (deps : Deps)
    (agrees : Agrees attrs key value) :
    attrStr deps attrs key = none ∨ attrStr deps attrs key = some value := by
  unfold Normalize.attrStr attr
  cases found : attrs.find? (fun kv => kv.key = key) with
  | none => exact .inl rfl
  | some kv =>
    have named : kv.key = key := by simpa using List.find?_some found
    have text := agrees kv (List.mem_of_find?_eq_some found) named
    right
    simp [text, scalarString]

theorem Carries.attrStr {attrs : List KeyValue} {key value : String} (deps : Deps)
    (carries : Carries attrs key value) : attrStr deps attrs key = some value := by
  cases carries.agrees.attrStr deps with
  | inr text => exact text
  | inl missing =>
    obtain ⟨kv, member, named⟩ := carries.there
    unfold Normalize.attrStr attr at missing
    cases found : attrs.find? (fun kv => kv.key = key) with
    | none =>
      rw [List.find?_eq_none] at found
      exact absurd named (by simpa using found kv member)
    | some first =>
      have first_key : first.key = key := by simpa using List.find?_some found
      have text := carries.agrees first (List.mem_of_find?_eq_some found) first_key
      rw [found] at missing
      simp [text, scalarString] at missing

theorem Absent.attrStr {attrs : List KeyValue} {key : String} (deps : Deps)
    (absent : Absent attrs key) : attrStr deps attrs key = none := by
  have missing : attrs.find? (fun kv => kv.key = key) = none := by
    rw [List.find?_eq_none]
    intro kv member
    simpa using absent kv member
  simp [Normalize.attrStr, attr, missing]

/-- In the copy of all attributes. -/
theorem Agrees.raw {attrs : List KeyValue} {key value : String} (agrees : Agrees attrs key value)
    {v : Json} (held : (rawAttributes attrs)[key]? = some v) : v = .str value := by
  rw [getElem?_rawAttributes] at held
  obtain ⟨kv, found, is⟩ := Option.map_eq_some_iff.mp held
  have named : kv.key = key := by simpa using List.find?_some found
  have member := List.mem_reverse.mp (List.mem_of_find?_eq_some found)
  rw [← is, agrees kv member named]
  rfl

theorem Carries.raw {attrs : List KeyValue} {key value : String} (carries : Carries attrs key value) :
    (rawAttributes attrs)[key]? = some (.str value) := by
  cases held : (rawAttributes attrs)[key]? with
  | some v => rw [carries.agrees.raw held]
  | none =>
    obtain ⟨kv, member, named⟩ := carries.there
    rw [getElem?_rawAttributes, Option.map_eq_none_iff, List.find?_eq_none] at held
    exact absurd named (by simpa using held kv (List.mem_reverse.mpr member))

theorem Absent.raw {attrs : List KeyValue} {key : String} (absent : Absent attrs key) :
    (rawAttributes attrs)[key]? = none := by
  rw [getElem?_rawAttributes, Option.map_eq_none_iff, List.find?_eq_none]
  intro kv member
  simpa using absent kv (List.mem_reverse.mp member)

/-! ## Attributes that are added -/

/-- Attributes were added, each under one of the keys. -/
structure Grows (keys : List String) (attrs attrs' : List KeyValue) : Prop where
  kept : ∀ kv ∈ attrs, kv ∈ attrs'
  added : ∀ kv ∈ attrs', kv ∈ attrs ∨ kv.key ∈ keys

theorem Grows.refl (keys : List String) (attrs : List KeyValue) : Grows keys attrs attrs where
  kept := fun _ member => member
  added := fun _ member => .inl member

theorem Grows.add {keys : List String} {attrs attrs' : List KeyValue}
    (grows : Grows keys attrs attrs') {kv : KeyValue} (inside : kv.key ∈ keys) :
    Grows keys attrs (add attrs' kv) := by
  unfold Logs.add
  split
  · exact grows
  · constructor
    · intro x member
      exact List.mem_append_left _ (grows.kept x member)
    · intro x member
      cases List.mem_append.mp member with
      | inl old => exact grows.added x old
      | inr new =>
        rw [List.mem_singleton.mp new]
        exact .inr inside

/-- One that is added only where there is a value for it. -/
theorem Grows.addSome {α : Type} {keys : List String} {attrs attrs' : List KeyValue}
    (grows : Grows keys attrs attrs') {f : α → KeyValue} {v : Option α} {key : String}
    (named : ∀ x, (f x).key = key) (inside : key ∈ keys) :
    Grows keys attrs (addSome attrs' (v.map f)) := by
  cases v with
  | none => exact grows
  | some x => exact grows.add ((named x).symm ▸ inside)

theorem Grows.agrees {keys : List String} {attrs attrs' : List KeyValue} {key value : String}
    (grows : Grows keys attrs attrs') (other : key ∉ keys) (agrees : Agrees attrs key value) :
    Agrees attrs' key value := by
  intro kv member named
  cases grows.added kv member with
  | inl old => exact agrees kv old named
  | inr new => exact absurd (named ▸ new) other

theorem Grows.carries {keys : List String} {attrs attrs' : List KeyValue} {key value : String}
    (grows : Grows keys attrs attrs') (other : key ∉ keys) (carries : Carries attrs key value) :
    Carries attrs' key value := by
  obtain ⟨kv, member, named⟩ := carries.there
  exact ⟨⟨kv, grows.kept kv member, named⟩, grows.agrees other carries.agrees⟩

theorem Grows.absent {keys : List String} {attrs attrs' : List KeyValue} {key : String}
    (grows : Grows keys attrs attrs') (other : key ∉ keys) (absent : Absent attrs key) :
    Absent attrs' key := by
  intro kv member named
  cases grows.added kv member with
  | inl old => exact absent kv old named
  | inr new => exact other (named ▸ new)

/-- A text that is added unless the key is there. -/
theorem carries_add {attrs : List KeyValue} {key value : String} (agrees : Agrees attrs key value) :
    Carries (add attrs (kvStr key value)) key value := by
  unfold add
  split
  · next found =>
    obtain ⟨kv, member, named⟩ := List.any_eq_true.mp found
    exact ⟨⟨kv, member, of_decide_eq_true named⟩, agrees⟩
  · constructor
    · exact ⟨kvStr key value, by simp, by simp [kvStr]⟩
    · intro kv member named
      cases List.mem_append.mp member with
      | inl old => exact agrees kv old named
      | inr new =>
        rw [List.mem_singleton.mp new]
        rfl

theorem Absent.agrees {attrs : List KeyValue} {key : String} (absent : Absent attrs key)
    (value : String) : Agrees attrs key value :=
  fun kv member named => absurd named (absent kv member)

/-! ## Calls and what describes them -/

/-- A call of a Claude Code session, by the id its signals name it by. -/
inductive Call where
  | llm (requestId : String)
  | tool (toolUseId : String)
  deriving DecidableEq

namespace Call

def id : Call → String
  | .llm requestId => requestId
  | .tool toolUseId => toolUseId

def kind : Call → String
  | .llm _ => "LLM"
  | .tool _ => "TOOL"

/-- What the ledger remembers the call by. -/
def key : Call → String
  | .llm requestId => ClaudeCode.llmCallKey requestId
  | .tool toolUseId => ClaudeCode.toolCallKey toolUseId

/-- The span id that is derived from the call's id. -/
def spanId (deps : Deps) : Call → List UInt8
  | .llm requestId => ClaudeCode.llmSpanId deps requestId
  | .tool toolUseId => ClaudeCode.toolSpanId deps toolUseId

def spanName : Call → String
  | .llm _ => ClaudeCode.llmSpanName
  | .tool _ => ClaudeCode.toolSpanName

def operation : Call → String
  | .llm _ => "chat"
  | .tool _ => "execute_tool"

/-- The attribute both signals carry the id in. -/
def idKey : Call → String
  | .llm _ => "request_id"
  | .tool _ => "tool_use_id"

/-- The attributes that would name the call otherwise. -/
def idKeys : Call → List String
  | .llm _ => ["request_id"]
  | .tool _ => Agent.toolCallIdKeys

/-- The events that are about the call. -/
def IsEvent (deps : Deps) (rec : LogRecord) : Call → String → Prop
  | .llm _, event => event = "api_request" ∨ event = "api_error"
  | .tool _, event => event = "tool_result" ∨
    event = "tool_decision" ∧ attrStr deps rec.attributes "decision" = some "reject"

/-- The attribute a span of the call has its kind from. -/
def kindKey : Call → String
  | .llm _ => "gen_ai.request.model"
  | .tool _ => "gen_ai.operation.name"

theorem key_ne (requestId toolUseId : String) : key (.llm requestId) ≠ key (.tool toolUseId) := by
  intro same
  have spelled : "claude_code.llm:" ++ requestId = "claude_code.tool:" ++ toolUseId := same
  have characters := congrArg (fun text => text.toList.take 13) spelled
  simp only [String.toList_append] at characters
  rw [List.take_append_of_le_length (by decide), List.take_append_of_le_length (by decide)]
    at characters
  exact absurd characters (by decide)

theorem key_inj {call call' : Call} (same : call.key = call'.key) : call = call' := by
  cases call with
  | llm requestId =>
    cases call' with
    | llm requestId' => rw [(String.append_right_inj _).mp same]
    | tool toolUseId => exact absurd same (key_ne requestId toolUseId)
  | tool toolUseId =>
    cases call' with
    | llm requestId => exact absurd same.symm (key_ne requestId toolUseId)
    | tool toolUseId' => rw [(String.append_right_inj _).mp same]

end Call

/-- Attributes that name the call and its session, and nothing that says otherwise. -/
structure Naming (session : String) (call : Call) (attrs : List KeyValue) : Prop where
  session : Carries attrs "session.id" session
  id : Carries attrs call.idKey call.id
  ids : ∀ key ∈ call.idKeys, Agrees attrs key call.id
  operation : Agrees attrs "gen_ai.operation.name" call.operation
  plain : ∀ key ∈ ["openinference.span.kind", ClaudeCode.callKey, ClaudeCode.callAnchor],
    Absent attrs key

/-- A log event of the call. -/
structure EventOf (deps : Deps) (session : String) (call : Call) (ctx : RecordCtx)
    (rec : LogRecord) : Prop where
  mine : ClaudeCode.isMine ctx = true
  event : ∃ name, eventName deps rec = some name ∧
    call.IsEvent deps rec ((stripPrefix name "claude_code.").getD name)
  naming : Naming session call rec.attributes

/-- A traced span of the call. -/
structure SpanOf (session : String) (call : Call) (scope : Option Scope) (span : Span) :
    Prop where
  traced : (scopeOf scope).1 = some ClaudeCode.tracingScope
  name : span.name = call.spanName
  naming : Naming session call span.attributes
  kind : ∃ kv ∈ span.attributes, kv.key = call.kindKey

/-- A phase of a tool call, traced under the call's span. -/
structure PhaseOf (scope : Option Scope) (span : Span) : Prop where
  traced : (scopeOf scope).1 = some ClaudeCode.tracingScope
  name : span.name = "claude_code.tool.execution"
  plain : ∀ key ∈ [ClaudeCode.callKey, ClaudeCode.callAnchor], Absent span.attributes key

/-- A normalized span that is counted as the call. -/
structure CopyOf (deps : Deps) (session : String) (call : Call) (s : NormalizedSpan) : Prop where
  kind : s.oiKind = some call.kind
  mark : CallLedger.mark s = some call.key
  session : s.sessionId = some session
  named : startsWith s.name "claude_code." = true
  /-- An API call is never anchored; its id is its span's. -/
  llm : ∀ requestId, call = .llm requestId →
    CallLedger.anchorOf s = none ∧ s.spanId = hexEncode (call.spanId deps)
  /-- A tool call's id is an attribute. -/
  tool : ∀ toolUseId, call = .tool toolUseId →
    s.rawAttributes["gen_ai.tool.call.id"]? = some (.str toolUseId)

/-- A normalized span that is counted as no call. -/
structure Uncounted (s : NormalizedSpan) : Prop where
  kind : s.oiKind = none
  mark : CallLedger.mark s = none
  named : startsWith s.name "claude_code." = true

/-- The price changes nothing of a copy. -/
theorem CopyOf.apply {deps : Deps} {session : String} {call : Call} {s : NormalizedSpan}
    (copy : CopyOf deps session call s) (float : Floats) (prices : Pricing.PriceTable) :
    CopyOf deps session call (Pricing.apply float prices s) := by
  obtain ⟨cost, raw, kept, priced⟩ := Pricing.apply_spec float prices s
  have anchor : CallLedger.anchorOf (Pricing.apply float prices s) = CallLedger.anchorOf s := by
    rw [CallLedger.anchorOf, priced, kept ClaudeCode.callAnchor (by decide)]
    rfl
  have key : CallLedger.keyOf (Pricing.apply float prices s) = CallLedger.keyOf s := by
    rw [CallLedger.keyOf, priced, kept ClaudeCode.callKey (by decide)]
    rfl
  refine ⟨by rw [priced]; exact copy.kind, ?_, by rw [priced]; exact copy.session,
    by rw [priced]; exact copy.named, fun requestId isLlm => ?_, fun toolUseId isTool => ?_⟩
  · rw [CallLedger.mark, anchor, key]
    exact copy.mark
  · rw [anchor, priced]
    exact copy.llm requestId isLlm
  · rw [priced]
    exact (kept _ (by decide)).trans (copy.tool toolUseId isTool)

/-! ## What the normalization does to a call's span -/

/-- The spellings of one fact agree: the canonical key has it. -/
theorem canonical_head {key : String} {aliases : List String} {s : NormalizedSpan} {v : String}
    (agrees : ∀ k ∈ key :: aliases, ∀ x, s.rawAttributes[k]? = some x → x = .str v)
    (there : ∃ k ∈ key :: aliases, s.rawAttributes[k]? = some (.str v)) :
    (Agent.canonical (key :: aliases) s).rawAttributes[key]? = some (.str v) := by
  unfold Agent.canonical
  simp only
  split
  · next held =>
    rw [Std.ExtTreeMap.contains_eq_isSome_getElem?] at held
    obtain ⟨x, found⟩ := Option.isSome_iff_exists.mp held
    rw [found, agrees key List.mem_cons_self x found]
  · next missing =>
    have spelled : ∃ x, aliases.findSome?
        (fun k => (s.rawAttributes[k]?).filter Json.isString) = some x := by
      obtain ⟨k, member, found⟩ := there
      have other : k ∈ aliases := by
        cases List.mem_cons.mp member with
        | inr later => exact later
        | inl same =>
          rw [Std.ExtTreeMap.contains_eq_isSome_getElem?, ← same, found] at missing
          exact absurd rfl missing
      apply Option.isSome_iff_exists.mp
      rw [List.findSome?_isSome_iff]
      exact ⟨k, other, by rw [found]; rfl⟩
    obtain ⟨x, found⟩ := spelled
    obtain ⟨k, member, held⟩ := List.exists_of_findSome?_eq_some found
    have stored := (Option.filter_eq_some_iff.mp held).1
    rw [found]
    simp only
    rw [getElem?_insert_if, if_pos rfl, agrees k (List.mem_cons_of_mem _ member) x stored]

theorem normalize_tool {s : NormalizedSpan} (kind : s.oiKind = some "TOOL") :
    Agent.normalize s =
      Agent.canonical Agent.toolCallIdKeys (Agent.canonical Agent.toolNameKeys s) := by
  unfold Agent.normalize
  rw [kind]
  simp [show eqIgnoreAsciiCase "TOOL" "TOOL" = true by decide]

/-- The pass over a call's span writes the canonical keys of a tool only. -/
theorem normalize_call {call : Call} {s : NormalizedSpan} (kind : s.oiKind = some call.kind) :
    ∃ raw : Attributes,
      (∀ key ∉ ["gen_ai.tool.name", "gen_ai.tool.call.id"], raw[key]? = s.rawAttributes[key]?) ∧
      Agent.normalize s = { s with rawAttributes := raw } := by
  cases call with
  | llm requestId =>
    have unchanged : Agent.normalize s = s := by
      unfold Agent.normalize
      rw [kind]
      simp [Call.kind, show eqIgnoreAsciiCase "LLM" "TOOL" = false by decide,
        show eqIgnoreAsciiCase "LLM" "AGENT" = false by decide,
        show eqIgnoreAsciiCase "LLM" "CHAIN" = false by decide]
    exact ⟨s.rawAttributes, fun _ _ => rfl, unchanged⟩
  | tool toolUseId =>
    obtain ⟨raw, kept, frame⟩ :=
      Agent.canonical_canonical Agent.toolCallIdKeys Agent.toolNameKeys s
    refine ⟨raw, fun key other => ?_, ?_⟩
    · simp only [List.mem_cons, List.not_mem_nil, or_false, not_or] at other
      exact kept key (by simpa [Agent.toolCallIdKeys] using Ne.symm other.2)
        (by simpa [Agent.toolNameKeys] using Ne.symm other.1)
    · rw [normalize_tool kind, frame]

theorem normalize_callId {toolUseId : String} {s : NormalizedSpan} (kind : s.oiKind = some "TOOL")
    (agrees : ∀ k ∈ Agent.toolCallIdKeys, ∀ x, s.rawAttributes[k]? = some x → x = .str toolUseId)
    (there : ∃ k ∈ Agent.toolCallIdKeys, s.rawAttributes[k]? = some (.str toolUseId)) :
    (Agent.normalize s).rawAttributes["gen_ai.tool.call.id"]? = some (.str toolUseId) := by
  obtain ⟨raw, kept, named⟩ := Agent.canonical_spec Agent.toolNameKeys s
  have same (k : String) (member : k ∈ Agent.toolCallIdKeys) :
      (Agent.canonical Agent.toolNameKeys s).rawAttributes[k]? = s.rawAttributes[k]? := by
    rw [named]
    apply kept
    intro isName
    simp only [Agent.toolNameKeys, List.head?_cons, Option.some.injEq] at isName
    subst isName
    revert member
    decide
  rw [normalize_tool kind]
  apply canonical_head
  · intro k member x found
    rw [same k member] at found
    exact agrees k member x found
  · obtain ⟨k, member, found⟩ := there
    exact ⟨k, member, by rw [same k member, found]⟩

/-! ## The event -/

section Event

variable (deps : Deps) (prices : Pricing.PriceTable) {session : String}

/-- The keys an API event's span is given. -/
def llmKeys : List String :=
  ["gen_ai.provider.name", "gen_ai.request.model", "gen_ai.response.model",
    "gen_ai.usage.input_tokens", "gen_ai.usage.output_tokens",
    "gen_ai.usage.cache_read.input_tokens", "gen_ai.usage.cache_creation.input_tokens",
    "gen_ai.usage.total_tokens", "gen_ai.usage.cost", "gen_ai.response.id",
    "gen_ai.response.time_to_first_chunk", "evald.source"]

theorem llmAttributes_eq (rec : LogRecord) : ∃ grown,
    Grows llmKeys (add rec.attributes (kvStr "gen_ai.operation.name" "chat")) grown ∧
      ClaudeCode.llmAttributes deps rec = add grown
        (kvStr ClaudeCode.callKey (ClaudeCode.llmCallKey (ClaudeCode.requestKey deps rec))) := by
  refine ⟨_, ?_, rfl⟩
  -- the counts and the total add keys of the list only
  have counts {start : List KeyValue} (grows : Grows llmKeys
        (add rec.attributes (kvStr "gen_ai.operation.name" "chat")) start)
      (counts : List (String × Option Nat)) (inside : ∀ count ∈ counts, count.1 ∈ llmKeys) :
      Grows llmKeys (add rec.attributes (kvStr "gen_ai.operation.name" "chat"))
        (counts.foldl ClaudeCode.addCount start) := by
    induction counts generalizing start with
    | nil => exact grows
    | cons count counts inductionHypothesis =>
      apply inductionHypothesis
      · exact grows.addSome (fun _ => rfl) (inside count List.mem_cons_self)
      · exact fun c member => inside c (List.mem_cons_of_mem _ member)
  have total {start : List KeyValue} (grows : Grows llmKeys
        (add rec.attributes (kvStr "gen_ai.operation.name" "chat")) start) :
      Grows llmKeys (add rec.attributes (kvStr "gen_ai.operation.name" "chat"))
        (addSome start (ClaudeCode.totalAttribute rec.attributes)) := by
    unfold ClaudeCode.totalAttribute
    split
    · exact grows.add (show "gen_ai.usage.total_tokens" ∈ llmKeys by decide)
    · exact grows
  apply Grows.add _ (by decide)
  refine Grows.addSome ?_ (fun _ => rfl) (by decide)
  refine Grows.addSome ?_ (fun _ => rfl) (by decide)
  refine Grows.addSome ?_ (fun _ => rfl) (by decide)
  apply total
  apply counts
  · refine Grows.addSome ?_ (fun _ => rfl) (by decide)
    refine Grows.addSome ?_ (fun _ => rfl) (by decide)
    exact (Grows.refl _ _).add (by decide)
  · intro count member
    simp only [ClaudeCode.tokenAttributes, List.mem_cons, List.not_mem_nil, or_false] at member
    obtain rfl | rfl | rfl | rfl := member <;> simp [llmKeys]

/-- What the attributes of a copy must carry. -/
structure Marked (session : String) (call : Call) (attrs : List KeyValue) : Prop where
  session : Carries attrs "session.id" session
  operation : Carries attrs "gen_ai.operation.name" call.operation
  kind : Absent attrs "openinference.span.kind"
  anchor : Absent attrs ClaudeCode.callAnchor
  key : Carries attrs ClaudeCode.callKey call.key

/-- Attributes added to those of an event leave it naming its call. -/
theorem Naming.marked {session : String} {call : Call} {attrs grown : List KeyValue}
    {keys : List String} (naming : Naming session call attrs)
    (grows : Grows keys (add attrs (kvStr "gen_ai.operation.name" call.operation)) grown)
    (others : ∀ key ∈ ["session.id", "gen_ai.operation.name", "openinference.span.kind",
      ClaudeCode.callAnchor, ClaudeCode.callKey], key ∉ keys) :
    Marked session call (add grown (kvStr ClaudeCode.callKey call.key)) := by
  have first : Grows ["gen_ai.operation.name"] attrs
      (add attrs (kvStr "gen_ai.operation.name" call.operation)) :=
    (Grows.refl _ _).add (List.mem_singleton_self _)
  have last : Grows [ClaudeCode.callKey] grown (add grown (kvStr ClaudeCode.callKey call.key)) :=
    (Grows.refl _ _).add (List.mem_singleton_self _)
  simp only [List.forall_mem_cons, List.not_mem_nil, false_implies, implies_true, and_true]
    at others
  obtain ⟨session, operation, kind, anchor, key⟩ := others
  constructor
  · exact last.carries (by decide) (grows.carries session
      (first.carries (by decide) naming.session))
  · exact last.carries (by decide) (grows.carries operation (carries_add naming.operation))
  · exact last.absent (by decide) (grows.absent kind
      (first.absent (by decide) (naming.plain _ (by simp))))
  · exact last.absent (by decide) (grows.absent anchor
      (first.absent (by decide) (naming.plain _ (by simp))))
  · apply carries_add
    apply Absent.agrees
    exact grows.absent key (first.absent (by decide) (naming.plain _ (by simp)))

theorem operationKind_operation (attrs : List KeyValue) (call : Call) :
    operationKind attrs call.operation = call.kind := by
  cases call with
  | llm requestId =>
    simp [operationKind, Call.operation, Call.kind, show asciiLowercase "chat" = "chat" by decide]
  | tool toolUseId =>
    simp [operationKind, Call.operation, Call.kind,
      show asciiLowercase "execute_tool" = "execute_tool" by decide]

/-- The fields of a marked span. -/
theorem Marked.readSpan {session : String} {call : Call} {span : Span}
    (marked : Marked session call span.attributes) (service name version : Option String) :
    (readSpan deps span service name version).oiKind = some call.kind ∧
      (readSpan deps span service name version).sessionId = some session ∧
      CallLedger.anchorOf (readSpan deps span service name version) = none ∧
      CallLedger.keyOf (readSpan deps span service name version) = some call.key := by
  refine ⟨?_, ?_, ?_, ?_⟩
  · simp [Normalize.readSpan, marked.kind.attrStr deps, inferOiKind,
      marked.operation.attrStr deps, operationKind_operation]
  · simp [Normalize.readSpan, firstStr, marked.session.attrStr deps]
  · simp [CallLedger.anchorOf, Normalize.readSpan, marked.anchor.raw]
  · simp [CallLedger.keyOf, Normalize.readSpan, marked.key.raw, Json.asStr]

/-- A draft of a call's event, normalized. -/
theorem copyOf_finish {call : Call} {draft : SpanDraft} (ctx : RecordCtx)
    (marked : Marked session call draft.attributes)
    (named : startsWith draft.name "claude_code." = true) (id : draft.spanId = call.spanId deps)
    (ids : ∀ toolUseId, call = .tool toolUseId →
      (∀ key ∈ Agent.toolCallIdKeys, Agrees draft.attributes key toolUseId) ∧
        Carries draft.attributes "gen_ai.tool.call.id" toolUseId) :
    CopyOf deps session call (draft.finish deps ctx) ∧
      (draft.finish deps ctx).spanId = hexEncode (call.spanId deps) := by
  have marked' : Marked session call draft.toSpan.attributes := marked
  obtain ⟨kind, inSession, anchor, key⟩ := marked'.readSpan deps ctx.serviceName ctx.scopeName
    ctx.scopeVersion
  obtain ⟨raw, kept, normalized⟩ := normalize_call kind
  have finished : draft.finish deps ctx = Agent.normalize
      (readSpan deps draft.toSpan ctx.serviceName ctx.scopeName ctx.scopeVersion) := rfl
  -- normalization keeps the anchor and the key
  have anchor' : CallLedger.anchorOf (draft.finish deps ctx) = none := by
    rw [CallLedger.anchorOf, finished, normalized, kept _ (by decide)]
    exact anchor
  have key' : CallLedger.keyOf (draft.finish deps ctx) = some call.key := by
    rw [CallLedger.keyOf, finished, normalized, kept _ (by decide)]
    exact key
  have spanId : (draft.finish deps ctx).spanId = hexEncode (call.spanId deps) := by
    rw [finished, normalized, ← id]
    rfl
  refine ⟨⟨?_, ?_, ?_, ?_, fun requestId isLlm => ⟨anchor', spanId⟩, fun toolUseId isTool => ?_⟩,
    spanId⟩
  · rw [finished, normalized]
    exact kind
  · rw [CallLedger.mark, anchor', key']
    rfl
  · rw [finished, normalized]
    exact inSession
  · rw [finished, normalized]
    exact named
  · obtain ⟨agrees, carries⟩ := ids toolUseId isTool
    rw [finished]
    subst isTool
    apply normalize_callId kind
    · intro k member x held
      exact (agrees k member).raw held
    · exact ⟨_, List.mem_cons_self, carries.raw⟩

theorem copyOf_llmSpan {requestId : String} (ctx : RecordCtx) {rec : LogRecord}
    (naming : Naming session (.llm requestId) rec.attributes) (error : Option String) :
    CopyOf deps session (.llm requestId) (ClaudeCode.llmSpan deps ctx rec error) ∧
      (ClaudeCode.llmSpan deps ctx rec error).spanId =
        hexEncode (Call.spanId deps (.llm requestId)) := by
  have request : ClaudeCode.requestKey deps rec = requestId := by
    have named : attrStr deps rec.attributes "request_id" = some requestId :=
      naming.id.attrStr deps
    simp [ClaudeCode.requestKey, named]
  obtain ⟨grown, grows, attributes⟩ := llmAttributes_eq deps rec
  rw [request] at attributes
  apply copyOf_finish deps ctx
  · change Marked session (.llm requestId) (ClaudeCode.llmAttributes deps rec)
    rw [attributes]
    exact naming.marked grows (by decide)
  · show startsWith ClaudeCode.llmSpanName "claude_code." = true
    decide
  · change ClaudeCode.llmSpanId deps (ClaudeCode.requestKey deps rec) = _
    rw [request]
    rfl
  · intro toolUseId isTool
    cases isTool

/-- The keys a tool event's span is given, its id and its key apart. -/
def toolKeys : List String := ["gen_ai.tool.name", "gen_ai.tool.call.id", "evald.source"]

theorem toolUseKey_eq {toolUseId : String} {rec : LogRecord}
    (naming : Naming session (.tool toolUseId) rec.attributes) :
    ClaudeCode.toolUseKey deps rec = toolUseId := by
  have named : attrStr deps rec.attributes "tool_use_id" = some toolUseId :=
    naming.id.attrStr deps
  simp [ClaudeCode.toolUseKey, named]

theorem marked_toolAttributes {toolUseId : String} {rec : LogRecord}
    (naming : Naming session (.tool toolUseId) rec.attributes) :
    Marked session (.tool toolUseId) (ClaudeCode.toolAttributes deps rec) := by
  unfold ClaudeCode.toolAttributes
  rw [toolUseKey_eq deps naming]
  refine naming.marked (show Grows toolKeys _ _ from ?_) (by decide)
  apply Grows.add _ (by decide)
  refine Grows.addSome ?_ (fun _ => rfl) (by decide)
  refine Grows.addSome ?_ (fun _ => rfl) (by decide)
  exact Grows.refl _ _

theorem copyOf_toolSpan {toolUseId : String} (ctx : RecordCtx) {rec : LogRecord}
    (naming : Naming session (.tool toolUseId) rec.attributes) (rejected : Option String) :
    CopyOf deps session (.tool toolUseId) (ClaudeCode.toolSpan deps ctx rec rejected) ∧
      (ClaudeCode.toolSpan deps ctx rec rejected).spanId =
        hexEncode (Call.spanId deps (.tool toolUseId)) := by
  have named : attrStr deps rec.attributes "tool_use_id" = some toolUseId :=
    naming.id.attrStr deps
  have key := toolUseKey_eq deps naming
  -- the attributes before the id is added, and before the key is
  obtain ⟨before, early, attributes⟩ : ∃ before,
      Grows ["gen_ai.operation.name", "gen_ai.tool.name"] rec.attributes before ∧
        ClaudeCode.toolAttributes deps rec =
          add (add (add before (kvStr "gen_ai.tool.call.id" toolUseId))
            (kvStr "evald.source" "log")) (kvStr ClaudeCode.callKey
              (ClaudeCode.toolCallKey toolUseId)) := by
    refine ⟨addSome (add rec.attributes (kvStr "gen_ai.operation.name" "execute_tool"))
      ((ClaudeCode.toolName deps rec.attributes).map (kvStr "gen_ai.tool.name")), ?_, ?_⟩
    · refine Grows.addSome ?_ (fun _ => rfl) (by decide)
      exact (Grows.refl _ _).add (by decide)
    · unfold ClaudeCode.toolAttributes
      simp only [named, key]
      rfl
  have carried : Carries (add before (kvStr "gen_ai.tool.call.id" toolUseId))
      "gen_ai.tool.call.id" toolUseId :=
    carries_add (early.agrees (by decide) (naming.ids _ List.mem_cons_self))
  have late : Grows ["evald.source", ClaudeCode.callKey]
      (add before (kvStr "gen_ai.tool.call.id" toolUseId))
      (ClaudeCode.toolAttributes deps rec) := by
    rw [attributes]
    exact ((Grows.refl _ _).add (by decide)).add
      (show ClaudeCode.callKey ∈ ["evald.source", ClaudeCode.callKey] by decide)
  apply copyOf_finish deps ctx
  · exact marked_toolAttributes deps naming
  · show startsWith ClaudeCode.toolSpanName "claude_code." = true
    decide
  · change ClaudeCode.toolSpanId deps (ClaudeCode.toolUseKey deps rec) = _
    rw [key]
    rfl
  · intro other isTool
    cases isTool
    refine ⟨fun k member => ?_, late.carries (by decide) carried⟩
    change Agrees (ClaudeCode.toolAttributes deps rec) k toolUseId
    by_cases isId : k = "gen_ai.tool.call.id"
    · rw [isId]
      exact (late.carries (by decide) carried).agrees
    · have middle : Grows ["gen_ai.tool.call.id"] before
          (add before (kvStr "gen_ai.tool.call.id" toolUseId)) :=
        (Grows.refl _ _).add (List.mem_singleton_self _)
      have others : ∀ k ∈ Agent.toolCallIdKeys, k ∉ ["evald.source", ClaudeCode.callKey] ∧
          k ∉ ["gen_ai.operation.name", "gen_ai.tool.name"] := by decide
      apply late.agrees (others k member).1
      apply middle.agrees (by simpa using isId)
      exact early.agrees (others k member).2 (naming.ids k member)

/-- An event of a call is mapped to a copy of it, whatever is remembered. -/
theorem mapLog_event {call : Call} {ctx : RecordCtx} {rec : LogRecord}
    (event : EventOf deps session call ctx rec) :
    ∃ s, ClaudeCode.mapLog deps ctx rec (eventName deps rec) = .span s ∧
      CopyOf deps session call s ∧ s.spanId = hexEncode (call.spanId deps) := by
  obtain ⟨name, named, about⟩ := event.event
  rw [named]
  unfold ClaudeCode.mapLog ClaudeCode.mapEvent
  simp only [event.mine, Bool.not_true, Bool.false_eq_true, if_false]
  cases call with
  | llm requestId =>
    cases about with
    | inl request =>
      refine ⟨ClaudeCode.llmSpan deps ctx rec none, ?_, copyOf_llmSpan deps ctx event.naming _⟩
      simp [request]
    | inr error =>
      refine ⟨ClaudeCode.llmSpan deps ctx rec
        (some ((attrStr deps rec.attributes "error").getD "API request failed")), ?_,
        copyOf_llmSpan deps ctx event.naming _⟩
      simp [error]
  | tool toolUseId =>
    cases about with
    | inl result =>
      refine ⟨ClaudeCode.toolSpan deps ctx rec none, ?_, copyOf_toolSpan deps ctx event.naming _⟩
      simp [result]
    | inr decision =>
      refine ⟨ClaudeCode.toolSpan deps ctx rec (some ("rejected (" ++
        (attrStr deps rec.attributes "source").getD "unknown" ++ ")")), ?_,
        copyOf_toolSpan deps ctx event.naming _⟩
      simp [decision.1, decision.2]

/-- An event of a call is no evaluation result, and the first dialect takes it. -/
theorem mapRecord_of_mapLog {call : Call} {policy : LogsPolicy} {ctx : RecordCtx} {rec : LogRecord}
    {s : NormalizedSpan} (event : EventOf deps session call ctx rec) (on : policy ≠ .off)
    (mapped : ClaudeCode.mapLog deps ctx rec (eventName deps rec) = .span s)
    (state : RequestState) (node : Remembered) :
    mapRecord deps prices policy ctx rec state node =
      (.span (Pricing.apply deps.float prices s), state, node) := by
  have noScore : eventName deps rec ≠ some EvalEvent.eventName := by
    intro isScore
    obtain ⟨name, named, about⟩ := event.event
    rw [named, Option.some.injEq] at isScore
    have stripped : (stripPrefix EvalEvent.eventName "claude_code.").getD EvalEvent.eventName =
        EvalEvent.eventName := by decide
    rw [isScore, stripped] at about
    cases call with
    | llm requestId =>
      simp [Call.IsEvent, EvalEvent.eventName] at about
    | tool toolUseId =>
      simp [Call.IsEvent, EvalEvent.eventName] at about
  simp [mapRecord, on, noScore, mapDialect, mapped, settle]

theorem mapRecord_event {call : Call} {policy : LogsPolicy} {ctx : RecordCtx} {rec : LogRecord}
    (event : EventOf deps session call ctx rec) (on : policy ≠ .off) (state : RequestState)
    (node : Remembered) :
    ∃ s, mapRecord deps prices policy ctx rec state node = (.span s, state, node) ∧
      CopyOf deps session call s ∧ s.spanId = hexEncode (call.spanId deps) := by
  obtain ⟨s, mapped, copy, id⟩ := mapLog_event deps event
  refine ⟨Pricing.apply deps.float prices s,
    mapRecord_of_mapLog deps prices event on mapped state node, copy.apply deps.float prices, ?_⟩
  obtain ⟨cost, raw, -, priced⟩ := Pricing.apply_spec deps.float prices s
  rw [priced]
  exact id

end Event

/-! ## The traced span -/

section Traced

variable (deps : Deps) (prices : Pricing.PriceTable) {session : String}

/-- The kind, the session and the marks of a traced span before it is fixed up. -/
theorem SpanOf.readSpan {call : Call} {scope : Option Scope} {span : Span}
    (sent : SpanOf session call scope span) (service name version : Option String) :
    (readSpan deps span service name version).oiKind = some call.kind ∧
      (readSpan deps span service name version).sessionId = some session := by
  have plain : attrStr deps span.attributes "openinference.span.kind" = none :=
    (sent.naming.plain _ (by simp)).attrStr deps
  constructor
  · change (attrStr deps span.attributes "openinference.span.kind").or
      (inferOiKind deps span.attributes) = _
    rw [plain, Option.none_or, inferOiKind]
    cases sent.naming.operation.attrStr deps with
    | inr operation => simp only [operation, operationKind_operation]
    | inl none =>
      rw [none]
      -- only an API call's span may come without an operation
      cases call with
      | llm requestId =>
        obtain ⟨kv, member, model⟩ := sent.kind
        have genai : hasGenaiCall span.attributes = true := by
          apply List.any_eq_true.mpr
          refine ⟨kv, member, ?_⟩
          rw [model]
          show isGenaiCallKey "gen_ai.request.model" = true
          decide
        simp [genai, Call.kind]
      | tool toolUseId =>
        have carried : Carries span.attributes "gen_ai.operation.name" "execute_tool" :=
          ⟨sent.kind, sent.naming.operation⟩
        rw [carried.attrStr deps] at none
        cases none
  · simp [Normalize.readSpan, firstStr, sent.naming.session.attrStr deps]

theorem addSchemaUrl_spec (schema : Option String) (s : NormalizedSpan) :
    ∃ raw : Attributes,
      (∀ key, key ≠ "otel.schema_url" → raw[key]? = s.rawAttributes[key]?) ∧
      addSchemaUrl schema s = { s with rawAttributes := raw } := by
  unfold addSchemaUrl
  cases schema with
  | none => exact ⟨s.rawAttributes, fun _ _ => rfl, rfl⟩
  | some url =>
    simp only
    split
    · exact ⟨s.rawAttributes, fun _ _ => rfl, rfl⟩
    · exact ⟨_, fun key other => by rw [getElem?_insert_if, if_neg other], rfl⟩

theorem fixFirstChunk_spec (raw : Attributes) (key : String)
    (other : key ≠ "gen_ai.response.time_to_first_chunk") :
    (ClaudeCode.fixFirstChunk deps raw)[key]? = raw[key]? := by
  unfold ClaudeCode.fixFirstChunk
  split
  · rfl
  · split
    · rw [getElem?_insert_if, if_neg other]
    · rfl

/-- The span of an API call is given the call's id and its key. -/
theorem fixLlmSpan_eq {n : NormalizedSpan} {requestId : String} (nonempty : requestId ≠ "")
    (request : n.rawAttributes["request_id"]? = some (.str requestId)) :
    ClaudeCode.fixLlmSpan deps n =
      { n with
        tokens := ClaudeCode.fixTokens n.rawAttributes n.tokens
        spanId := hexEncode (ClaudeCode.llmSpanId deps requestId)
        rawAttributes :=
          ((ClaudeCode.fixFirstChunk deps n.rawAttributes).insert "evald.otel.span_id"
            (.str n.spanId)).insert ClaudeCode.callKey
              (.str (ClaudeCode.llmCallKey requestId)) } := by
  have named : ClaudeCode.stringAttribute (ClaudeCode.fixFirstChunk deps n.rawAttributes)
      "request_id" = some requestId := by
    rw [ClaudeCode.stringAttribute, fixFirstChunk_spec deps _ _ (by decide), request]
    simp [Json.asStr, nonempty]
  unfold ClaudeCode.fixLlmSpan
  simp only [named]

theorem fixLlmSpan_spec {n : NormalizedSpan} {requestId : String} (nonempty : requestId ≠ "")
    (request : n.rawAttributes["request_id"]? = some (.str requestId)) :
    ∃ (tokens : Tokens) (raw : Attributes),
      raw[ClaudeCode.callKey]? = some (.str (ClaudeCode.llmCallKey requestId)) ∧
      raw[ClaudeCode.callAnchor]? = n.rawAttributes[ClaudeCode.callAnchor]? ∧
      ClaudeCode.fixLlmSpan deps n =
        { n with
          tokens := tokens
          spanId := hexEncode (ClaudeCode.llmSpanId deps requestId)
          rawAttributes := raw } := by
  refine ⟨_, _, ?_, ?_, fixLlmSpan_eq deps nonempty request⟩
  · rw [getElem?_insert_if, if_pos rfl]
  · rw [getElem?_insert_if, if_neg (by decide), getElem?_insert_if, if_neg (by decide),
      fixFirstChunk_spec deps _ _ (by decide)]

/-- What is left of a received span's own ids, name and attributes before its fix-up. -/
theorem received_fields (span : Span) (service name version schema : Option String) :
    (addSchemaUrl schema (normalizeSpan deps span service name version)).traceId =
        hexEncode span.traceId ∧
      (addSchemaUrl schema (normalizeSpan deps span service name version)).spanId =
        hexEncode span.spanId ∧
      (addSchemaUrl schema (normalizeSpan deps span service name version)).name = span.name ∧
      ∀ key ∉ "otel.schema_url" :: Agent.writtenKeys,
        (addSchemaUrl schema (normalizeSpan deps span service name version)).rawAttributes[key]? =
          (rawAttributes span.attributes)[key]? := by
  obtain ⟨raw, kept, normalized⟩ :=
    Agent.normalize_spec (readSpan deps span service name version)
  obtain ⟨withSchema, keptToo, schemed⟩ :=
    addSchemaUrl_spec schema (normalizeSpan deps span service name version)
  have aside (s : NormalizedSpan) : (Agent.usageSetAside s).traceId = s.traceId ∧
      (Agent.usageSetAside s).spanId = s.spanId ∧ (Agent.usageSetAside s).name = s.name := by
    unfold Agent.usageSetAside
    split <;> exact ⟨rfl, rfl, rfl⟩
  have fields := aside (readSpan deps span service name version)
  rw [schemed]
  simp only [normalizeSpan, normalized]
  refine ⟨fields.1, fields.2.1, fields.2.2, fun key other => ?_⟩
  rw [List.mem_cons, not_or] at other
  rw [keptToo key other.1, normalizeSpan, normalized]
  exact kept key other.2

/-- A received span of a call, normalized and not fixed up yet. -/
structure Received (session : String) (call : Call) (span : Span) (n : NormalizedSpan) :
    Prop where
  traceId : n.traceId = hexEncode span.traceId
  spanId : n.spanId = hexEncode span.spanId
  name : n.name = call.spanName
  kind : n.oiKind = some call.kind
  session : n.sessionId = some session
  raw : ∀ key ∉ "otel.schema_url" :: Agent.writtenKeys,
    n.rawAttributes[key]? = (rawAttributes span.attributes)[key]?
  tool : ∀ toolUseId, call = .tool toolUseId →
    n.rawAttributes["gen_ai.tool.call.id"]? = some (.str toolUseId)

theorem SpanOf.received {call : Call} {scope : Option Scope} {span : Span}
    (sent : SpanOf session call scope span) (service name version schema : Option String) :
    Received session call span
      (addSchemaUrl schema (normalizeSpan deps span service name version)) := by
  obtain ⟨kind, inSession⟩ := sent.readSpan deps service name version
  obtain ⟨raw, -, normalized⟩ := normalize_call kind
  obtain ⟨withSchema, kept, schemed⟩ :=
    addSchemaUrl_spec schema (normalizeSpan deps span service name version)
  have normal : normalizeSpan deps span service name version =
      { Normalize.readSpan deps span service name version with rawAttributes := raw } :=
    normalized
  obtain ⟨traceId, spanId, spanName, untouched⟩ :=
    received_fields deps span service name version schema
  refine ⟨traceId, spanId, spanName.trans sent.name, ?_, ?_, untouched, ?_⟩
  · rw [schemed, normal]
    exact kind
  · rw [schemed, normal]
    exact inSession
  · intro toolUseId isTool
    subst isTool
    rw [schemed]
    refine (kept _ (by decide)).trans ?_
    apply normalize_callId kind
    · intro k member x held
      exact (sent.naming.ids k member).raw held
    · exact ⟨"tool_use_id", by decide, sent.naming.id.raw⟩

/-- A span of the call becomes a copy of it; a tool span keeps the ids it was sent with. -/
theorem copyOf_normalizeScoped {call : Call} {scopeSpans : ScopeSpans} {span : Span}
    (sent : SpanOf session call scopeSpans.scope span) (nonempty : call.id ≠ "")
    (service schema : Option String) :
    CopyOf deps session call (normalizeScoped deps prices service schema scopeSpans span) ∧
      (normalizeScoped deps prices service schema scopeSpans span).traceId =
        hexEncode span.traceId ∧
      (normalizeScoped deps prices service schema scopeSpans span).spanId =
        match call with
        | .llm _ => hexEncode (call.spanId deps)
        | .tool _ => hexEncode span.spanId := by
  have received := sent.received deps service (scopeOf scopeSpans.scope).1
    (scopeOf scopeSpans.scope).2 ((nonEmpty scopeSpans.schemaUrl).or schema)
  have made : normalizeScoped deps prices service schema scopeSpans span =
      Pricing.apply deps.float prices (ClaudeCode.fixTraceSpan deps
        (addSchemaUrl ((nonEmpty scopeSpans.schemaUrl).or schema)
          (normalizeSpan deps span service (scopeOf scopeSpans.scope).1
            (scopeOf scopeSpans.scope).2))) := by
    unfold normalizeScoped fixFor
    simp only [sent.traced, if_true]
  rw [made]
  generalize addSchemaUrl ((nonEmpty scopeSpans.schemaUrl).or schema)
    (normalizeSpan deps span service (scopeOf scopeSpans.scope).1
      (scopeOf scopeSpans.scope).2) = n at received
  have anchor : n.rawAttributes[ClaudeCode.callAnchor]? = none := by
    rw [received.raw _ (by decide)]
    exact (sent.naming.plain _ (by simp)).raw
  have idRaw : n.rawAttributes[call.idKey]? = some (.str call.id) := by
    rw [received.raw _ (by cases call <;> simp [Call.idKey, Agent.writtenKeys, Agent.usageKey])]
    exact sent.naming.id.raw
  obtain ⟨cost, priced, -, applied⟩ := Pricing.apply_spec deps.float prices
    (ClaudeCode.fixTraceSpan deps n)
  -- a model call gets its id from the request, a tool call keeps its own and gets the anchor
  cases call with
  | llm requestId =>
    obtain ⟨tokens, raw, key, anchor', fixed⟩ := fixLlmSpan_spec deps nonempty idRaw
    have named : ClaudeCode.fixTraceSpan deps n = ClaudeCode.fixLlmSpan deps n := by
      rw [ClaudeCode.fixTraceSpan, received.name]
      exact if_pos rfl
    have unanchored : CallLedger.anchorOf (ClaudeCode.fixTraceSpan deps n) = none := by
      rw [CallLedger.anchorOf, named, fixed, anchor', anchor]
      rfl
    have copy : CopyOf deps session (.llm requestId) (ClaudeCode.fixTraceSpan deps n) := by
      refine ⟨?_, ?_, ?_, ?_, fun _ _ => ⟨unanchored, ?_⟩, fun _ isTool => by cases isTool⟩
      · rw [named, fixed]
        exact received.kind
      · rw [CallLedger.mark, unanchored, CallLedger.keyOf, named, fixed, key]
        rfl
      · rw [named, fixed]
        exact received.session
      · rw [named, fixed]
        simp only [received.name]
        show startsWith ClaudeCode.llmSpanName "claude_code." = true
        decide
      · rw [named, fixed]
        rfl
    refine ⟨copy.apply deps.float prices, ?_, ?_⟩
    · rw [applied, named, fixed]
      exact received.traceId
    · rw [applied, named, fixed]
      rfl
  | tool toolUseId =>
    have carried : ClaudeCode.stringAttribute n.rawAttributes "tool_use_id" = some toolUseId := by
      rw [ClaudeCode.stringAttribute, show n.rawAttributes["tool_use_id"]? = _ from idRaw]
      simp [Json.asStr, Call.id, show toolUseId ≠ "" from nonempty]
    have fixed : ClaudeCode.fixTraceSpan deps n =
        { n with
          rawAttributes := n.rawAttributes.insert ClaudeCode.callAnchor
            (.str (ClaudeCode.toolCallKey toolUseId)) } := by
      unfold ClaudeCode.fixTraceSpan ClaudeCode.fixToolSpan
      rw [received.name]
      simp only [Call.spanName, carried]
      rfl
    have copy : CopyOf deps session (.tool toolUseId) (ClaudeCode.fixTraceSpan deps n) := by
      refine ⟨?_, ?_, ?_, ?_, fun _ isLlm => (by cases isLlm), fun other isTool => ?_⟩
      · rw [fixed]
        exact received.kind
      · rw [CallLedger.mark, CallLedger.anchorOf, fixed, getElem?_insert_if, if_pos rfl]
        rfl
      · rw [fixed]
        exact received.session
      · rw [fixed]
        simp only [received.name]
        show startsWith ClaudeCode.toolSpanName "claude_code." = true
        decide
      · rw [fixed, getElem?_insert_if, if_neg (by decide)]
        exact received.tool other isTool
    refine ⟨copy.apply deps.float prices, ?_, ?_⟩
    · rw [applied, fixed]
      exact received.traceId
    · rw [applied, fixed]
      exact received.spanId

/-- A phase of a tool call is no call of its own. -/
theorem uncounted_normalizeScoped {scopeSpans : ScopeSpans} {span : Span}
    (phase : PhaseOf scopeSpans.scope span) (service schema : Option String) :
    Uncounted (normalizeScoped deps prices service schema scopeSpans span) ∧
      (normalizeScoped deps prices service schema scopeSpans span).traceId =
        hexEncode span.traceId ∧
      (normalizeScoped deps prices service schema scopeSpans span).spanId =
        hexEncode span.spanId := by
  obtain ⟨traceId, spanId, name, kept⟩ := received_fields deps span service
    (scopeOf scopeSpans.scope).1 (scopeOf scopeSpans.scope).2
    ((nonEmpty scopeSpans.schemaUrl).or schema)
  have made : normalizeScoped deps prices service schema scopeSpans span =
      Pricing.apply deps.float prices (ClaudeCode.fixTraceSpan deps
        (addSchemaUrl ((nonEmpty scopeSpans.schemaUrl).or schema)
          (normalizeSpan deps span service (scopeOf scopeSpans.scope).1
            (scopeOf scopeSpans.scope).2))) := by
    unfold normalizeScoped fixFor
    simp only [phase.traced, if_true]
  rw [made]
  generalize addSchemaUrl ((nonEmpty scopeSpans.schemaUrl).or schema)
    (normalizeSpan deps span service (scopeOf scopeSpans.scope).1
      (scopeOf scopeSpans.scope).2) = n at traceId spanId name kept
  -- a phase loses its kind and gets neither key nor anchor
  have fixed : ClaudeCode.fixTraceSpan deps n = { n with oiKind := none } := by
    unfold ClaudeCode.fixTraceSpan
    rw [name, phase.name]
    rfl
  obtain ⟨cost, priced, keptPriced, applied⟩ := Pricing.apply_spec deps.float prices
    (ClaudeCode.fixTraceSpan deps n)
  have anchor : priced[ClaudeCode.callAnchor]? = none := by
    rw [keptPriced _ (by decide), fixed]
    exact (kept _ (by decide)).trans (phase.plain _ (by simp)).raw
  have key : priced[ClaudeCode.callKey]? = none := by
    rw [keptPriced _ (by decide), fixed]
    exact (kept _ (by decide)).trans (phase.plain _ (by simp)).raw
  rw [applied, fixed]
  refine ⟨⟨rfl, ?_, ?_⟩, traceId, spanId⟩
  · simp [CallLedger.mark, CallLedger.anchorOf, CallLedger.keyOf, anchor, key]
  · simp only [name, phase.name]
    decide

end Traced

end Evald.Logs
