import Evald.Lib.Utf8
import Evald.Logs.Splitting

/-! # Which records share a span

Every span made of a record is named by one of ten recipes, each with fields of its own, in
the trace the record is placed in.  As far as the hash tells its inputs apart, two records of
an export get one key exactly when they are of one recipe, read alike in its fields and are
placed in one trace (`records_apart_iff`).
-/

namespace Evald.Logs

open Evald.Lib Evald.Otlp Evald.Normalize

/-! ## Names -/

inductive Recipe where
  | claudeLlm
  | claudeTool
  | claudePrompt
  | codexLlm
  | codexTool
  | codexPrompt
  | geminiLlm
  | geminiTool
  | geminiPrompt
  | log
  deriving DecidableEq

/-- What is hashed in front of a recipe's fields. -/
def Recipe.tag : Recipe → String
  | .claudeLlm => "claude_code.llm"
  | .claudeTool => "claude_code.tool"
  | .claudePrompt => "claude_code.prompt"
  | .codexLlm => "codex.llm"
  | .codexTool => "codex.tool"
  | .codexPrompt => "codex.prompt"
  | .geminiLlm => "gemini_cli.llm"
  | .geminiTool => "gemini_cli.tool"
  | .geminiPrompt => "gemini_cli.prompt"
  | .log => "evald.log.span"

/-- The trace a span is placed in: one that was sent or is remembered, or one derived from
the record. -/
inductive Place where
  | given (id : List UInt8)
  | derived (parts : List String)

structure SpanName where
  recipe : Recipe
  place : Place
  fields : List String

variable (deps : Deps)

def Place.id : Place → List UInt8
  | .given id => id
  | .derived parts => deriveId deps 16 parts

/-- What a span id is derived from. -/
def SpanName.parts (name : SpanName) : List String :=
  match name.recipe with
  | .log => name.recipe.tag :: hexEncode (name.place.id deps) :: name.fields
  | _ => name.recipe.tag :: name.fields

/-- One trace, whichever way it was come by. -/
def Place.Same : Place → Place → Prop
  | .given id, .given id' => id = id'
  | .derived parts, .derived parts' => idParts parts = idParts parts'
  | .given id, .derived parts => id = deriveId deps 16 parts
  | .derived parts, .given id => id = deriveId deps 16 parts

/-- One recipe, fields that read alike and one trace. -/
structure SpanName.Same (name name' : SpanName) : Prop where
  recipe : name.recipe = name'.recipe
  place : name.place.Same deps name'.place
  fields : idParts name.fields = idParts name'.fields

/-! ## The names a dialect gives -/

namespace ClaudeCode

def place (rec : LogRecord) : Place :=
  match (traceContext rec).1 with
  | some t => .given t
  | none => .derived ["claude_code.trace", (attrStr deps rec.attributes "session.id").getD "",
      (attrStr deps rec.attributes "prompt.id").getD ""]

def spanName (rec : LogRecord) (event : String) : SpanName :=
  if event = "api_request" ∨ event = "api_error" then
    { recipe := .claudeLlm, place := place deps rec, fields := [requestKey deps rec] }
  else if event = "user_prompt" then
    { recipe := .claudePrompt
      place := place deps rec
      fields := [(attrStr deps rec.attributes "prompt.id").getD (recordKey deps rec)] }
  else
    { recipe := .claudeTool, place := place deps rec, fields := [toolUseKey deps rec] }

end ClaudeCode

namespace Codex

def place (rec : LogRecord) (seen : Option Conversation) : Place :=
  match seen.bind Conversation.turn with
  | some turn => .given turn.1
  | none => .derived ["codex.trace", conversationId deps rec]

def spanName (rec : LogRecord) (event : String) (seen : Option Conversation) : SpanName :=
  let conv := conversationId deps rec
  let time := toString (recordTime rec)
  if event = "user_prompt" then
    { recipe := .codexPrompt
      place := .derived ["codex.turn", conv, time]
      fields := [conv, time] }
  else if event = "tool_result" then
    { recipe := .codexTool, place := place deps rec seen, fields := [toolKey deps rec conv] }
  else
    { recipe := .codexLlm
      place := place deps rec seen
      fields := [conv, time, (attrStr deps rec.attributes "attempt").getD ""] }

end Codex

namespace GeminiCli

def place (rec : LogRecord) (seen : Option Session) : Place :=
  match seen.bind Session.turn with
  | some turn => .given turn.traceId
  | none => .derived ["gemini_cli.turn", sessionId deps rec, promptId deps rec]

def spanName (rec : LogRecord) (name : String) (seen : Option Session) : SpanName :=
  let session := sessionId deps rec
  let time := toString (recordTime rec)
  if name = "gemini_cli.user_prompt" then
    { recipe := .geminiPrompt
      place := .derived ["gemini_cli.turn", session, promptId deps rec, time]
      fields := [session, time] }
  else if name = "gemini_cli.tool_call" then
    { recipe := .geminiTool
      place := place deps rec seen
      fields := [session, time, (toolName deps rec.attributes).getD ""] }
  else
    { recipe := .geminiLlm
      place := place deps rec seen
      fields := [session, time, (attrStr deps rec.attributes "model").getD ""] }

end GeminiCli

/-- An unrecognised record. -/
def genericName (ctx : RecordCtx) (rec : LogRecord) (name : Option String) : SpanName :=
  let n := name.getD "log"
  let body := (rec.body.map deps.debugAnyValue).getD ""
  { recipe := .log
    place :=
      match (traceContext rec).1 with
      | some t => .given t
      | none => .derived ["evald.log.trace", ctx.serviceName.getD "", n,
          toString (recordTime rec), toString rec.observedTimeUnixNano, body]
    fields := [n, toString (recordTime rec), toString rec.observedTimeUnixNano, body] }

/-- How the record is named, by the dialect that maps it. -/
def spanName (ctx : RecordCtx) (rec : LogRecord) (state : RequestState) (node : Remembered) :
    SpanName :=
  let name := eventName deps rec
  let text := name.getD ""
  match ClaudeCode.mapLog deps ctx rec name with
  | .span _ => ClaudeCode.spanName deps rec ((stripPrefix text "claude_code.").getD text)
  | _ =>
    match (Codex.mapLog deps ctx rec name node.codex state.codex).1 with
    | .span _ => Codex.spanName deps rec ((stripPrefix text "codex.").getD text)
        (node.codex.get state.codex (Codex.conversationId deps rec))
    | _ =>
      match (GeminiCli.mapLog deps ctx rec name node.gemini state.gemini).1 with
      | .span _ => GeminiCli.spanName deps rec text
          (node.gemini.get state.gemini (GeminiCli.sessionId deps rec))
      | _ => genericName deps ctx rec name

/-! ## Reading names back from ids -/

theorem idParts_cons (part : String) (parts : List String) :
    idParts (part :: parts) = utf8 part ++ 0 :: idParts parts := by
  simp [idParts]

/-- Where there is no zero byte, the first one ends it. -/
theorem append_zero_inj {a b rest rest' : List UInt8} (plain : (0 : UInt8) ∉ a)
    (plain' : (0 : UInt8) ∉ b) (same : a ++ 0 :: rest = b ++ 0 :: rest') :
    a = b ∧ rest = rest' := by
  have read {a rest : List UInt8} (plain : (0 : UInt8) ∉ a) :
      (a ++ 0 :: rest).takeWhile (· ≠ 0) = a := by
    rw [List.takeWhile_append_of_pos]
    · simp
    · intro x inside
      simpa using fun zero : x = 0 => plain (zero ▸ inside)
  have fronts : a = b := by rw [← read plain, same, read plain']
  rw [fronts, List.append_cancel_left_eq, List.cons.injEq] at same
  exact ⟨fronts, same.2⟩

theorem Recipe.tag_plain (recipe : Recipe) : (0 : UInt8) ∉ utf8 recipe.tag := by
  cases recipe <;> decide

theorem Recipe.tag_inj {recipe recipe' : Recipe} (same : recipe.tag = recipe'.tag) :
    recipe = recipe' := by
  cases recipe <;> cases recipe' <;> first | rfl | simp [Recipe.tag] at same

/-- What two derived ids tell apart is told apart by the bytes they are derived from. -/
def Distinguished (len : Nat) (parts parts' : List String) : Prop :=
  deriveId deps len parts = deriveId deps len parts' → idParts parts = idParts parts'

section Ids

variable {deps : Deps}

theorem Place.id_eq_iff {place place' : Place}
    (distinguished : ∀ parts parts', place = .derived parts → place' = .derived parts' →
      Distinguished deps 16 parts parts') :
    place.id deps = place'.id deps ↔ place.Same deps place' := by
  cases place with
  | given id =>
    cases place' with
    | given id' => exact Iff.rfl
    | derived parts' => exact Iff.rfl
  | derived parts =>
    cases place' with
    | given id' => exact eq_comm
    | derived parts' =>
      show deriveId deps 16 parts = deriveId deps 16 parts' ↔ idParts parts = idParts parts'
      refine ⟨distinguished parts parts' rfl rfl, fun same => ?_⟩
      simp only [deriveId, same]

/-- In one trace, the bytes that are hashed are those of the recipe and its fields. -/
theorem SpanName.parts_eq_iff {name name' : SpanName}
    (sameTrace : name.place.id deps = name'.place.id deps) :
    idParts (name.parts deps) = idParts (name'.parts deps) ↔
      name.recipe = name'.recipe ∧ idParts name.fields = idParts name'.fields := by
  have byTag (recipe recipe' : Recipe) (rest rest' : List String) :
      idParts (recipe.tag :: rest) = idParts (recipe'.tag :: rest') ↔
        recipe = recipe' ∧ idParts rest = idParts rest' := by
    rw [idParts_cons, idParts_cons]
    constructor
    · intro same
      obtain ⟨tags, rests⟩ := append_zero_inj recipe.tag_plain recipe'.tag_plain same
      exact ⟨Recipe.tag_inj (utf8_inj tags), rests⟩
    · intro same
      rw [same.1, same.2]
  unfold SpanName.parts
  split
  · rename_i isLog
    split
    · rename_i isLog'
      rw [byTag, idParts_cons, idParts_cons, sameTrace]
      simp
    · rename_i notLog'
      rw [byTag]
      have apart : name.recipe ≠ name'.recipe := fun same => notLog' (same ▸ isLog)
      simp [apart]
  · rename_i notLog
    split
    · rename_i isLog'
      rw [byTag]
      have apart : name.recipe ≠ name'.recipe := fun same => notLog (same ▸ isLog')
      simp [apart]
    · rw [byTag]

/-- The span carries the ids its name stands for. -/
structure SpanName.Names (deps : Deps) (name : SpanName) (s : NormalizedSpan) : Prop where
  traceId : s.traceId = hexEncode (name.place.id deps)
  spanId : s.spanId = hexEncode (deriveId deps 8 (name.parts deps))

/-- The hash tells apart what is hashed for the two spans. -/
structure SpanName.Distinguished (deps : Deps) (name name' : SpanName) : Prop where
  traces : ∀ parts parts', name.place = .derived parts → name'.place = .derived parts' →
    Logs.Distinguished deps 16 parts parts'
  spans : Logs.Distinguished deps 8 (name.parts deps) (name'.parts deps)

theorem SpanName.Names.key_eq_iff {name name' : SpanName} {s s' : NormalizedSpan}
    (names : name.Names deps s) (names' : name'.Names deps s')
    (distinguished : name.Distinguished deps name') :
    (s.traceId, s.spanId) = (s'.traceId, s'.spanId) ↔ name.Same deps name' := by
  rw [Prod.mk.injEq, names.traceId, names'.traceId, names.spanId, names'.spanId]
  constructor
  · intro same
    have sameTrace := hexEncode_inj same.1
    have sameParts := distinguished.spans (hexEncode_inj same.2)
    obtain ⟨recipe, fields⟩ := (SpanName.parts_eq_iff sameTrace).mp sameParts
    exact ⟨recipe, (Place.id_eq_iff distinguished.traces).mp sameTrace, fields⟩
  · intro same
    have sameTrace := (Place.id_eq_iff distinguished.traces).mpr same.place
    have sameParts := (SpanName.parts_eq_iff sameTrace).mpr ⟨same.recipe, same.fields⟩
    exact ⟨by rw [sameTrace], by simp only [deriveId, sameParts]⟩

end Ids

/-! ## Every span carries its name -/

section Mapped

variable {deps : Deps} {ctx : RecordCtx} {rec : LogRecord} {s : NormalizedSpan}

theorem SpanName.names_finish {name : SpanName} {draft : SpanDraft}
    (traceId : draft.traceId = name.place.id deps)
    (spanId : draft.spanId = deriveId deps 8 (name.parts deps)) :
    name.Names deps (draft.finish deps ctx) := by
  obtain ⟨raw, -, normalized⟩ := Agent.normalize_spec
    (readSpan deps draft.toSpan ctx.serviceName ctx.scopeName ctx.scopeVersion)
  have kept (s : NormalizedSpan) : (Agent.usageSetAside s).traceId = s.traceId ∧
      (Agent.usageSetAside s).spanId = s.spanId := by
    unfold Agent.usageSetAside
    split <;> exact ⟨rfl, rfl⟩
  rw [SpanDraft.finish, normalizeSpan, normalized]
  constructor
  · rw [(kept _).1, ← traceId]
    rfl
  · rw [(kept _).2, ← spanId]
    rfl

theorem SpanName.Names.apply {name : SpanName} (names : name.Names deps s)
    (prices : Pricing.PriceTable) : name.Names deps (Pricing.apply deps.float prices s) := by
  obtain ⟨cost, raw, -, applied⟩ := Pricing.apply_spec deps.float prices s
  rw [applied]
  exact ⟨names.traceId, names.spanId⟩

theorem ClaudeCode.id_place (rec : LogRecord) (isPrompt : Bool) :
    (placement deps rec isPrompt).1 = (place deps rec).id deps := by
  unfold placement place
  cases (traceContext rec).1 <;> rfl

theorem ClaudeCode.names_llmSpan (error : Option String) :
    SpanName.Names deps
      { recipe := .claudeLlm, place := place deps rec, fields := [requestKey deps rec] }
      (llmSpan deps ctx rec error) :=
  SpanName.names_finish (id_place rec false) rfl

theorem ClaudeCode.names_toolSpan (rejected : Option String) :
    SpanName.Names deps
      { recipe := .claudeTool, place := place deps rec, fields := [toolUseKey deps rec] }
      (toolSpan deps ctx rec rejected) :=
  SpanName.names_finish (id_place rec false) rfl

theorem ClaudeCode.names_mapEvent {event : String}
    (mapped : mapEvent deps ctx rec event = .span s) :
    (spanName deps rec event).Names deps s := by
  unfold mapEvent at mapped
  unfold spanName
  by_cases request : event = "api_request"
  · rw [if_pos request, Mapping.span.injEq] at mapped
    rw [if_pos (.inl request), ← mapped]
    exact names_llmSpan _
  by_cases error : event = "api_error"
  · rw [if_neg request, if_pos error, Mapping.span.injEq] at mapped
    rw [if_pos (.inr error), ← mapped]
    exact names_llmSpan _
  rw [if_neg request, if_neg error] at mapped
  rw [if_neg (not_or.mpr ⟨request, error⟩)]
  by_cases prompt : event = "user_prompt"
  · subst prompt
    rw [if_neg (by decide), if_neg (by decide), if_pos rfl, Mapping.span.injEq] at mapped
    rw [if_pos rfl, ← mapped]
    exact SpanName.names_finish (id_place rec true) rfl
  rw [if_neg prompt]
  by_cases result : event = "tool_result"
  · rw [if_pos result, Mapping.span.injEq] at mapped
    rw [← mapped]
    exact names_toolSpan _
  rw [if_neg result] at mapped
  by_cases decision : event = "tool_decision"
  · rw [if_pos decision] at mapped
    split at mapped
    · rw [Mapping.span.injEq] at mapped
      rw [← mapped]
      exact names_toolSpan _
    · contradiction
  rw [if_neg decision, if_neg prompt] at mapped
  split at mapped <;> contradiction

theorem Codex.id_place (seen : Option Conversation) :
    (placement deps seen (conversationId deps rec)).1 = (place deps rec seen).id deps := by
  unfold placement place
  cases seen.bind Conversation.turn <;> rfl

theorem Codex.names_llmSpan (error : Option String) (seen : Option Conversation) :
    SpanName.Names deps
      { recipe := .codexLlm
        place := place deps rec seen
        fields := [conversationId deps rec, toString (recordTime rec),
          (attrStr deps rec.attributes "attempt").getD ""] }
      (llmSpan deps ctx rec (conversationId deps rec) error seen) :=
  SpanName.names_finish (id_place seen) rfl

theorem Codex.names_eventUse {event : String} {seen : Option Conversation}
    (mapped : (eventUse deps ctx rec event seen).1 = .span s) :
    (spanName deps rec event seen).Names deps s := by
  -- the events in the order the mapper asks for them; some of them make a span
  unfold eventUse at mapped
  unfold spanName
  by_cases prompt : event = "user_prompt"
  · subst prompt
    rw [if_neg (by decide), if_pos rfl, Mapping.span.injEq] at mapped
    rw [if_pos rfl, ← mapped]
    exact SpanName.names_finish rfl rfl
  rw [if_neg prompt]
  by_cases result : event = "tool_result"
  · subst result
    simp only [String.reduceEq, decide_false, Bool.false_and, Bool.or_self,
      if_false, if_true, Bool.false_eq_true, Mapping.span.injEq] at mapped
    rw [if_pos rfl, ← mapped]
    exact SpanName.names_finish (id_place seen) rfl
  rw [if_neg result]
  by_cases starts : event = "conversation_starts"
  · rw [if_pos starts] at mapped
    contradiction
  rw [if_neg starts, if_neg prompt] at mapped
  by_cases other : (event = "api_request" && otherEndpoint deps rec.attributes) = true
  · rw [if_pos other] at mapped
    contradiction
  rw [if_neg other] at mapped
  by_cases request : (event = "api_request" || event = "websocket_request") = true
  · rw [if_pos request] at mapped
    split at mapped
    · rw [Mapping.span.injEq] at mapped
      rw [← mapped]
      exact names_llmSpan _ seen
    · contradiction
  rw [if_neg request] at mapped
  by_cases sse : event = "sse_event"
  · rw [if_pos sse] at mapped
    split at mapped
    · rw [Mapping.span.injEq] at mapped
      rw [← mapped]
      exact names_llmSpan _ seen
    · contradiction
  rw [if_neg sse, if_neg result] at mapped
  split at mapped <;> contradiction

theorem GeminiCli.id_place (seen : Option Session) :
    (placement deps rec (sessionId deps rec) seen).1 = (place deps rec seen).id deps := by
  unfold placement place
  cases seen.bind Session.turn <;> rfl

theorem GeminiCli.names_llmSpan (error : Option String) (seen : Option Session) :
    SpanName.Names deps
      { recipe := .geminiLlm
        place := place deps rec seen
        fields := [sessionId deps rec, toString (recordTime rec),
          (attrStr deps rec.attributes "model").getD ""] }
      (llmSpan deps ctx rec (sessionId deps rec) error seen) :=
  SpanName.names_finish (id_place seen) rfl

theorem GeminiCli.names_eventUse {name : String} {seen : Option Session}
    (mapped : (eventUse deps ctx rec name seen).1 = .span s) :
    (spanName deps rec name seen).Names deps s := by
  unfold eventUse at mapped
  unfold spanName
  by_cases prompt : name = "gemini_cli.user_prompt"
  · rw [if_pos prompt, Mapping.span.injEq] at mapped
    rw [if_pos prompt, ← mapped]
    exact SpanName.names_finish rfl rfl
  rw [if_neg prompt] at mapped ⊢
  by_cases call : name = "gemini_cli.tool_call"
  · subst call
    rw [if_neg (by decide), if_neg (by decide), if_pos rfl, Mapping.span.injEq] at mapped
    rw [if_pos rfl, ← mapped]
    exact SpanName.names_finish (id_place seen) rfl
  rw [if_neg call]
  by_cases response : name = "gemini_cli.api_response"
  · rw [if_pos response, Mapping.span.injEq] at mapped
    rw [← mapped]
    exact names_llmSpan _ seen
  by_cases error : name = "gemini_cli.api_error"
  · rw [if_neg response, if_pos error, Mapping.span.injEq] at mapped
    rw [← mapped]
    exact names_llmSpan _ seen
  rw [if_neg response, if_neg error, if_neg call] at mapped
  split at mapped
  · contradiction
  · split at mapped <;> contradiction

theorem names_genericSpan (name : Option String) :
    (genericName deps ctx rec name).Names deps (genericSpan deps ctx rec name) := by
  have trace : genericTrace deps ctx rec (name.getD "log")
      ((rec.body.map deps.debugAnyValue).getD "") =
      (genericName deps ctx rec name).place.id deps := by
    unfold genericTrace genericName
    cases (traceContext rec).1 <;> rfl
  refine SpanName.names_finish trace ?_
  simp only [trace]
  rfl

theorem ClaudeCode.names_mapLog {name : Option String}
    (mapped : mapLog deps ctx rec name = .span s) :
    (spanName deps rec ((stripPrefix (name.getD "") "claude_code.").getD (name.getD ""))).Names
      deps s := by
  unfold mapLog at mapped
  split at mapped
  · contradiction
  · split at mapped
    · contradiction
    · exact names_mapEvent mapped

theorem Codex.names_mapLog {name : Option String} {recent : Recall Conversation}
    {loc : Local Conversation} (mapped : (mapLog deps ctx rec name recent loc).1 = .span s) :
    (spanName deps rec ((stripPrefix (name.getD "") "codex.").getD (name.getD ""))
      (recent.get loc (conversationId deps rec))).Names deps s := by
  rw [mapLog_eq_run] at mapped
  unfold use at mapped
  split at mapped
  · contradiction
  · split at mapped
    · contradiction
    · rename_i event read
      obtain ⟨text, rfl, stripped⟩ := Option.bind_eq_some_iff.mp read
      simp only [Option.getD_some, stripped]
      exact names_eventUse mapped

theorem GeminiCli.names_mapLog {name : Option String} {recent : Recall Session}
    {loc : Local Session} (mapped : (mapLog deps ctx rec name recent loc).1 = .span s) :
    (spanName deps rec (name.getD "") (recent.get loc (sessionId deps rec))).Names deps s := by
  rw [mapLog_eq_run] at mapped
  unfold use at mapped
  split at mapped
  · contradiction
  · split at mapped
    · contradiction
    · exact names_eventUse mapped

theorem mapDialect_fst (name : Option String) (state : RequestState) (node : Remembered) :
    (mapDialect deps ctx rec name node state).1 =
      match ClaudeCode.mapLog deps ctx rec name with
      | .notMine =>
        match (Codex.mapLog deps ctx rec name node.codex state.codex).1 with
        | .notMine => (GeminiCli.mapLog deps ctx rec name node.gemini state.gemini).1
        | mapping => mapping
      | mapping => mapping := by
  unfold mapDialect
  cases ClaudeCode.mapLog deps ctx rec name with
  | span span => rfl
  | folded => rfl
  | notMine =>
    obtain ⟨mapping, codex, recent⟩ := Codex.mapLog deps ctx rec name node.codex state.codex
    cases mapping with
    | span span => rfl
    | folded => rfl
    | notMine => rfl

theorem names_settle {prices : Pricing.PriceTable} {policy : LogsPolicy} {mapping : Mapping}
    {name : Option String} {given : SpanName}
    (dialect : ∀ span, mapping = .span span → given.Names deps span)
    (generic : mapping = .notMine → given = genericName deps ctx rec name)
    (settled : settle deps prices policy ctx rec name mapping = .span s) :
    given.Names deps s := by
  unfold settle at settled
  split at settled
  · rename_i span
    rw [Mapped.span.injEq] at settled
    rw [← settled]
    exact (dialect span rfl).apply prices
  · contradiction
  · split at settled
    · rw [Mapped.span.injEq] at settled
      rw [← settled, generic rfl]
      exact (names_genericSpan name).apply prices
    · contradiction

/-- A record that becomes a span carries the name it was given. -/
theorem names_mapRecord {prices : Pricing.PriceTable} {policy : LogsPolicy}
    {state : RequestState} {node : Remembered}
    (mapped : (mapRecord deps prices policy ctx rec state node).1 = .span s) :
    (spanName deps ctx rec state node).Names deps s := by
  have settled : settle deps prices policy ctx rec (eventName deps rec)
      (mapDialect deps ctx rec (eventName deps rec) node state).1 = .span s := by
    unfold mapRecord at mapped
    by_cases off : policy = .off
    · rw [if_pos off] at mapped
      contradiction
    rw [if_neg off] at mapped
    by_cases evaluation : eventName deps rec = some EvalEvent.eventName
    · simp only [evaluation, if_true, mapEvaluation] at mapped
      split at mapped <;> contradiction
    · simpa only [evaluation, if_false] using mapped
  rw [mapDialect_fst] at settled
  unfold spanName
  -- the dialect that answers is the one that names
  cases claude : ClaudeCode.mapLog deps ctx rec (eventName deps rec) with
  | span span =>
    simp only [claude] at settled ⊢
    refine names_settle (fun span' same => ?_) (fun impossible => by cases impossible) settled
    rw [← Mapping.span.inj same]
    exact ClaudeCode.names_mapLog claude
  | folded => simp [claude, settle] at settled
  | notMine =>
    simp only [claude] at settled ⊢
    cases codex : (Codex.mapLog deps ctx rec (eventName deps rec) node.codex state.codex).1 with
    | span span =>
      simp only [codex] at settled ⊢
      refine names_settle (fun span' same => ?_) (fun impossible => by cases impossible) settled
      rw [← Mapping.span.inj same]
      exact Codex.names_mapLog codex
    | folded => simp [codex, settle] at settled
    | notMine =>
      simp only [codex] at settled ⊢
      cases gemini : (GeminiCli.mapLog deps ctx rec (eventName deps rec) node.gemini
          state.gemini).1 with
      | span span =>
        simp only [gemini] at settled ⊢
        refine names_settle (fun span' same => ?_) (fun impossible => by cases impossible) settled
        rw [← Mapping.span.inj same]
        exact GeminiCli.names_mapLog gemini
      | folded => simp [gemini, settle] at settled
      | notMine =>
        simp only [gemini] at settled ⊢
        exact names_settle (fun span' impossible => by cases impossible) (fun _ => rfl) settled

end Mapped

/-! ## The records of an export -/

/-- A record that becomes a span. -/
structure SpanRecord where
  record : LogRecord
  name : SpanName
  span : NormalizedSpan

/-- The id by which a record names its call. -/
def SpanRecord.callId (r : SpanRecord) : Option String :=
  let own (key : String) := (attrStr deps r.record.attributes key).filter (· ≠ "")
  match r.name.recipe with
  | .claudeLlm => own "request_id"
  | .claudeTool => own "tool_use_id"
  | .claudePrompt => own "prompt.id"
  | .codexTool => own "call_id"
  | .geminiPrompt => own "prompt_id"
  | _ => none

/-- Two records that do not name the same call. -/
structure Unrelated (r r' : SpanRecord) : Prop where
  differ : r.record ≠ r'.record
  calls : r.name.recipe = r'.name.recipe → r.callId deps = r'.callId deps → r.callId deps = none

variable (prices : Pricing.PriceTable) (policy : LogsPolicy)

/-- What the record at a place in an export becomes, when it becomes a span. -/
def spanRecordAt (node : Remembered) (req : ExportLogsServiceRequest) (i : Nat) :
    Option SpanRecord :=
  match (recordsOf deps req)[i]? with
  | none => none
  | some (ctx, rec) =>
    let (_, state, node) :=
      ((recordsOf deps req).take i).foldl (mapNext deps prices policy) ({}, {}, node)
    match (mapRecord deps prices policy ctx rec state node).1 with
    | .span span => some { record := rec, name := spanName deps ctx rec state node, span := span }
    | _ => none

/-- The hash tells apart what is hashed for the spans of an export. -/
def ExportDistinguished (node : Remembered) (req : ExportLogsServiceRequest) : Prop :=
  ∀ i j r r', spanRecordAt deps prices policy node req i = some r →
    spanRecordAt deps prices policy node req j = some r' → r.name.Distinguished deps r'.name

section Exported

variable {deps : Deps} {prices : Pricing.PriceTable} {policy : LogsPolicy} {node : Remembered}
  {req : ExportLogsServiceRequest}

/-- The spans of an export are those of its records. -/
theorem mem_spans_iff {s : NormalizedSpan} :
    s ∈ (normalizeLogs deps prices policy node req).1.spans ↔
      ∃ i r, spanRecordAt deps prices policy node req i = some r ∧ r.span = s := by
  have noSpan : s ∉ ({} : LogsBatch).spans := by simp
  rw [normalizeLogs, mem_foldl_mapNext, or_iff_right noSpan]
  constructor
  -- the span is that of the record before which the fold stood
  · intro came
    obtain ⟨before, record, after, split, came⟩ := came
    cases mapped : (mapRecord deps prices policy record.1 record.2
        (before.foldl (mapNext deps prices policy) ({}, {}, node)).2.1
        (before.foldl (mapNext deps prices policy) ({}, {}, node)).2.2).1 with
    | span span =>
      rw [mapped, Mapped.spans, List.mem_singleton] at came
      let memory := (before.foldl (mapNext deps prices policy) ({}, {}, node)).2
      refine ⟨before.length,
        ⟨record.2, spanName deps record.1 record.2 memory.1 memory.2, span⟩, ?_, came.symm⟩
      simp only [spanRecordAt, split, List.getElem?_append_right (Nat.le_refl _), Nat.sub_self,
        List.getElem?_cons_zero, List.take_left', mapped]
      rfl
    | score score => simp [mapped, Mapped.spans] at came
    | dropped outcome => simp [mapped, Mapped.spans] at came
  · intro came
    obtain ⟨i, r, found, same⟩ := came
    unfold spanRecordAt at found
    split at found
    · contradiction
    · rename_i ctx rec listed
      simp only at found
      split at found
      · rename_i span mapped
        obtain ⟨inside, isRecord⟩ := List.getElem?_eq_some_iff.mp listed
        refine ⟨(recordsOf deps req).take i, (ctx, rec), (recordsOf deps req).drop (i + 1), ?_, ?_⟩
        · rw [← isRecord]
          simp
        · rw [mapped, Mapped.spans, List.mem_singleton, ← same, ← Option.some.inj found]
      · contradiction

theorem names_of_spanRecordAt {i : Nat} {r : SpanRecord}
    (found : spanRecordAt deps prices policy node req i = some r) :
    r.name.Names deps r.span := by
  unfold spanRecordAt at found
  split at found
  · contradiction
  · simp only at found
    split at found
    · rename_i mapped
      rw [← Option.some.inj found]
      exact names_mapRecord mapped
    · contradiction

/-- The spans of unrelated records have keys of their own exactly when no two of the records
are of one recipe, read alike in its fields and are placed in one trace. -/
theorem records_apart_iff (distinguished : ExportDistinguished deps prices policy node req) :
    (∀ i j r r', spanRecordAt deps prices policy node req i = some r →
      spanRecordAt deps prices policy node req j = some r' → Unrelated deps r r' →
      (r.span.traceId, r.span.spanId) ≠ (r'.span.traceId, r'.span.spanId)) ↔
    (∀ i j r r', spanRecordAt deps prices policy node req i = some r →
      spanRecordAt deps prices policy node req j = some r' → Unrelated deps r r' →
      ¬ r.name.Same deps r'.name) := by
  have each (i j : Nat) (r r' : SpanRecord)
      (found : spanRecordAt deps prices policy node req i = some r)
      (found' : spanRecordAt deps prices policy node req j = some r') :
      (r.span.traceId, r.span.spanId) = (r'.span.traceId, r'.span.spanId) ↔
        r.name.Same deps r'.name :=
    (names_of_spanRecordAt found).key_eq_iff (names_of_spanRecordAt found')
      (distinguished i j r r' found found')
  constructor
  · intro apart i j r r' found found' unrelated same
    exact apart i j r r' found found' unrelated ((each i j r r' found found').mpr same)
  · intro apart i j r r' found found' unrelated same
    exact apart i j r r' found found' unrelated ((each i j r r' found found').mp same)

end Exported

/-! ## Records without ids -/

def claudeCtx : RecordCtx := { scopeName := some "com.anthropic.claude_code.events" }

/-- A request to a model, with or without its id. -/
def claudeRequest (model : String) (requestId : List KeyValue) : LogRecord :=
  { timeUnixNano := 1000
    attributes := [kvStr "event.name" "api_request", kvStr "session.id" "s1",
      kvStr "model" model] ++ requestId }

/-- Two requests of which only the session is told, and one with its id. -/
def threeRequests : ExportLogsServiceRequest :=
  { resourceLogs := [{ scopeLogs := [
      { scope := some { name := "com.anthropic.claude_code.events" }
        logRecords := [claudeRequest "claude-opus-4-8" [], claudeRequest "claude-haiku-4-5" [],
          claudeRequest "claude-opus-4-8" [kvStr "request_id" "req_1"]] }] }] }

def claudeName (key : String) : SpanName where
  recipe := .claudeLlm
  place := .derived ["claude_code.trace", "s1", ""]
  fields := [key]

def claudeRequestSpan (rec : LogRecord) (key : String) : SpanRecord where
  record := rec
  name := claudeName key
  span := Pricing.apply .unused noPrices (ClaudeCode.llmSpan .hashing claudeCtx rec none)

theorem spanRecordAt_threeRequests_zero :
    spanRecordAt .hashing noPrices .genai {} threeRequests 0 =
      some (claudeRequestSpan (claudeRequest "claude-opus-4-8" []) "s1||1000") := rfl

theorem spanRecordAt_threeRequests_one :
    spanRecordAt .hashing noPrices .genai {} threeRequests 1 =
      some (claudeRequestSpan (claudeRequest "claude-haiku-4-5" []) "s1||1000") := rfl

theorem spanRecordAt_threeRequests_two :
    spanRecordAt .hashing noPrices .genai {} threeRequests 2 = some (claudeRequestSpan
      (claudeRequest "claude-opus-4-8" [kvStr "request_id" "req_1"]) "req_1") := rfl

theorem distinguished_threeRequests :
    ExportDistinguished .hashing noPrices .genai {} threeRequests := by
  have named (i : Nat) (r : SpanRecord)
      (found : spanRecordAt .hashing noPrices .genai {} threeRequests i = some r) :
      r.name = claudeName "s1||1000" ∨ r.name = claudeName "req_1" := by
    match i with
    | 0 =>
      rw [spanRecordAt_threeRequests_zero] at found
      exact .inl (by rw [← Option.some.inj found]; rfl)
    | 1 =>
      rw [spanRecordAt_threeRequests_one] at found
      exact .inl (by rw [← Option.some.inj found]; rfl)
    | 2 =>
      rw [spanRecordAt_threeRequests_two] at found
      exact .inr (by rw [← Option.some.inj found]; rfl)
    | i + 3 => cases found
  have apart : deriveId .hashing 8 ["claude_code.llm", "s1||1000"] ≠
      deriveId .hashing 8 ["claude_code.llm", "req_1"] := by decide +kernel
  have traces (key key' : String) (parts parts' : List String)
      (place : (claudeName key).place = .derived parts)
      (place' : (claudeName key').place = .derived parts') :
      Distinguished .hashing 16 parts parts' := by
    rw [← Place.derived.inj place, ← Place.derived.inj place']
    exact fun _ => rfl
  intro i j r r' found found'
  cases named i r found with
  | inl name =>
    cases named j r' found' with
    | inl name' => rw [name, name']; exact ⟨traces _ _, fun _ => rfl⟩
    | inr name' => rw [name, name']; exact ⟨traces _ _, fun same => absurd same apart⟩
  | inr name =>
    cases named j r' found' with
    | inl name' => rw [name, name']; exact ⟨traces _ _, fun same => absurd same.symm apart⟩
    | inr name' => rw [name, name']; exact ⟨traces _ _, fun _ => rfl⟩

theorem records_apart_iff_threeRequests :
    (∀ i j r r', spanRecordAt .hashing noPrices .genai {} threeRequests i = some r →
      spanRecordAt .hashing noPrices .genai {} threeRequests j = some r' →
      Unrelated .hashing r r' →
      (r.span.traceId, r.span.spanId) ≠ (r'.span.traceId, r'.span.spanId)) ↔
    (∀ i j r r', spanRecordAt .hashing noPrices .genai {} threeRequests i = some r →
      spanRecordAt .hashing noPrices .genai {} threeRequests j = some r' →
      Unrelated .hashing r r' → ¬ r.name.Same .hashing r'.name) :=
  records_apart_iff distinguished_threeRequests

/-- The first two are requests to different models, and get one key. -/
theorem two_models_one_key : ∃ r r',
    spanRecordAt .hashing noPrices .genai {} threeRequests 0 = some r ∧
    spanRecordAt .hashing noPrices .genai {} threeRequests 1 = some r' ∧
    Unrelated .hashing r r' ∧
    (r.span.traceId, r.span.spanId) = (r'.span.traceId, r'.span.spanId) := by
  have names := names_of_spanRecordAt spanRecordAt_threeRequests_zero
  have names' := names_of_spanRecordAt spanRecordAt_threeRequests_one
  refine ⟨_, _, spanRecordAt_threeRequests_zero, spanRecordAt_threeRequests_one, ?_, ?_⟩
  · constructor
    · intro same
      have models : attrStr .hashing (claudeRequest "claude-opus-4-8" []).attributes "model" =
          attrStr .hashing (claudeRequest "claude-haiku-4-5" []).attributes "model" :=
        congrArg (fun rec : LogRecord => attrStr .hashing rec.attributes "model") same
      exact absurd models (by decide)
    · intro _ _
      decide
  · rw [Prod.mk.injEq, names.traceId, names'.traceId, names.spanId, names'.spanId]
    exact ⟨rfl, rfl⟩

end Evald.Logs
