import Evald.Attributes
import Evald.Calls
import Evald.Price
import Evald.Logs.Codex
import Evald.Logs.GeminiCli
import Evald.Lib.Multimap

/-! # What of a span does not come from memory

A placed span carries attributes that come from what is remembered: the trace context
of the request it ends and the provider.  Its identity aside, nothing a count is made of
reads them: `facts_finish` says that two drafts that differ only there normalize to
spans with the same ids, kind, tokens, session and call key.
-/

namespace Evald.Logs

open Evald.Lib Evald.Otlp Evald.Normalize

/-- What the ledger reads of a span. -/
structure CallMark where
  key : Option String
  anchor : Option String
  named : Bool
  deriving DecidableEq

/-- What a span is counted by. -/
structure Reading where
  traceId : String
  spanId : String
  oiKind : Option String
  tokens : Tokens
  sessionId : Option String
  deriving DecidableEq

def readingOf (s : NormalizedSpan) : Reading :=
  { traceId := s.traceId
    spanId := s.spanId
    oiKind := s.oiKind
    tokens := s.tokens
    sessionId := s.sessionId }

def markOf (s : NormalizedSpan) : CallMark :=
  { key := CallLedger.keyOf s
    anchor := CallLedger.anchorOf s
    named := startsWith s.name "claude_code." }

def factsOf (s : NormalizedSpan) : Reading × CallMark := (readingOf s, markOf s)

/-! ## Attribute lists that agree outside some keys -/

theorem outside_add_hidden {hidden : List String} {kv : KeyValue} (inside : kv.key ∈ hidden)
    (attrs : List KeyValue) : outside hidden (add attrs kv) = outside hidden attrs := by
  unfold add
  split
  · rfl
  · simp [outside, inside]

theorem outside_add_visible {hidden : List String} {kv : KeyValue} (visible : kv.key ∉ hidden)
    (attrs : List KeyValue) : outside hidden (add attrs kv) = add (outside hidden attrs) kv := by
  unfold add
  have found : (outside hidden attrs).any (fun x => x.key = kv.key) =
      attrs.any (fun x => x.key = kv.key) :=
    any_outside (p := fun key => decide (key = kv.key))
      (fun key inside => by
        rw [decide_eq_false_iff_not]
        intro same
        exact visible (same ▸ inside)) attrs
  rw [found]
  split
  · rfl
  · simp [outside, visible]

theorem outside_addSome_hidden {hidden : List String} {kv : Option KeyValue}
    (inside : ∀ x, kv = some x → x.key ∈ hidden) (attrs : List KeyValue) :
    outside hidden (addSome attrs kv) = outside hidden attrs := by
  cases kv with
  | none => rfl
  | some x => exact outside_add_hidden (inside x rfl) attrs

/-- An addition to lists that agree. -/
theorem outside_add_congr {hidden : List String} {attrs attrs' : List KeyValue}
    (agree : outside hidden attrs = outside hidden attrs') (kv : KeyValue) :
    outside hidden (add attrs kv) = outside hidden (add attrs' kv) := by
  by_cases inside : kv.key ∈ hidden
  · rw [outside_add_hidden inside, outside_add_hidden inside, agree]
  · rw [outside_add_visible inside, outside_add_visible inside, agree]

theorem outside_addSome_congr {hidden : List String} {attrs attrs' : List KeyValue}
    (agree : outside hidden attrs = outside hidden attrs') (kv : Option KeyValue) :
    outside hidden (addSome attrs kv) = outside hidden (addSome attrs' kv) := by
  cases kv with
  | none => exact agree
  | some x => exact outside_add_congr agree x

/-- The attributes that come from what is remembered. -/
def memoryKeys : List String :=
  ["evald.otel.trace_id", "evald.otel.span_id", "gen_ai.provider.name"]

theorem hasGenaiCall_outside (attrs : List KeyValue) :
    hasGenaiCall (outside memoryKeys attrs) = hasGenaiCall attrs :=
  any_outside (p := isGenaiCallKey) (by decide) attrs

theorem inferOiKind_outside (deps : Deps) (attrs : List KeyValue) :
    inferOiKind deps (outside memoryKeys attrs) = inferOiKind deps attrs := by
  have tools : (outside memoryKeys attrs).any (fun kv => startsWith kv.key "gen_ai.tool.") =
      attrs.any (fun kv => startsWith kv.key "gen_ai.tool.") :=
    any_outside (p := fun key => startsWith key "gen_ai.tool.") (by decide) attrs
  unfold inferOiKind operationKind
  simp only [attrStr_outside deps attrs (show "gen_ai.operation.name" ∉ memoryKeys by decide),
    attrStr_outside deps attrs (show "mcp.method.name" ∉ memoryKeys by decide),
    hasGenaiCall_outside, tools]

theorem reportedTokens_outside (attrs : List KeyValue) :
    reportedTokens (outside memoryKeys attrs) = reportedTokens attrs := by
  unfold reportedTokens
  simp only [Tokens.mk.injEq]
  refine ⟨?_, ?_, ?_, ?_, ?_, ?_⟩ <;> exact firstU64_outside attrs (by decide)

/-! ## Through the normalization and the price -/

theorem readingOf_normalize (s : NormalizedSpan) :
    readingOf (Agent.normalize s) = readingOf (Agent.usageSetAside s) := by
  obtain ⟨raw, -, normalized⟩ := Agent.normalize_spec s
  rw [normalized]
  rfl

/-- The attributes the ledger reads are left alone. -/
theorem markOf_normalize (s : NormalizedSpan) : markOf (Agent.normalize s) = markOf s := by
  obtain ⟨raw, kept, normalized⟩ := Agent.normalize_spec s
  have name : (Agent.usageSetAside s).name = s.name := by
    unfold Agent.usageSetAside
    split <;> rfl
  rw [normalized]
  simp only [markOf, CallLedger.keyOf, CallLedger.anchorOf, name,
    kept ClaudeCode.callKey (by decide), kept ClaudeCode.callAnchor (by decide)]

/-- What usage is set aside by. -/
theorem readingOf_usageSetAside {s s' : NormalizedSpan} (reading : readingOf s = readingOf s')
    (kind : s.otelKind = s'.otelKind) (cost : s.costUsd = s'.costUsd) :
    readingOf (Agent.usageSetAside s) = readingOf (Agent.usageSetAside s') := by
  simp only [readingOf, Reading.mk.injEq] at reading
  obtain ⟨trace, span, oiKind, tokens, session⟩ := reading
  have aside : Agent.setsAside s = Agent.setsAside s' := by
    unfold Agent.setsAside
    rw [oiKind, kind, tokens, cost]
  unfold Agent.usageSetAside
  rw [aside]
  split
  · simp only [readingOf, Agent.setAside, trace, span, oiKind, session]
  · simp only [readingOf, trace, span, oiKind, tokens, session]

/-- A draft without what comes from memory, its place in time and its status. -/
def SpanDraft.bare (draft : SpanDraft) : SpanDraft :=
  { draft with
    parentSpanId := []
    startUnixNano := 0
    endUnixNano := 0
    status := none
    attributes := outside memoryKeys draft.attributes }

theorem facts_bare (deps : Deps) (draft : SpanDraft) (ctx : RecordCtx) :
    factsOf (draft.finish deps ctx) = factsOf (draft.bare.finish deps ctx) := by
  unfold SpanDraft.finish normalizeSpan factsOf
  rw [readingOf_normalize, readingOf_normalize, markOf_normalize, markOf_normalize]
  have cost : firstF64 deps (outside memoryKeys draft.attributes) costAttributes =
      firstF64 deps draft.attributes costAttributes := firstF64_outside deps _ (by decide)
  have kind := attrStr_outside deps draft.attributes
    (show "openinference.span.kind" ∉ memoryKeys by decide)
  have session : firstStr deps (outside memoryKeys draft.attributes)
        ["session.id", "gen_ai.conversation.id"] =
      firstStr deps draft.attributes ["session.id", "gen_ai.conversation.id"] :=
    firstStr_outside deps _ (by decide)
  rw [Prod.mk.injEq]
  constructor
  · apply readingOf_usageSetAside
    · simp only [readingOf, readSpan, SpanDraft.toSpan, SpanDraft.bare, kind,
        inferOiKind_outside, reportedTokens_outside, session]
    · rfl
    · exact cost.symm
  · simp only [markOf, CallLedger.keyOf, CallLedger.anchorOf, readSpan, SpanDraft.toSpan,
      SpanDraft.bare,
      getElem?_rawAttributes_outside (show ClaudeCode.callKey ∉ memoryKeys by decide),
      getElem?_rawAttributes_outside (show ClaudeCode.callAnchor ∉ memoryKeys by decide)]

theorem facts_apply (float : Floats) (prices : Pricing.PriceTable) (s : NormalizedSpan) :
    factsOf (Pricing.apply float prices s) = factsOf s := by
  obtain ⟨cost, raw, kept, priced⟩ := Pricing.apply_spec float prices s
  rw [priced]
  simp only [factsOf, markOf, CallLedger.keyOf, CallLedger.anchorOf,
    kept ClaudeCode.callKey (by decide), kept ClaudeCode.callAnchor (by decide)]
  rfl

/-- The facts of a draft that was mapped and priced. -/
theorem facts_priced_bare (deps : Deps) (prices : Pricing.PriceTable) {draft draft' : SpanDraft}
    (same : draft.bare = draft'.bare) (ctx : RecordCtx) :
    factsOf (Pricing.apply deps.float prices (draft.finish deps ctx)) =
      factsOf (Pricing.apply deps.float prices (draft'.finish deps ctx)) := by
  rw [facts_apply, facts_apply, facts_bare, same, ← facts_bare]

/-! ## The dialects' spans -/

section Codex

open Codex

variable (deps : Deps) (prices : Pricing.PriceTable)

theorem outside_common (a : List KeyValue) (conv : String)
    (own own' : Option (List UInt8 × List UInt8)) :
    outside memoryKeys (Codex.common a conv own) =
      outside memoryKeys (Codex.common a conv own') := by
  have contexts (o : Option (List UInt8 × List UInt8)) :
      outside memoryKeys (addSome (addSome a
          (o.map (fun o => kvStr "evald.otel.trace_id" (hexEncode o.1))))
          (o.map (fun o => kvStr "evald.otel.span_id" (hexEncode o.2)))) =
        outside memoryKeys a := by
    rw [outside_addSome_hidden, outside_addSome_hidden]
    · intro x found
      obtain ⟨o, -, rfl⟩ := Option.map_eq_some_iff.mp found
      exact List.mem_cons_self
    · intro x found
      obtain ⟨o, -, rfl⟩ := Option.map_eq_some_iff.mp found
      exact List.mem_cons_of_mem _ List.mem_cons_self
  unfold Codex.common
  apply outside_add_congr
  split
  · exact outside_add_congr ((contexts own).trans (contexts own').symm) _
  · exact (contexts own).trans (contexts own').symm

theorem outside_llmAttributes (rec : LogRecord) (conv : String)
    (own own' : Option (List UInt8 × List UInt8)) (provider provider' : Option String) :
    outside memoryKeys (Codex.llmAttributes deps rec conv own provider) =
      outside memoryKeys (Codex.llmAttributes deps rec conv own' provider') := by
  have providers (attrs : List KeyValue) (p : Option String) :
      outside memoryKeys (addSome attrs (p.map (kvStr "gen_ai.provider.name"))) =
        outside memoryKeys attrs := by
    apply outside_addSome_hidden
    intro x found
    obtain ⟨p, -, rfl⟩ := Option.map_eq_some_iff.mp found
    exact List.mem_cons_of_mem _ (List.mem_cons_of_mem _ List.mem_cons_self)
  have usage (counts : List (String × Option Nat)) {attrs attrs' : List KeyValue}
      (agree : outside memoryKeys attrs = outside memoryKeys attrs') :
      outside memoryKeys (counts.foldl Codex.addUsage attrs) =
        outside memoryKeys (counts.foldl Codex.addUsage attrs') := by
    induction counts generalizing attrs attrs' with
    | nil => exact agree
    | cons count counts inductionHypothesis =>
      exact inductionHypothesis (outside_addSome_congr agree _)
  unfold Codex.llmAttributes
  apply outside_addSome_congr
  apply usage
  apply outside_addSome_congr
  apply outside_addSome_congr
  rw [providers, providers]
  exact outside_add_congr (outside_common _ _ own own') _

/-- A model call is counted by its record and the trace it is placed in. -/
theorem codex_llm_facts (ctx : RecordCtx) (rec : LogRecord) (conv : String)
    (error : Option String) {seen seen' : Option Conversation}
    (trace : (Codex.placement deps seen conv).1 = (Codex.placement deps seen' conv).1) :
    factsOf (Pricing.apply deps.float prices (Codex.llmSpan deps ctx rec conv error seen)) =
      factsOf (Pricing.apply deps.float prices (Codex.llmSpan deps ctx rec conv error seen')) := by
  apply facts_priced_bare
  rw [SpanDraft.bare, SpanDraft.bare, trace]
  simp only [SpanDraft.mk.injEq, true_and]
  exact outside_llmAttributes deps rec conv _ _ _ _

/-- So is a tool call. -/
theorem codex_tool_facts (ctx : RecordCtx) (rec : LogRecord) (conv : String)
    {seen seen' : Option Conversation}
    (trace : (Codex.placement deps seen conv).1 = (Codex.placement deps seen' conv).1) :
    factsOf (Pricing.apply deps.float prices (Codex.toolSpan deps ctx rec conv seen)) =
      factsOf (Pricing.apply deps.float prices (Codex.toolSpan deps ctx rec conv seen')) := by
  apply facts_priced_bare
  rw [SpanDraft.bare, SpanDraft.bare, trace]

end Codex

section GeminiCli

open GeminiCli

variable (deps : Deps) (prices : Pricing.PriceTable)

theorem outside_gemini_common (rec : LogRecord) (session : String)
    (own own' : Option (List UInt8 × List UInt8)) :
    outside memoryKeys (GeminiCli.common rec session own) =
      outside memoryKeys (GeminiCli.common rec session own') :=
  -- the same additions as Codex's
  outside_common rec.attributes session own own'

theorem outside_gemini_llmAttributes (rec : LogRecord) (session : String)
    (own own' : Option (List UInt8 × List UInt8)) :
    outside memoryKeys (GeminiCli.llmAttributes deps rec session own) =
      outside memoryKeys (GeminiCli.llmAttributes deps rec session own') := by
  have usage (counts : List (String × Option Nat)) {attrs attrs' : List KeyValue}
      (agree : outside memoryKeys attrs = outside memoryKeys attrs') :
      outside memoryKeys (counts.foldl GeminiCli.addUsage attrs) =
        outside memoryKeys (counts.foldl GeminiCli.addUsage attrs') := by
    induction counts generalizing attrs attrs' with
    | nil => exact agree
    | cons count counts inductionHypothesis =>
      exact inductionHypothesis (outside_addSome_congr agree _)
  unfold GeminiCli.llmAttributes
  apply usage
  apply outside_addSome_congr
  apply outside_addSome_congr
  apply outside_add_congr
  exact outside_add_congr (outside_gemini_common _ _ own own') _

theorem gemini_llm_facts (ctx : RecordCtx) (rec : LogRecord) (session : String)
    (error : Option String) {seen seen' : Option Session}
    (trace : (GeminiCli.placement deps rec session seen).1 =
      (GeminiCli.placement deps rec session seen').1) :
    factsOf (Pricing.apply deps.float prices (GeminiCli.llmSpan deps ctx rec session error seen)) =
      factsOf (Pricing.apply deps.float prices
        (GeminiCli.llmSpan deps ctx rec session error seen')) := by
  apply facts_priced_bare
  rw [SpanDraft.bare, SpanDraft.bare, trace]
  simp only [SpanDraft.mk.injEq, true_and]
  exact outside_gemini_llmAttributes deps rec session _ _

theorem gemini_tool_facts (ctx : RecordCtx) (rec : LogRecord) (session : String)
    {seen seen' : Option Session}
    (trace : (GeminiCli.placement deps rec session seen).1 =
      (GeminiCli.placement deps rec session seen').1) :
    factsOf (Pricing.apply deps.float prices (GeminiCli.toolSpan deps ctx rec session seen)) =
      factsOf (Pricing.apply deps.float prices
        (GeminiCli.toolSpan deps ctx rec session seen')) := by
  apply facts_priced_bare
  rw [SpanDraft.bare, SpanDraft.bare, trace]

end GeminiCli

end Evald.Logs
