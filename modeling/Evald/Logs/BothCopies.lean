import Evald.Doubles
import Evald.Logs.CallCost

/-! # Both copies of an API call

The event and the traced span of an API call carry the same bare counts, and become spans of
one id and one call key, and of the same counts where the span sends none as a double.  Only
the event's has the total among its attributes, and so the two are priced alike only where the
cache counts say by themselves that they are on top of the input (`copies_interchangeable_iff`).
-/

namespace Evald.Logs

open Evald.Lib Evald.Otlp Evald.Normalize Evald.Pricing Evald.Traces

/-! ## The signals -/

/-- An API call, as its signals describe it. -/
structure ApiCall where
  requestId : String
  model : String
  input : Option Nat
  output : Option Nat
  cacheRead : Option Nat
  cacheCreation : Option Nat

namespace ApiCall

variable (call : ApiCall)

def counts : List (String × Option Nat) :=
  [("input_tokens", call.input), ("output_tokens", call.output),
    ("cache_read_tokens", call.cacheRead), ("cache_creation_tokens", call.cacheCreation)]

/-- The counts are of tokens on top of each other. -/
def split : TrueSplit :=
  { uncached := call.input.getD 0
    cacheRead := call.cacheRead.getD 0
    cacheWrite := call.cacheCreation.getD 0
    textOut := call.output.getD 0
    reasoning := 0 }

def tokens : Tokens :=
  { prompt := call.input
    completion := call.output
    cacheRead := call.cacheRead
    cacheWrite := call.cacheCreation
    total := if call.input.isSome || call.output.isSome then some call.split.total else none }

end ApiCall

/-- A count is sent as an integer, as its digits, or as a whole double. -/
inductive CountValue : Option Nat → Option AnyValue → Prop where
  | absent : CountValue none none
  | int (n : Nat) : CountValue (some n) (some (.int n))
  | digits {n : Nat} {s : String} (spelled : parseU64 s = some n) :
    CountValue (some n) (some (.string s))
  | double {n : Nat} {d : F64} (whole : d.toU64? = some n) :
    CountValue (some n) (some (.double d))

/-- The attributes that both signals have of a call. -/
structure BareCall (call : ApiCall) (attrs : List KeyValue) : Prop where
  request : Bears attrs "request_id" (some (.string call.requestId))
  counts : ∀ count ∈ call.counts, ∃ v, CountValue count.2 v ∧ Bears attrs count.1 v

/-- An `api_request` event that does not report a cost. -/
structure ApiEvent (deps : Deps) (call : ApiCall) (ctx : RecordCtx) (rec : LogRecord) : Prop where
  mine : ClaudeCode.isMine ctx = true
  event : ∃ name, eventName deps rec = some name ∧
    (stripPrefix name "claude_code.").getD name = "api_request"
  bare : BareCall call rec.attributes
  model : attrStr deps rec.attributes "model" = some call.model
  unreported : Absent rec.attributes "cost_usd"
  plain : Plain rec.attributes
  unmarked : Absent rec.attributes ClaudeCode.callKey

/-- A traced span of the call. -/
structure ApiSpan (deps : Deps) (call : ApiCall) (scope : Option Scope) (span : Span) : Prop where
  traced : (scopeOf scope).1 = some ClaudeCode.tracingScope
  name : span.name = ClaudeCode.llmSpanName
  bare : BareCall call span.attributes
  model : firstStr deps span.attributes
    ["gen_ai.response.model", "gen_ai.request.model", "llm.model_name"] = some call.model
  plain : ∀ key ∈ countSpellings ++ otherSpellings, Absent span.attributes key

/-- None of the counts is sent as a double. -/
def NoDoubles (call : ApiCall) (attrs : List KeyValue) : Prop :=
  ∀ count ∈ call.counts, ∀ d, attr attrs count.1 ≠ some (.double d)

/-- It does not matter which of two copies is kept. -/
structure Interchangeable (s s' : NormalizedSpan) : Prop where
  spanId : s.spanId = s'.spanId
  key : CallLedger.keyOf s = CallLedger.keyOf s'
  tokens : s.tokens = s'.tokens
  cost : s.costUsd = s'.costUsd

/-! ## The counts -/

theorem CountValue.attrU64 {attrs : List KeyValue} {key : String} {n : Option Nat}
    {v : Option AnyValue} (value : CountValue n v) (bears : Bears attrs key v) :
    attrU64 attrs key = n := by
  rw [Normalize.attrU64, bears.read]
  cases value with
  | absent => rfl
  | int n => simp
  | digits spelled => exact spelled
  | double whole => exact whole

theorem CountValue.rawU64 {raw : Attributes} {key : String} {n : Option Nat} {v : Option AnyValue}
    (value : CountValue n v) (there : raw[key]? = v.map anyvalueToJson)
    (fits : n.getD 0 < 2 ^ 64) (noDouble : ∀ d, v ≠ some (.double d)) :
    ClaudeCode.rawU64 raw key = n := by
  rw [ClaudeCode.rawU64, there]
  cases value with
  | absent => rfl
  | int n =>
    rw [Option.getD_some] at fits
    rw [Option.map_some, anyvalueToJson]
    simp only
    rw [Json.asU64, if_pos ⟨by omega, by omega⟩, Int.toNat_natCast]
  | digits spelled => exact spelled
  | double _ => exact absurd rfl (noDouble _)

/-- The fix-up reads no count of a double. -/
theorem rawU64_double {raw : Attributes} {key : String} {d : F64}
    (there : raw[key]? = some (anyvalueToJson (.double d))) : ClaudeCode.rawU64 raw key = none := by
  rw [ClaudeCode.rawU64, there]
  cases d <;> rfl

theorem fixTokens_counts (r : Attributes) :
    (ClaudeCode.fixTokens r {}).prompt = ClaudeCode.rawU64 r "input_tokens" ∧
      (ClaudeCode.fixTokens r {}).completion = ClaudeCode.rawU64 r "output_tokens" ∧
      (ClaudeCode.fixTokens r {}).cacheRead = ClaudeCode.rawU64 r "cache_read_tokens" ∧
      (ClaudeCode.fixTokens r {}).cacheWrite = ClaudeCode.rawU64 r "cache_creation_tokens" := by
  unfold ClaudeCode.fixTokens
  cases ClaudeCode.rawU64 r "input_tokens" with
  | none => cases ClaudeCode.rawU64 r "output_tokens" <;> exact ⟨rfl, rfl, rfl, rfl⟩
  | some n => exact ⟨rfl, rfl, rfl, rfl⟩

section Copies

variable {deps : Deps} {call : ApiCall} {ctx : RecordCtx} {rec : LogRecord}

theorem BareCall.attrU64 {attrs : List KeyValue} (bare : BareCall call attrs) :
    Normalize.attrU64 attrs "input_tokens" = call.input ∧
      Normalize.attrU64 attrs "output_tokens" = call.output ∧
      Normalize.attrU64 attrs "cache_read_tokens" = call.cacheRead ∧
      Normalize.attrU64 attrs "cache_creation_tokens" = call.cacheCreation := by
  have read : ∀ count ∈ call.counts, Normalize.attrU64 attrs count.1 = count.2 := by
    intro count listed
    obtain ⟨v, value, bears⟩ := bare.counts count listed
    exact value.attrU64 bears
  simp only [ApiCall.counts, List.forall_mem_cons] at read
  exact ⟨read.1, read.2.1, read.2.2.1, read.2.2.2.1⟩

/-- The four counts of a call, summed up as both signals sum them up. -/
theorem sumCounts_call (fits : call.split.total < 2 ^ 63) :
    ClaudeCode.sumCounts [call.input, call.output, call.cacheRead, call.cacheCreation] =
      call.split.total := by
  unfold ApiCall.split TrueSplit.total TrueSplit.cache at fits ⊢
  simp only at fits ⊢
  rw [sumCounts_of_fits (by omega)]
  omega

theorem countsFit_call (fits : call.split.total < 2 ^ 63) : CountsFit call.tokens := by
  apply countsFit_of_le fits
  have total : call.tokens.total.getD 0 ≤ call.split.total := by
    unfold ApiCall.tokens
    simp only
    split
    · rfl
    · exact Nat.zero_le _
  unfold ApiCall.split TrueSplit.total TrueSplit.cache at total ⊢
  simp only [canonicalCounts, List.forall_mem_cons, ApiCall.tokens, Option.getD_none] at total ⊢
  exact ⟨by omega, by omega, by omega, by omega, by omega, total, by simp⟩

theorem withTotal_call (call : ApiCall) : withTotal call.tokens = call.tokens := by
  cases stated : call.tokens.total with
  | some n => rw [withTotal, stated]
  | none =>
    unfold ApiCall.tokens at stated
    simp only [ite_eq_right_iff, reduceCtorEq, imp_false, Bool.or_eq_true, not_or] at stated
    rw [withTotal]
    split
    · next p c _ prompt _ =>
      have input : call.input = some p := prompt
      exact absurd (by rw [input]; rfl) stated.1
    · rfl

/-! ## The event's copy -/

theorem ApiEvent.mapped (event : ApiEvent deps call ctx rec) :
    ClaudeCode.mapLog deps ctx rec (eventName deps rec) =
      .span (ClaudeCode.llmSpan deps ctx rec none) := by
  obtain ⟨name, named, about⟩ := event.event
  rw [named]
  unfold ClaudeCode.mapLog ClaudeCode.mapEvent
  simp [event.mine, about]

theorem ApiEvent.pricedFrom (event : ApiEvent deps call ctx rec)
    (fits : call.split.total < 2 ^ 63) :
    PricedFrom (ClaudeCode.llmSpan deps ctx rec none) call.model call.tokens call.tokens.total := by
  obtain ⟨input, output, cacheRead, cacheCreation⟩ := event.bare.attrU64
  have unreported : ClaudeCode.finiteNonneg (attrF64 deps rec.attributes "cost_usd") = none := by
    rw [attrF64, event.unreported.bears.read]
    rfl
  have counted : tokensOf (claudeCounts rec.attributes) = call.tokens := by
    rw [tokensOf_claude, claudeTotal, ClaudeCode.tokenAttributes]
    simp only [List.map_cons, List.map_nil, input, output, cacheRead, cacheCreation,
      sumCounts_call fits]
    rfl
  have written := claude_modelCall deps event.plain event.model unreported
  rw [counted] at written
  show PricedFrom (SpanDraft.finish deps _ ctx) _ _ _
  exact written.finish deps (countsFit_call fits) (withTotal_call call) ctx

theorem ApiEvent.named (event : ApiEvent deps call ctx rec) :
    (ClaudeCode.llmSpan deps ctx rec none).spanId =
        hexEncode (ClaudeCode.llmSpanId deps call.requestId) ∧
      CallLedger.keyOf (ClaudeCode.llmSpan deps ctx rec none) =
        some (ClaudeCode.llmCallKey call.requestId) := by
  have request : ClaudeCode.requestKey deps rec = call.requestId := by
    have read : attrStr deps rec.attributes "request_id" = some call.requestId := by
      rw [attrStr, event.bare.request.read]
      rfl
    simp [ClaudeCode.requestKey, read]
  obtain ⟨grown, grows, attributes⟩ := llmAttributes_eq deps rec
  -- the record names no call key, so the one that is added is read
  have unmarked : Absent grown ClaudeCode.callKey := by
    apply grows.absent (by decide)
    exact ((Grows.refl ["gen_ai.operation.name"] _).add (by simp [kvStr, KeyValue.key])).absent
      (by decide) event.unmarked
  have marked : (rawAttributes (ClaudeCode.llmAttributes deps rec))[ClaudeCode.callKey]? =
      some (.str (ClaudeCode.llmCallKey call.requestId)) := by
    rw [attributes, request]
    exact (carries_add (unmarked.agrees _)).raw
  obtain ⟨raw, kept, normalized⟩ := Agent.normalize_spec (readSpan deps
    (SpanDraft.toSpan
      { traceId := (ClaudeCode.placement deps rec false).1
        spanId := ClaudeCode.llmSpanId deps (ClaudeCode.requestKey deps rec)
        parentSpanId := (ClaudeCode.placement deps rec false).2.1
        name := ClaudeCode.llmSpanName
        startUnixNano := startOf (ClaudeCode.placement deps rec false).2.2 rec.attributes
        endUnixNano := (ClaudeCode.placement deps rec false).2.2
        status := none
        attributes := ClaudeCode.llmAttributes deps rec })
    ctx.serviceName ctx.scopeName ctx.scopeVersion)
  -- setting the usage aside leaves the span's id
  have aside (s : NormalizedSpan) : (Agent.usageSetAside s).spanId = s.spanId := by
    unfold Agent.usageSetAside
    split <;> rfl
  constructor
  · rw [← request]
    exact (congrArg NormalizedSpan.spanId normalized).trans (aside _)
  · rw [CallLedger.keyOf]
    have finished := congrArg NormalizedSpan.rawAttributes normalized
    change (ClaudeCode.llmSpan deps ctx rec none).rawAttributes = raw at finished
    rw [finished, kept _ (by decide)]
    show ((rawAttributes (ClaudeCode.llmAttributes deps rec))[ClaudeCode.callKey]?).bind
      Json.asStr = _
    rw [marked]
    rfl

/-! ## The traced copy -/

/-- The span as it is fixed up. -/
def receivedSpan (deps : Deps) (service schema : Option String) (scopeSpans : ScopeSpans)
    (span : Span) : NormalizedSpan :=
  addSchemaUrl ((nonEmpty scopeSpans.schemaUrl).or schema)
    (normalizeSpan deps span service (scopeOf scopeSpans.scope).1 (scopeOf scopeSpans.scope).2)

variable {scopeSpans : ScopeSpans} {span : Span}

/-- Nothing is read of the usage before the fix-up. -/
theorem ApiSpan.received (traced : ApiSpan deps call scopeSpans.scope span)
    (service schema : Option String) :
    (receivedSpan deps service schema scopeSpans span).tokens = {} ∧
      (receivedSpan deps service schema scopeSpans span).costUsd = none ∧
      (receivedSpan deps service schema scopeSpans span).model = some call.model ∧
      (receivedSpan deps service schema scopeSpans span).name = ClaudeCode.llmSpanName ∧
      ∀ key ∉ "otel.schema_url" :: Agent.writtenKeys,
        (receivedSpan deps service schema scopeSpans span).rawAttributes[key]? =
          (rawAttributes span.attributes)[key]? := by
  obtain ⟨-, -, name, kept⟩ := received_fields deps span service (scopeOf scopeSpans.scope).1
    (scopeOf scopeSpans.scope).2 ((nonEmpty scopeSpans.schemaUrl).or schema)
  -- the event's own spellings are none of the ones normalization reads
  have unwritten : Written span.attributes {} := by
    constructor
    · intro count listed
      have nothing : count.2 = none := by
        simp only [canonicalCounts, List.mem_cons, List.not_mem_nil, or_false] at listed
        obtain rfl | rfl | rfl | rfl | rfl | rfl := listed <;> rfl
      rw [nothing]
      exact (traced.plain count.1 (List.mem_append_left _ (spelled listed))).bears
    · intro key listed
      exact (traced.plain key (List.mem_append_right _ listed)).bears
  have tokens : reportedTokens span.attributes = {} := by
    apply unwritten.reportedTokens
    intro count listed n present
    simp only [canonicalCounts, List.mem_cons, List.not_mem_nil, or_false] at listed
    obtain rfl | rfl | rfl | rfl | rfl | rfl := listed <;> cases present
  have cost := (unwritten.noCost deps).1
  obtain ⟨raw, -, normalized⟩ := Agent.normalize_spec
    (readSpan deps span service (scopeOf scopeSpans.scope).1 (scopeOf scopeSpans.scope).2)
  obtain ⟨withSchema, -, schemed⟩ := addSchemaUrl_spec ((nonEmpty scopeSpans.schemaUrl).or schema)
    (normalizeSpan deps span service (scopeOf scopeSpans.scope).1 (scopeOf scopeSpans.scope).2)
  -- with no usage there is nothing to set aside
  have aside : Agent.usageSetAside
      (readSpan deps span service (scopeOf scopeSpans.scope).1 (scopeOf scopeSpans.scope).2) =
      readSpan deps span service (scopeOf scopeSpans.scope).1 (scopeOf scopeSpans.scope).2 := by
    have unused : (readSpan deps span service (scopeOf scopeSpans.scope).1
        (scopeOf scopeSpans.scope).2).tokens = {} := by
      show withTotal (reportedTokens span.attributes) = {}
      rw [tokens]
      rfl
    have free : (readSpan deps span service (scopeOf scopeSpans.scope).1
        (scopeOf scopeSpans.scope).2).costUsd = none := cost
    rw [Agent.usageSetAside, if_neg]
    unfold Agent.setsAside
    rw [unused, free]
    split
    · simp
    · simp [Tokens.isEmpty]
  have made : ∃ raw', receivedSpan deps service schema scopeSpans span =
      { readSpan deps span service (scopeOf scopeSpans.scope).1 (scopeOf scopeSpans.scope).2 with
        rawAttributes := raw' } := by
    refine ⟨withSchema, ?_⟩
    rw [receivedSpan, schemed, normalizeSpan, normalized, aside]
  obtain ⟨raw', made⟩ := made
  refine ⟨?_, ?_, ?_, name.trans traced.name, kept⟩
  · rw [made]
    show withTotal (reportedTokens span.attributes) = {}
    rw [tokens]
    rfl
  · rw [made]
    exact cost
  · rw [made]
    exact traced.model

theorem ApiSpan.normalized (traced : ApiSpan deps call scopeSpans.scope span)
    (table : PriceTable) (service schema : Option String) :
    normalizeScoped deps table service schema scopeSpans span =
      Pricing.apply deps.float table
        (ClaudeCode.fixLlmSpan deps (receivedSpan deps service schema scopeSpans span)) := by
  have name := (traced.received service schema).2.2.2.1
  have made : normalizeScoped deps table service schema scopeSpans span =
      Pricing.apply deps.float table
        (ClaudeCode.fixTraceSpan deps (receivedSpan deps service schema scopeSpans span)) := by
    unfold normalizeScoped fixFor receivedSpan
    simp only [traced.traced, if_true]
  rw [made, ClaudeCode.fixTraceSpan, if_pos name]

/-- The counts are patched in; the attributes get no total. -/
theorem ApiSpan.pricedFrom (traced : ApiSpan deps call scopeSpans.scope span)
    (nonempty : call.requestId ≠ "") (fits : call.split.total < 2 ^ 63)
    (noDoubles : NoDoubles call span.attributes) (service schema : Option String) :
    PricedFrom (ClaudeCode.fixLlmSpan deps (receivedSpan deps service schema scopeSpans span))
        call.model call.tokens none ∧
      (ClaudeCode.fixLlmSpan deps (receivedSpan deps service schema scopeSpans span)).spanId =
        hexEncode (ClaudeCode.llmSpanId deps call.requestId) ∧
      CallLedger.keyOf
          (ClaudeCode.fixLlmSpan deps (receivedSpan deps service schema scopeSpans span)) =
        some (ClaudeCode.llmCallKey call.requestId) := by
  obtain ⟨tokens, cost, model, -, kept⟩ := traced.received service schema
  have request : (receivedSpan deps service schema scopeSpans span).rawAttributes["request_id"]? =
      some (.str call.requestId) := by
    rw [kept _ (by decide)]
    exact traced.bare.request.raw
  -- each count is read of the received attributes as it was sent
  have read : ∀ count ∈ call.counts,
      ClaudeCode.rawU64 (receivedSpan deps service schema scopeSpans span).rawAttributes count.1 =
        count.2 := by
    intro count listed
    obtain ⟨v, value, bears⟩ := traced.bare.counts count listed
    have other : ∀ key ∈ ["input_tokens", "output_tokens", "cache_read_tokens",
        "cache_creation_tokens"], key ∉ "otel.schema_url" :: Agent.writtenKeys := by decide
    refine value.rawU64 ?_ ?_ ?_
    · rw [kept count.1 (other _ (List.mem_map_of_mem (f := Prod.fst) listed))]
      exact bears.raw
    · unfold ApiCall.split TrueSplit.total TrueSplit.cache at fits
      simp only at fits
      simp only [ApiCall.counts, List.mem_cons, List.not_mem_nil, or_false] at listed
      obtain rfl | rfl | rfl | rfl := listed
      all_goals simp only; omega
    · rw [← bears.read]
      exact noDoubles count listed
  have fixed : ClaudeCode.fixTokens
      (receivedSpan deps service schema scopeSpans span).rawAttributes {} = call.tokens := by
    simp only [ApiCall.counts, List.forall_mem_cons] at read
    obtain ⟨input, output, cacheRead, cacheCreation, -⟩ := read
    rw [ClaudeCode.fixTokens]
    simp only [input, output, cacheRead, cacheCreation, Option.none_or, Option.isNone_none,
      Bool.true_and, sumCounts_call fits, ApiCall.tokens]
    split <;> rfl
  -- three keys are written by the fix-up, every other is as received
  have untouched {key : String} (other : key ∉ ["gen_ai.response.time_to_first_chunk",
      "evald.otel.span_id", ClaudeCode.callKey]) (raw : Attributes) (id : String) (v : Json) :
      (((ClaudeCode.fixFirstChunk deps raw).insert "evald.otel.span_id" (.str id)).insert
        ClaudeCode.callKey v)[key]? = raw[key]? := by
    simp only [List.mem_cons, List.not_mem_nil, or_false, not_or] at other
    rw [getElem?_insert_if, if_neg other.2.2, getElem?_insert_if, if_neg other.2.1,
      fixFirstChunk_spec deps _ _ other.1]
  rw [fixLlmSpan_eq deps nonempty request, tokens, fixed]
  refine ⟨⟨model, rfl, cost, ?_, ?_⟩, rfl, ?_⟩
  · have absent : ∀ key ∈ costAttributes,
        (receivedSpan deps service schema scopeSpans span).rawAttributes[key]? = none := by
      have listed : ∀ key ∈ costAttributes, key ∈ countSpellings ++ otherSpellings ∧
          key ∉ "otel.schema_url" :: Agent.writtenKeys := by decide
      intro key member
      rw [kept key (listed key member).2]
      exact (traced.plain key (listed key member).1).raw
    simp only [costAttributes, List.forall_mem_cons] at absent
    simp only [hasCostAttribute, costAttributes, List.any_cons, List.any_nil,
      Std.ExtTreeMap.contains_eq_isSome_getElem?]
    rw [untouched (by decide), untouched (by decide), absent.1, absent.2.1]
    rfl
  · have absent : ∀ key ∈ ["llm.token_count.total", "gen_ai.usage.total_tokens"],
        (receivedSpan deps service schema scopeSpans span).rawAttributes[key]? = none := by
      have listed : ∀ key ∈ ["llm.token_count.total", "gen_ai.usage.total_tokens"],
          key ∈ countSpellings ++ otherSpellings ∧
            key ∉ "otel.schema_url" :: Agent.writtenKeys := by decide
      intro key member
      rw [kept key (listed key member).2]
      exact (traced.plain key (listed key member).1).raw
    simp only [List.forall_mem_cons] at absent
    rw [Pricing.reportedTotal, List.findSome?_cons, untouched (by decide), absent.1,
      Option.bind_none]
    simp only
    rw [List.findSome?_cons, untouched (by decide), absent.2.1, Option.bind_none]
    rfl
  · rw [CallLedger.keyOf, getElem?_insert_if, if_pos rfl]
    rfl

end Copies

/-! ## The price of both -/

section Price

variable {call : ApiCall}

theorem reports_call (call : ApiCall) : Reports call.tokens call.split { cacheExcl := true } :=
  ⟨rfl, rfl, rfl, rfl, rfl⟩

theorem cache_call (fits : call.split.total < 2 ^ 63) :
    wrappingAdd (call.tokens.cacheRead.getD 0) (call.tokens.cacheWrite.getD 0) =
      call.split.cache := by
  apply wrappingAdd_of_lt
  unfold TrueSplit.total TrueSplit.cache ApiCall.split at fits
  simp only [ApiCall.tokens] at fits ⊢
  omega

/-- With the total, the cache is known to be on top. -/
theorem quantities_event (fits : call.split.total < 2 ^ 63)
    (counted : (call.input.isSome || call.output.isSome) = true) :
    quantities call.tokens (detectBasis call.tokens call.tokens.total) = call.split.quantities := by
  have stated : call.tokens.total = some call.split.total := if_pos counted
  rw [stated]
  exact quantities_detected (reports_call call) (by omega) (.inr (.inl rfl))

/-- Without it, only where the input cannot contain it. -/
theorem detectBasis_traced (fits : call.split.total < 2 ^ 63) :
    detectBasis call.tokens none =
      { cacheExcl := 0 < call.split.cache && call.input.getD 0 < call.split.cache } := by
  simp only [detectBasis, cache_call fits, Option.getD_none]
  rfl

theorem quantities_traced (fits : call.split.total < 2 ^ 63)
    (told : call.split.cache = 0 ∨ call.input.getD 0 < call.split.cache) :
    quantities call.tokens (detectBasis call.tokens none) = call.split.quantities := by
  rw [detectBasis_traced fits]
  by_cases none : call.split.cache = 0
  · have basis : (0 < call.split.cache && call.input.getD 0 < call.split.cache : Bool) = false := by
      simp [none]
    rw [basis]
    apply quantities_reported _ (by omega)
    refine ⟨?_, rfl, rfl, rfl, rfl⟩
    rw [if_neg (by simp), none]
    rfl
  · have onTop := told.resolve_left none
    have basis : (0 < call.split.cache && call.input.getD 0 < call.split.cache : Bool) = true := by
      simp [onTop, Nat.pos_of_ne_zero none]
    rw [basis]
    exact quantities_reported (reports_call call) (by omega)

/-- Only cached tokens cost, and only past the input of the call. -/
def cachePrice (call : ApiCall) : Price :=
  { base :=
      { input := .finite 0
        output := .finite 0
        cacheRead := some (.finite 0)
        cacheWrite := some (.finite 0) }
    reasoning := some (.finite 0)
    tiers :=
      [{ above := call.input.getD 0
         cacheRead := some (.finite 1)
         cacheWrite := some (.finite 1) }] }

variable {float : Floats} (rounds : float.Rounds)

include rounds

/-- The event's copy costs its cached tokens. -/
theorem costOf_event (fits : call.split.total < 2 ^ 63) (some : 0 < call.split.cache) :
    ∃ usd, 0 < usd ∧ costOf float (cachePrice call) call.split.quantities = .finite usd := by
  have count (n : Nat) (small : n < 2 ^ 64) := near_ofInt rounds small
  unfold TrueSplit.total at fits
  unfold TrueSplit.cache at fits some
  have rates : (cachePrice call).ratesFor call.split.quantities.totalIn =
      { input := .finite 0, output := .finite 0, cacheRead := .some (.finite 1),
        cacheWrite := .some (.finite 1) } := by
    have past : call.input.getD 0 < call.split.quantities.totalIn := by
      show call.split.uncached <
        call.split.uncached + (call.split.cacheRead + call.split.cacheWrite)
      omega
    simp [Price.ratesFor, cachePrice, past, Tier.overlay]
  have uncached := (count call.split.uncached (by omega)).times_zero rounds
  have text := (count call.split.textOut (by omega)).times_zero rounds
  have reasoning := (count call.split.reasoning (by omega)).times_zero rounds
  have read := (count call.split.cacheRead (by omega)).times_one rounds (by omega) (by omega)
  have written := (count call.split.cacheWrite (by omega)).times_one rounds (by omega) (by omega)
  have first := (near_zero 2).add rounds read (by omega) (by omega)
  have second := first.add rounds written.mono (by omega) (by omega)
  have third := second.add rounds (near_zero 4) (by omega) (by omega)
  have sum := third.add rounds (near_zero 5) (by omega) (by omega)
  obtain ⟨usd, positive, cost⟩ := roundUsd_pos rounds sum (by omega) (by omega) (by omega)
  refine ⟨usd, positive, ?_⟩
  rw [costOf, rates]
  simp only [TrueSplit.quantities, Option.getD_some, uncached, text, reasoning, cachePrice]
  exact cost

/-- The traced copy costs nothing. -/
theorem costOf_traced (fits : call.split.total < 2 ^ 63) (some : 0 < call.split.cache)
    (inside : call.split.cache ≤ call.input.getD 0) :
    costOf float (cachePrice call) (quantities call.tokens (detectBasis call.tokens none)) =
      .finite 0 := by
  have basis : (0 < call.split.cache && call.input.getD 0 < call.split.cache : Bool) = false := by
    simp [inside]
  rw [detectBasis_traced fits, basis]
  have count (n : Nat) (small : n < 2 ^ 64) := (near_ofInt rounds small).times_zero rounds
  unfold TrueSplit.total TrueSplit.cache ApiCall.split at fits
  simp only at fits
  have rates : (cachePrice call).ratesFor (quantities call.tokens { cacheExcl := false }).totalIn =
      (cachePrice call).base := by
    simp [quantities, Price.ratesFor, cachePrice, ApiCall.tokens]
  have nothing : float.add (.finite 0) (.finite 0) = .finite 0 :=
    ((near_zero 0).add rounds (near_zero 0) (by omega) (by omega)).eq_zero
  have uncached := count (call.input.getD 0 -
    wrappingAdd (call.cacheRead.getD 0) (call.cacheCreation.getD 0)) (by omega)
  have read := count (call.cacheRead.getD 0) (by omega)
  have written := count (call.cacheCreation.getD 0) (by omega)
  have text := count (call.output.getD 0) (by omega)
  have reasoning := count 0 (by omega)
  rw [costOf, rates]
  simp only [quantities, cachePrice, ApiCall.tokens, Option.getD_some, Option.getD_none,
    Bool.false_eq_true, if_false, Nat.sub_zero, uncached, read, written, text, reasoning, nothing]
  exact roundUsd_zero rounds

end Price

/-! ## Which copy is kept -/

theorem costUsd_apply {s : NormalizedSpan} (unpriced : s.costUsd = none) (float : Floats)
    (table : PriceTable) :
    (Pricing.apply float table s).costUsd = (derive float table s).map Derived.cost := by
  unfold Pricing.apply
  cases derive float table s with
  | none => exact unpriced
  | some d => rfl

theorem keyOf_apply (s : NormalizedSpan) (float : Floats) (table : PriceTable) :
    CallLedger.keyOf (Pricing.apply float table s) = CallLedger.keyOf s := by
  obtain ⟨cost, raw, kept, priced⟩ := Pricing.apply_spec float table s
  rw [CallLedger.keyOf, priced, CallLedger.keyOf]
  simp only
  rw [kept ClaudeCode.callKey (by decide)]

theorem spanId_apply (s : NormalizedSpan) (float : Floats) (table : PriceTable) :
    (Pricing.apply float table s).spanId = s.spanId ∧
      (Pricing.apply float table s).tokens = s.tokens := by
  obtain ⟨cost, raw, -, priced⟩ := Pricing.apply_spec float table s
  rw [priced]
  exact ⟨rfl, rfl⟩

section Copies

variable {deps : Deps} {call : ApiCall} {ctx : RecordCtx} {rec : LogRecord}
  {scopeSpans : ScopeSpans} {span : Span}

/-- The copies differ in their cost at most. -/
theorem interchangeable_iff (event : ApiEvent deps call ctx rec)
    (traced : ApiSpan deps call scopeSpans.scope span) (nonempty : call.requestId ≠ "")
    (fits : call.split.total < 2 ^ 63) (noDoubles : NoDoubles call span.attributes)
    (table : PriceTable) (service schema : Option String) :
    Interchangeable
        (Pricing.apply deps.float table (ClaudeCode.llmSpan deps ctx rec none))
        (normalizeScoped deps table service schema scopeSpans span) ↔
      ((call.input.isSome || call.output.isSome) = true →
        ∀ key price, table.lookup call.model = some (key, price) →
          costOf deps.float price call.split.quantities =
            costOf deps.float price (quantities call.tokens (detectBasis call.tokens none))) := by
  have eventRead := event.pricedFrom fits
  obtain ⟨eventId, eventKey⟩ := event.named
  obtain ⟨tracedRead, tracedId, tracedKey⟩ := traced.pricedFrom nonempty fits noDoubles service
    schema
  rw [traced.normalized]
  have eventCost := costUsd_apply eventRead.cost deps.float table
  have tracedCost := costUsd_apply tracedRead.cost deps.float table
  rw [eventRead.derive_eq] at eventCost
  rw [tracedRead.derive_eq] at tracedCost
  -- neither copy is priced when no count was sent
  have uncounted : (call.tokens.prompt.isNone && call.tokens.completion.isNone) =
      !(call.input.isSome || call.output.isSome) := by
    simp [ApiCall.tokens, Option.not_isSome]
  rw [uncounted] at eventCost tracedCost
  -- ids, call keys and tokens agree anyway
  have same : Interchangeable
      (Pricing.apply deps.float table (ClaudeCode.llmSpan deps ctx rec none))
      (Pricing.apply deps.float table
        (ClaudeCode.fixLlmSpan deps (receivedSpan deps service schema scopeSpans span))) ↔
      (Pricing.apply deps.float table (ClaudeCode.llmSpan deps ctx rec none)).costUsd =
        (Pricing.apply deps.float table (ClaudeCode.fixLlmSpan deps
          (receivedSpan deps service schema scopeSpans span))).costUsd := by
    constructor
    · intro both
      exact both.cost
    · intro cost
      refine ⟨?_, ?_, ?_, cost⟩
      · rw [(spanId_apply _ _ _).1, (spanId_apply _ _ _).1, eventId, tracedId]
      · rw [keyOf_apply, keyOf_apply, eventKey, tracedKey]
      · rw [(spanId_apply _ _ _).2, (spanId_apply _ _ _).2, eventRead.tokens, tracedRead.tokens]
  rw [same, eventCost, tracedCost]
  cases counted : call.input.isSome || call.output.isSome with
  | false => simp
  | true =>
    simp only [Bool.not_true, Bool.false_eq_true, if_false, Option.map_map]
    cases known : table.lookup call.model with
    | none => simp
    | some hit =>
      obtain ⟨key, price⟩ := hit
      simp only [Option.map_some, Function.comp_apply, Option.some.injEq, priceTokens_eq,
        quantities_event fits counted, true_implies, Prod.mk.injEq, and_imp]
      constructor
      · rintro agree k p rfl rfl
        exact agree
      · intro agree
        exact agree key price rfl rfl

/-- Some of the cache would fit into the input: the traced copy is priced as if it were there. -/
theorem not_interchangeable (event : ApiEvent deps call ctx rec)
    (traced : ApiSpan deps call scopeSpans.scope span) (nonempty : call.requestId ≠ "")
    (fits : call.split.total < 2 ^ 63) (noDoubles : NoDoubles call span.attributes)
    (rounds : deps.float.Rounds) (service schema : Option String) (cached : 0 < call.split.cache)
    (inside : call.split.cache ≤ call.input.getD 0) :
    ¬ Interchangeable
      (Pricing.apply deps.float (onePrice call.model (cachePrice call))
        (ClaudeCode.llmSpan deps ctx rec none))
      (normalizeScoped deps (onePrice call.model (cachePrice call)) service schema scopeSpans
        span) := by
  rw [interchangeable_iff event traced nonempty fits noDoubles]
  intro both
  have counted : (call.input.isSome || call.output.isSome) = true := by
    cases input : call.input with
    | some n => rfl
    | none =>
      rw [input, Option.getD_none] at inside
      omega
  obtain ⟨usd, positive, event⟩ := costOf_event rounds fits cached
  have traced := costOf_traced rounds fits cached inside
  have cost := both counted _ _ (lookup_onePrice call.model (cachePrice call))
  rw [event, traced] at cost
  cases cost
  exact absurd positive (lt_irrefl _)

/-- A count sent as a double is missing in the traced copy. -/
theorem noDoubles_of_interchangeable (event : ApiEvent deps call ctx rec)
    (traced : ApiSpan deps call scopeSpans.scope span) (nonempty : call.requestId ≠ "")
    (fits : call.split.total < 2 ^ 63) {table : PriceTable} {service schema : Option String}
    (both : Interchangeable (Pricing.apply deps.float table (ClaudeCode.llmSpan deps ctx rec none))
      (normalizeScoped deps table service schema scopeSpans span)) :
    NoDoubles call span.attributes := by
  have tokens := both.tokens
  obtain ⟨unused, -, -, -, kept⟩ := traced.received service schema
  have request : (receivedSpan deps service schema scopeSpans span).rawAttributes["request_id"]? =
      some (.str call.requestId) := by
    rw [kept _ (by decide)]
    exact traced.bare.request.raw
  rw [traced.normalized, (spanId_apply _ _ _).2, (spanId_apply _ _ _).2,
    (event.pricedFrom fits).tokens, fixLlmSpan_eq deps nonempty request, unused] at tokens
  -- the four counts of the fix-up are what it reads of the attributes
  have read : ∀ count ∈ call.counts, count.2 = ClaudeCode.rawU64
      (receivedSpan deps service schema scopeSpans span).rawAttributes count.1 := by
    have parts := fixTokens_counts
      (receivedSpan deps service schema scopeSpans span).rawAttributes
    change call.tokens = ClaudeCode.fixTokens _ {} at tokens
    rw [← tokens] at parts
    obtain ⟨input, output, cacheRead, cacheCreation⟩ := parts
    simp only [ApiCall.counts, List.forall_mem_cons]
    exact ⟨input, output, cacheRead, cacheCreation, by simp⟩
  intro count listed d isDouble
  obtain ⟨v, value, bears⟩ := traced.bare.counts count listed
  have sent : v = some (.double d) := bears.read.symm.trans isDouble
  have other : ∀ key ∈ ["input_tokens", "output_tokens", "cache_read_tokens",
      "cache_creation_tokens"], key ∉ "otel.schema_url" :: Agent.writtenKeys := by decide
  -- the fix-up reads no double, so its count would be missing
  have missing := read count listed
  rw [rawU64_double (by
    rw [kept count.1 (other _ (List.mem_map_of_mem (f := Prod.fst) listed)), bears.raw, sent]
    rfl)] at missing
  rw [missing, sent] at value
  cases value

/-- Which copy is kept does not matter, under any prices, where the span sends no count as a
double and nothing is cached, or more than the input is. -/
theorem copies_interchangeable_iff (event : ApiEvent deps call ctx rec)
    (traced : ApiSpan deps call scopeSpans.scope span) (nonempty : call.requestId ≠ "")
    (fits : call.split.total < 2 ^ 63) (rounds : deps.float.Rounds)
    (service schema : Option String) :
    (∀ table : PriceTable, (table.lookup call.model).isSome = true →
      ∃ e, ClaudeCode.mapLog deps ctx rec (eventName deps rec) = .span e ∧
        Interchangeable (Pricing.apply deps.float table e)
          (normalizeScoped deps table service schema scopeSpans span)) ↔
      NoDoubles call span.attributes ∧
        (call.split.cache = 0 ∨ call.input.getD 0 < call.split.cache) := by
  constructor
  · intro agree
    obtain ⟨e, mapped, both⟩ := agree (onePrice call.model (cachePrice call))
      (by rw [lookup_onePrice]; rfl)
    rw [event.mapped] at mapped
    cases mapped
    have noDoubles := noDoubles_of_interchangeable event traced nonempty fits both
    refine ⟨noDoubles, ?_⟩
    by_contra differ
    obtain ⟨cached, inside⟩ := not_or.mp differ
    exact not_interchangeable event traced nonempty fits noDoubles rounds service schema
      (Nat.pos_of_ne_zero cached) (by omega) both
  · rintro ⟨noDoubles, told⟩ table _
    refine ⟨_, event.mapped, ?_⟩
    rw [interchangeable_iff event traced nonempty fits noDoubles]
    intro counted key price _
    rw [quantities_traced fits told]

end Copies

/-! ## 400 tokens of cache and an input of 1000 -/

def cachedCall : ApiCall :=
  { requestId := "req_1", model := "claude-haiku", input := some 1000, output := some 10
    cacheRead := some 400, cacheCreation := some 0 }

def cachedCallAttributes : List KeyValue :=
  [kvStr "model" "claude-haiku", kvStr "request_id" "req_1", kvInt "input_tokens" 1000,
    kvInt "output_tokens" 10, kvInt "cache_read_tokens" 400, kvInt "cache_creation_tokens" 0]

def cachedCallEvent : LogRecord :=
  { eventName := "claude_code.api_request", attributes := cachedCallAttributes }

def cachedCallSpan : Span :=
  { traceId := List.replicate 16 1
    spanId := List.replicate 8 1
    name := ClaudeCode.llmSpanName
    attributes := kvStr "gen_ai.request.model" "claude-haiku" :: cachedCallAttributes }

def tracingSpans : ScopeSpans :=
  { scope := some { name := ClaudeCode.tracingScope }, spans := [cachedCallSpan] }

def claudeContext : RecordCtx := { serviceName := some ClaudeCode.serviceName }

/-- A host whose doubles do not round. -/
def exactly : Deps := { Deps.hashing with float := .exact }

theorem bareCall_cachedCall : BareCall cachedCall cachedCallEvent.attributes ∧
    BareCall cachedCall cachedCallSpan.attributes := by
  have bears {attrs : List KeyValue} {key : String} {v : AnyValue}
      (there : attrs.any (fun kv => kv.key = key) = true) (read : attr attrs key = some v)
      (last : (attrs.reverse.find? (fun kv => kv.key = key)).map (fun kv => valueToJson kv.value) =
        some (anyvalueToJson v)) : Bears attrs key (some v) :=
    ⟨there, read, by rw [getElem?_rawAttributes]; exact last⟩
  constructor
  · refine ⟨bears rfl rfl rfl, ?_⟩
    simp only [ApiCall.counts, List.forall_mem_cons]
    exact ⟨⟨_, .int 1000, bears rfl rfl rfl⟩, ⟨_, .int 10, bears rfl rfl rfl⟩,
      ⟨_, .int 400, bears rfl rfl rfl⟩, ⟨_, .int 0, bears rfl rfl rfl⟩, by simp⟩
  · refine ⟨bears rfl rfl rfl, ?_⟩
    simp only [ApiCall.counts, List.forall_mem_cons]
    exact ⟨⟨_, .int 1000, bears rfl rfl rfl⟩, ⟨_, .int 10, bears rfl rfl rfl⟩,
      ⟨_, .int 400, bears rfl rfl rfl⟩, ⟨_, .int 0, bears rfl rfl rfl⟩, by simp⟩

theorem apiEvent_cachedCall : ApiEvent exactly cachedCall claudeContext cachedCallEvent where
  mine := by decide
  event := ⟨"claude_code.api_request", rfl, by decide⟩
  bare := bareCall_cachedCall.1
  model := rfl
  unreported := by
    unfold Absent
    decide
  plain := by
    unfold Plain Absent
    decide
  unmarked := by
    unfold Absent
    decide

theorem apiSpan_cachedCall : ApiSpan exactly cachedCall tracingSpans.scope cachedCallSpan where
  traced := by decide
  name := rfl
  bare := bareCall_cachedCall.2
  model := rfl
  plain := by
    unfold Absent
    decide

theorem noDoubles_cachedCall : NoDoubles cachedCall cachedCallSpan.attributes := by
  intro count listed d
  simp only [ApiCall.counts, List.mem_cons, List.not_mem_nil, or_false] at listed
  obtain rfl | rfl | rfl | rfl := listed
  all_goals
    intro isDouble
    cases isDouble

theorem copies_interchangeable_iff_cachedCall :
    (∀ table : PriceTable, (table.lookup cachedCall.model).isSome = true →
      ∃ e, ClaudeCode.mapLog exactly claudeContext cachedCallEvent
          (eventName exactly cachedCallEvent) = .span e ∧
        Interchangeable (Pricing.apply exactly.float table e)
          (normalizeScoped exactly table none none tracingSpans cachedCallSpan)) ↔
      NoDoubles cachedCall cachedCallSpan.attributes ∧
        (cachedCall.split.cache = 0 ∨ cachedCall.input.getD 0 < cachedCall.split.cache) :=
  copies_interchangeable_iff apiEvent_cachedCall apiSpan_cachedCall (by decide) (by decide)
    rounds_exact none none

theorem cachedCall_copies_differ :
    ¬ ∀ table : PriceTable, (table.lookup cachedCall.model).isSome = true →
      ∃ e, ClaudeCode.mapLog exactly claudeContext cachedCallEvent
          (eventName exactly cachedCallEvent) = .span e ∧
        Interchangeable (Pricing.apply exactly.float table e)
          (normalizeScoped exactly table none none tracingSpans cachedCallSpan) := by
  intro agree
  obtain ⟨e, mapped, both⟩ := agree (onePrice cachedCall.model (cachePrice cachedCall))
    (by rw [lookup_onePrice]; rfl)
  rw [apiEvent_cachedCall.mapped] at mapped
  cases mapped
  exact not_interchangeable apiEvent_cachedCall apiSpan_cachedCall (by decide) (by decide)
    noDoubles_cachedCall rounds_exact none none (by decide) (by decide) both

end Evald.Logs
