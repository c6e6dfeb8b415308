import Evald.Attributes
import Evald.LlmSpan
import Evald.Traces

/-! # Usage that is set aside

A span that repeats the usage of other spans arrives with that usage set aside.  It is then
counted nowhere when nothing of it still looks like a model call: its kind says what it is, or
it names no model and carries no attribute of a call (`uncounted_iff`).
-/

namespace Evald.Traces

open Evald.Lib Evald.Otlp Evald.Normalize Evald.Logs

/-! ## Counting -/

/-- No usage, no cost and no model call: no report counts the span. -/
structure NotCounted (n : NormalizedSpan) : Prop where
  tokens : n.tokens.isEmpty = true
  cost : n.costUsd = none
  call : isLlmSpan n = false

/-- Read alike by every report of usage, apart from the cost. -/
structure Alike (n n' : NormalizedSpan) : Prop where
  tokens : n'.tokens = n.tokens
  kind : n'.oiKind = n.oiKind
  model : n'.model = n.model
  calls : ∀ key, isCallAttribute key = true → n'.rawAttributes[key]? = n.rawAttributes[key]?

theorem any_keys_iff {raw : Attributes} {p : String → Bool} :
    raw.keys.any p = true ↔ ∃ key, p key = true ∧ raw[key]?.isSome = true := by
  simp only [List.any_eq_true, Std.ExtTreeMap.mem_keys, Std.ExtTreeMap.mem_iff_isSome_getElem?]
  exact exists_congr (fun key => and_comm)

theorem Alike.isLlmSpan {n n' : NormalizedSpan} (alike : Alike n n') :
    isLlmSpan n' = isLlmSpan n := by
  have keys : n'.rawAttributes.keys.any isCallAttribute =
      n.rawAttributes.keys.any isCallAttribute := by
    rw [Bool.eq_iff_iff, any_keys_iff, any_keys_iff]
    refine exists_congr (fun key => and_congr_right (fun call => ?_))
    rw [alike.calls key call]
  unfold Evald.isLlmSpan
  rw [alike.kind, alike.model, keys]

theorem Alike.notCounted_iff {n n' : NormalizedSpan} (alike : Alike n n')
    (cost : n'.costUsd = n.costUsd) : NotCounted n' ↔ NotCounted n := by
  constructor
  · intro h
    exact ⟨alike.tokens ▸ h.tokens, cost ▸ h.cost, alike.isLlmSpan ▸ h.call⟩
  · intro h
    exact ⟨alike.tokens ▸ h.tokens, cost ▸ h.cost, alike.isLlmSpan ▸ h.call⟩

/-! ## Stages after normalization -/

theorem addSchemaUrl_spec (schema : Option String) (n : NormalizedSpan) :
    ∃ raw : Attributes, (∀ key, key ≠ "otel.schema_url" → raw[key]? = n.rawAttributes[key]?) ∧
      addSchemaUrl schema n = { n with rawAttributes := raw } := by
  unfold addSchemaUrl
  split
  · next url =>
    split
    · exact ⟨n.rawAttributes, fun _ _ => rfl, rfl⟩
    · exact ⟨_, fun key other => by rw [getElem?_insert_if, if_neg other], rfl⟩
  · exact ⟨n.rawAttributes, fun _ _ => rfl, rfl⟩

/-- A span is priced where it counts already. -/
theorem notCounted_apply (float : Floats) (prices : Pricing.PriceTable) (n : NormalizedSpan) :
    NotCounted (Pricing.apply float prices n) ↔ NotCounted n := by
  obtain ⟨cost, raw, kept, priced⟩ := Pricing.apply_spec float prices n
  have alike : Alike n (Pricing.apply float prices n) := by
    rw [priced]
    refine ⟨rfl, rfl, rfl, fun key call => kept key ?_⟩
    rintro rfl
    cases call
  -- without counts of its own, or with a cost, a span is left as it is
  have unpriced (free : n.tokens.isEmpty = true ∨ n.costUsd.isSome = true) :
      Pricing.apply float prices n = n := by
    have underived : Pricing.derive float prices n = none := by
      unfold Pricing.derive
      split
      · rfl
      · next noCost =>
        have counts := free.resolve_right noCost
        unfold Tokens.isEmpty at counts
        simp only [Bool.and_eq_true] at counts
        split
        · rfl
        · simp [counts.1.1.1.1.1, counts.1.1.1.1.2]
    unfold Pricing.apply
    rw [underived]
  by_cases free : n.tokens.isEmpty = true ∨ n.costUsd.isSome = true
  · rw [unpriced free]
  · constructor
    · intro h
      exact absurd (.inl (alike.tokens ▸ h.tokens)) free
    · intro h
      exact absurd (.inl h.tokens) free

/-! ## What a span says of itself -/

section Spans

variable (deps : Deps)

/-- The kind of a span, explicit or inferred. -/
def kindOf (a : List KeyValue) : Option String :=
  (attrStr deps a "openinference.span.kind").or (inferOiKind deps a)

def ofKind (a : List KeyValue) (kind : String) : Bool :=
  (kindOf deps a).any (eqIgnoreAsciiCase · kind)

/-- An agent, a chain or a tool. -/
def isStep (a : List KeyValue) : Bool := notModelCalls.any (ofKind deps a)

def modelOf (a : List KeyValue) : Option String :=
  firstStr deps a ["gen_ai.response.model", "gen_ai.request.model", "llm.model_name"]

/-- A model or an attribute of a model call. -/
def namesCall (a : List KeyValue) : Bool := (modelOf deps a).isSome || hasGenaiCall a

def hasUsage (a : List KeyValue) : Bool :=
  !(withTotal (reportedTokens a)).isEmpty || (firstF64 deps a costAttributes).isSome

/-- An AGENT or CHAIN span of the process itself, with usage. -/
def InProcessAgent (span : Span) : Prop :=
  (ofKind deps span.attributes "AGENT" = true ∨ ofKind deps span.attributes "CHAIN" = true) ∧
    span.kind ≠ Agent.spanKindClient ∧ hasUsage deps span.attributes = true

/-- The spans whose usage other spans report. -/
def RepeatsUsage (service : Option String) (span : Span) : Prop :=
  InProcessAgent deps span ∨
    (Codex.isTraceScope service = true ∧ span.name = "handle_responses" ∧
      hasUsage deps span.attributes = true) ∨
    (GeminiCli.isTraceScope service = true ∧ span.name = "llm_call")

/-- Where usage that is set aside stays uncounted.  In the scope of Claude Code a span gets
that dialect's fix-up alone. -/
def Uncounted (scopeName : Option String) (span : Span) : Prop :=
  let a := span.attributes
  if scopeName = some ClaudeCode.tracingScope then
    (InProcessAgent deps span ∧
      (span.name = ClaudeCode.llmSpanName →
        ∀ key ∈ ["input_tokens", "output_tokens", "cache_read_tokens", "cache_creation_tokens"],
          ClaudeCode.rawU64 (rawAttributes a) key = none) ∧
      (span.name = "claude_code.tool.execution" → namesCall deps a = false)) ∨
    (hasUsage deps a = false ∧ ofKind deps a "LLM" = false ∧
      (isStep deps a = true ∨ namesCall deps a = false))
  else
    ofKind deps a "LLM" = true ∨ isStep deps a = true ∨ namesCall deps a = false

/-! ## What arrives -/

/-- A span behind its normalization and the schema attribute. -/
structure Received (span : Span) (m : NormalizedSpan) : Prop where
  name : m.name = span.name
  aside : InProcessAgent deps span → m.tokens = {} ∧ m.costUsd = none
  reported : ¬ InProcessAgent deps span →
    m.tokens = withTotal (reportedTokens span.attributes) ∧
      m.costUsd = firstF64 deps span.attributes costAttributes
  kind : m.oiKind = kindOf deps span.attributes
  model : m.model = modelOf deps span.attributes
  raw : ∀ key ∉ "otel.schema_url" :: Agent.writtenKeys,
    m.rawAttributes[key]? = (rawAttributes span.attributes)[key]?

theorem eqIgnoreAsciiCase_apart {k a b : String} (same : eqIgnoreAsciiCase k a = true)
    (apart : eqIgnoreAsciiCase a b = false) : eqIgnoreAsciiCase k b = false := by
  unfold eqIgnoreAsciiCase at *
  rw [decide_eq_true_eq] at same
  rw [same]
  exact apart

/-- An agent or a chain is a step, and no LLM span. -/
theorem step_of_agent {span : Span} (agent : InProcessAgent deps span) :
    isStep deps span.attributes = true ∧ ofKind deps span.attributes "LLM" = false := by
  have apart (kind : String) (isKind : ofKind deps span.attributes kind = true)
      (other : eqIgnoreAsciiCase kind "LLM" = false) :
      ofKind deps span.attributes "LLM" = false := by
    unfold ofKind at *
    cases known : kindOf deps span.attributes with
    | none => rfl
    | some k =>
      rw [known, Option.any_some] at isKind
      exact eqIgnoreAsciiCase_apart isKind other
  obtain ⟨agent | chain, -⟩ := agent
  · exact ⟨by simp [isStep, notModelCalls, agent], apart "AGENT" agent (by decide)⟩
  · exact ⟨by simp [isStep, notModelCalls, chain], apart "CHAIN" chain (by decide)⟩

theorem setsAside_iff (span : Span) (service name version : Option String) :
    Agent.setsAside (readSpan deps span service name version) = true ↔
      InProcessAgent deps span := by
  have kind : (readSpan deps span service name version).oiKind = kindOf deps span.attributes := rfl
  have usage : (!(readSpan deps span service name version).tokens.isEmpty ||
      (readSpan deps span service name version).costUsd.isSome) =
        hasUsage deps span.attributes := rfl
  have client : (readSpan deps span service name version).otelKind = span.kind := rfl
  unfold Agent.setsAside InProcessAgent ofKind
  rw [kind]
  cases kindOf deps span.attributes with
  | none => simp
  | some k =>
    have notTool (agent : (eqIgnoreAsciiCase k "AGENT" || eqIgnoreAsciiCase k "CHAIN") = true) :
        eqIgnoreAsciiCase k "TOOL" = false := by
      obtain agent | chain := Bool.or_eq_true_iff.mp agent
      · exact eqIgnoreAsciiCase_apart agent (by decide)
      · exact eqIgnoreAsciiCase_apart chain (by decide)
    simp only [Option.any_some, ← Bool.or_eq_true, usage, client, Bool.and_eq_true,
      Bool.not_eq_true', decide_eq_true_eq]
    constructor
    · rintro ⟨⟨-, agent⟩, rest⟩
      exact ⟨agent, rest⟩
    · rintro ⟨agent, rest⟩
      exact ⟨⟨notTool agent, agent⟩, rest⟩

theorem oiKind_setAside (why : String) (n : NormalizedSpan) :
    (Agent.setAside why n).oiKind =
      n.oiKind.bind (fun k => if eqIgnoreAsciiCase k "LLM" then some "CHAIN" else some k) := by
  unfold Agent.setAside
  cases n.oiKind <;> rfl

theorem received (span : Span) (service name version schema : Option String) :
    Received deps span (addSchemaUrl schema (normalizeSpan deps span service name version)) := by
  obtain ⟨raw, kept, normalized⟩ :=
    Agent.normalize_spec (readSpan deps span service name version)
  obtain ⟨raw', kept', tagged⟩ :=
    addSchemaUrl_spec schema (normalizeSpan deps span service name version)
  have isAside := setsAside_iff deps span service name version
  have whole : normalizeSpan deps span service name version =
      { Agent.usageSetAside (readSpan deps span service name version) with rawAttributes := raw } :=
    normalized
  rw [tagged, whole]
  rw [whole] at kept'
  have keys : ∀ key ∉ "otel.schema_url" :: Agent.writtenKeys,
      raw'[key]? = (rawAttributes span.attributes)[key]? := by
    intro key other
    rw [List.mem_cons, not_or] at other
    rw [kept' key other.1]
    exact kept key other.2
  unfold Agent.usageSetAside
  by_cases agent : InProcessAgent deps span
  · rw [if_pos (isAside.mpr agent)]
    refine ⟨rfl, fun _ => ⟨rfl, rfl⟩, fun other => absurd agent other, ?_, rfl, keys⟩
    -- an agent or a chain is no LLM span, so its kind stays
    obtain ⟨-, other⟩ := step_of_agent deps agent
    show (Agent.setAside Agent.usageAggregate (readSpan deps span service name version)).oiKind = _
    rw [oiKind_setAside]
    show (kindOf deps span.attributes).bind _ = _
    unfold ofKind at other
    cases isKind : kindOf deps span.attributes with
    | none => rfl
    | some k =>
      rw [isKind, Option.any_some] at other
      simp only [other, Option.bind_some, Bool.false_eq_true, if_false]
  · rw [if_neg (fun aside => agent (isAside.mp aside))]
    exact ⟨rfl, fun other => absurd other agent, fun _ => ⟨rfl, rfl⟩, rfl, rfl, keys⟩

/-! ## Whether what arrives is counted -/

theorem any_rawAttributes (a : List KeyValue) :
    (rawAttributes a).keys.any isCallAttribute = hasGenaiCall a := by
  rw [Bool.eq_iff_iff, any_keys_iff]
  unfold hasGenaiCall
  rw [List.any_eq_true]
  constructor
  · rintro ⟨key, call, there⟩
    rw [getElem?_rawAttributes, Option.isSome_map, List.find?_isSome] at there
    obtain ⟨kv, inside, same⟩ := there
    rw [decide_eq_true_eq] at same
    exact ⟨kv, List.mem_reverse.mp inside, by rw [same]; exact call⟩
  · rintro ⟨kv, inside, call⟩
    refine ⟨kv.key, call, ?_⟩
    rw [getElem?_rawAttributes, Option.isSome_map, List.find?_isSome]
    exact ⟨kv, List.mem_reverse.mpr inside, by simp⟩

variable {deps} {span : Span} {m : NormalizedSpan}

/-- The attributes of a call are those of the span. -/
theorem Received.calls (got : Received deps span m) :
    m.rawAttributes.keys.any isCallAttribute = hasGenaiCall span.attributes := by
  rw [← any_rawAttributes, Bool.eq_iff_iff, any_keys_iff, any_keys_iff]
  refine exists_congr (fun key => and_congr_right (fun call => ?_))
  have visible : ∀ key ∈ "otel.schema_url" :: Agent.writtenKeys, isCallAttribute key = false := by
    decide
  rw [got.raw key (fun hidden => by simp [visible key hidden] at call)]

theorem isStep_eq (a : List KeyValue) :
    isStep deps a = (kindOf deps a).any (fun k => notModelCalls.any (eqIgnoreAsciiCase k)) := by
  unfold isStep ofKind
  cases kindOf deps a with
  | none => simp
  | some k => rfl

/-- The verdict on a span of a kind, with the model and the attributes of another. -/
theorem isLlmSpan_eq {n : NormalizedSpan} {model : Option String} {calls : Bool}
    (isModel : n.model = model) (isCalls : n.rawAttributes.keys.any isCallAttribute = calls) :
    isLlmSpan n = (n.oiKind.any (eqIgnoreAsciiCase · "LLM") ||
      (!n.oiKind.any (fun k => notModelCalls.any (eqIgnoreAsciiCase k)) &&
        (model.isSome || calls))) := by
  unfold isLlmSpan
  rw [isModel, isCalls]
  cases n.oiKind with
  | none => simp
  | some k =>
    cases llm : eqIgnoreAsciiCase k "LLM" <;>
      cases step : notModelCalls.any (eqIgnoreAsciiCase k) <;> simp [llm, step]

theorem Received.isLlmSpan (got : Received deps span m) : isLlmSpan m =
    (ofKind deps span.attributes "LLM" ||
      (!isStep deps span.attributes && namesCall deps span.attributes)) := by
  rw [isLlmSpan_eq got.model got.calls, got.kind, isStep_eq]
  rfl

/-- An LLM span that is set aside becomes a chain, and no other changes its kind. -/
theorem Received.isLlmSpan_setAside (got : Received deps span m) (why : String) :
    Evald.isLlmSpan (Agent.setAside why m) =
      (!ofKind deps span.attributes "LLM" && !isStep deps span.attributes &&
        namesCall deps span.attributes) := by
  have calls : (Agent.setAside why m).rawAttributes.keys.any isCallAttribute =
      hasGenaiCall span.attributes := by
    rw [← got.calls, Bool.eq_iff_iff, any_keys_iff, any_keys_iff]
    refine exists_congr (fun key => and_congr_right (fun call => ?_))
    show (m.rawAttributes.insert Agent.usageKey _)[key]?.isSome = true ↔ _
    rw [getElem?_insert_if, if_neg]
    rintro rfl
    cases call
  have kind : (Agent.setAside why m).oiKind = (kindOf deps span.attributes).bind
      (fun k => if eqIgnoreAsciiCase k "LLM" then some "CHAIN" else some k) := by
    rw [← got.kind]
    exact oiKind_setAside why m
  rw [isLlmSpan_eq (n := Agent.setAside why m) got.model calls, kind, isStep_eq, ofKind]
  cases kindOf deps span.attributes with
  | none => rfl
  | some k =>
    cases llm : eqIgnoreAsciiCase k "LLM" with
    | true =>
      have chain : eqIgnoreAsciiCase "CHAIN" "LLM" = false := by decide
      have step : notModelCalls.any (eqIgnoreAsciiCase "CHAIN") = true := by decide
      simp [llm, chain, step]
    | false => simp [llm, namesCall]

/-! ## Each fix-up -/

/-- Without usage, a span is uncounted when it is no model call. -/
theorem notCounted_of_aside {n : NormalizedSpan} (aside : n.tokens = {} ∧ n.costUsd = none) :
    NotCounted n ↔ isLlmSpan n = false := by
  constructor
  · exact NotCounted.call
  · intro call
    exact ⟨by rw [aside.1]; rfl, aside.2, call⟩

/-- Usage that was not set aside is counted. -/
theorem Received.notCounted_iff (got : Received deps span m) : NotCounted m ↔
    InProcessAgent deps span ∨ (hasUsage deps span.attributes = false ∧
      ofKind deps span.attributes "LLM" = false ∧
        (isStep deps span.attributes = true ∨ namesCall deps span.attributes = false)) := by
  have call : Evald.isLlmSpan m = false ↔ ofKind deps span.attributes "LLM" = false ∧
      (isStep deps span.attributes = true ∨ namesCall deps span.attributes = false) := by
    rw [got.isLlmSpan]
    cases ofKind deps span.attributes "LLM" <;> cases isStep deps span.attributes <;> simp
  by_cases agent : InProcessAgent deps span
  · obtain ⟨step, other⟩ := step_of_agent deps agent
    rw [notCounted_of_aside (got.aside agent), call]
    exact ⟨fun _ => .inl agent, fun _ => ⟨other, .inl step⟩⟩
  · obtain ⟨tokens, cost⟩ := got.reported agent
    have usage : hasUsage deps span.attributes = false ↔
        m.tokens.isEmpty = true ∧ m.costUsd = none := by
      rw [hasUsage, ← tokens, ← cost]
      simp
    constructor
    · intro h
      exact .inr ⟨usage.mpr ⟨h.tokens, h.cost⟩, call.mp h.call⟩
    · intro h
      obtain ⟨noUsage, noCall⟩ := h.resolve_left agent
      obtain ⟨empty, free⟩ := usage.mp noUsage
      exact ⟨empty, free, call.mpr noCall⟩

/-- A copy that is set aside. -/
theorem Received.notCounted_setAside (got : Received deps span m) (why : String) :
    NotCounted (Agent.setAside why m) ↔ ofKind deps span.attributes "LLM" = true ∨
      isStep deps span.attributes = true ∨ namesCall deps span.attributes = false := by
  have aside : (Agent.setAside why m).tokens = {} ∧ (Agent.setAside why m).costUsd = none :=
    ⟨rfl, rfl⟩
  rw [notCounted_of_aside aside, got.isLlmSpan_setAside]
  cases ofKind deps span.attributes "LLM" <;> cases isStep deps span.attributes <;> simp

theorem notCounted_session (n : NormalizedSpan) :
    NotCounted { n with sessionId := none } ↔ NotCounted n :=
  Alike.notCounted_iff ⟨rfl, rfl, rfl, fun _ _ => rfl⟩ rfl

/-- An agent whose usage is set aside is uncounted already. -/
theorem Received.notCounted_agent (got : Received deps span m) (agent : InProcessAgent deps span) :
    NotCounted m := got.notCounted_iff.mpr (.inl agent)

theorem Received.notCounted_codex (got : Received deps span m)
    (repeats : InProcessAgent deps span ∨
      (span.name = "handle_responses" ∧ hasUsage deps span.attributes = true)) :
    NotCounted (Codex.fixTraceSpan m) ↔ ofKind deps span.attributes "LLM" = true ∨
      isStep deps span.attributes = true ∨ namesCall deps span.attributes = false := by
  unfold Codex.fixTraceSpan
  rw [notCounted_session, got.name]
  split
  · exact got.notCounted_setAside _
  · next kept =>
    by_cases agent : InProcessAgent deps span
    · exact ⟨fun _ => .inr (.inl (step_of_agent deps agent).1),
        fun _ => got.notCounted_agent agent⟩
    · obtain ⟨tokens, cost⟩ := got.reported agent
      obtain ⟨isName, usage⟩ := repeats.resolve_left agent
      rw [hasUsage, ← tokens, ← cost] at usage
      exact absurd (by simp [isName, usage]) kept

theorem Received.notCounted_gemini (got : Received deps span m)
    (repeats : InProcessAgent deps span ∨ span.name = "llm_call") :
    NotCounted (GeminiCli.fixTraceSpan m) ↔ ofKind deps span.attributes "LLM" = true ∨
      isStep deps span.attributes = true ∨ namesCall deps span.attributes = false := by
  unfold GeminiCli.fixTraceSpan
  rw [notCounted_session, got.name]
  split
  · exact got.notCounted_setAside _
  · next other =>
    have agent := repeats.resolve_right other
    exact ⟨fun _ => .inr (.inl (step_of_agent deps agent).1),
      fun _ => got.notCounted_agent agent⟩

/-- The bare counts are those of a span whose usage was set aside. -/
theorem fixTokens_isEmpty_iff (raw : Attributes) :
    (ClaudeCode.fixTokens raw {}).isEmpty = true ↔
      ∀ key ∈ ["input_tokens", "output_tokens", "cache_read_tokens", "cache_creation_tokens"],
        ClaudeCode.rawU64 raw key = none := by
  rw [List.forall_mem_cons, List.forall_mem_cons, List.forall_mem_cons, List.forall_mem_cons]
  unfold ClaudeCode.fixTokens Tokens.isEmpty
  cases ClaudeCode.rawU64 raw "input_tokens" <;> cases ClaudeCode.rawU64 raw "output_tokens" <;>
    cases ClaudeCode.rawU64 raw "cache_read_tokens" <;>
      cases ClaudeCode.rawU64 raw "cache_creation_tokens" <;> simp

variable (deps) in
theorem fixLlmSpan_fields (n : NormalizedSpan) :
    (ClaudeCode.fixLlmSpan deps n).tokens = ClaudeCode.fixTokens n.rawAttributes n.tokens ∧
      (ClaudeCode.fixLlmSpan deps n).costUsd = n.costUsd ∧
      (ClaudeCode.fixLlmSpan deps n).oiKind = n.oiKind := by
  unfold ClaudeCode.fixLlmSpan
  simp only
  split <;> exact ⟨rfl, rfl, rfl⟩

theorem rawU64_congr {raw raw' : Attributes} {key : String} (same : raw[key]? = raw'[key]?) :
    ClaudeCode.rawU64 raw key = ClaudeCode.rawU64 raw' key := by
  unfold ClaudeCode.rawU64
  rw [same]

/-- The span of an API call reads its bare counts. -/
theorem Received.notCounted_llm (got : Received deps span m) (agent : InProcessAgent deps span) :
    NotCounted (ClaudeCode.fixLlmSpan deps m) ↔
      ∀ key ∈ ["input_tokens", "output_tokens", "cache_read_tokens", "cache_creation_tokens"],
        ClaudeCode.rawU64 (rawAttributes span.attributes) key = none := by
  obtain ⟨tokens, cost, kind⟩ := fixLlmSpan_fields deps m
  obtain ⟨step, other⟩ := step_of_agent deps agent
  have call : Evald.isLlmSpan (ClaudeCode.fixLlmSpan deps m) = false := by
    rw [isLlmSpan_eq (n := ClaudeCode.fixLlmSpan deps m) rfl rfl, kind, got.kind, ← isStep_eq, step]
    simpa [ofKind] using other
  have counts : (ClaudeCode.fixLlmSpan deps m).tokens.isEmpty = true ↔
      ∀ key ∈ ["input_tokens", "output_tokens", "cache_read_tokens", "cache_creation_tokens"],
        ClaudeCode.rawU64 (rawAttributes span.attributes) key = none := by
    rw [tokens, (got.aside agent).1, fixTokens_isEmpty_iff]
    refine forall₂_congr (fun key bare => ?_)
    have visible : ∀ key ∈ ["input_tokens", "output_tokens", "cache_read_tokens",
        "cache_creation_tokens"], key ∉ "otel.schema_url" :: Agent.writtenKeys := by
      decide
    rw [rawU64_congr (got.raw key (visible key bare))]
  rw [← counts]
  exact ⟨NotCounted.tokens, fun empty => ⟨empty, cost.trans (got.aside agent).2, call⟩⟩

/-- A phase of a tool call loses its kind. -/
theorem Received.notCounted_untyped (got : Received deps span m)
    (agent : InProcessAgent deps span) :
    NotCounted { m with oiKind := none } ↔ namesCall deps span.attributes = false := by
  have aside := got.aside agent
  rw [notCounted_of_aside (n := { m with oiKind := none }) aside,
    isLlmSpan_eq (n := { m with oiKind := none }) got.model got.calls]
  simp [namesCall]

/-- The anchor of a tool call is no attribute of a model call. -/
theorem notCounted_fixToolSpan (n : NormalizedSpan) :
    NotCounted (ClaudeCode.fixToolSpan n) ↔ NotCounted n := by
  unfold ClaudeCode.fixToolSpan
  split
  · refine Alike.notCounted_iff ⟨rfl, rfl, rfl, fun key call => ?_⟩ rfl
    rw [getElem?_insert_if, if_neg]
    rintro rfl
    cases call
  · exact Iff.rfl

theorem Received.notCounted_claude {service : Option String} (got : Received deps span m)
    (repeats : RepeatsUsage deps service span) :
    NotCounted (ClaudeCode.fixTraceSpan deps m) ↔
      Uncounted deps (some ClaudeCode.tracingScope) span := by
  unfold ClaudeCode.fixTraceSpan Uncounted
  simp only [if_true]
  -- a span with one of the two names repeats usage only as an agent
  have agentOf (others : span.name ≠ "handle_responses" ∧ span.name ≠ "llm_call") :
      InProcessAgent deps span := by
    obtain agent | ⟨-, isName, -⟩ | ⟨-, isName⟩ := repeats
    · exact agent
    · exact absurd isName others.1
    · exact absurd isName others.2
  have used (agent : InProcessAgent deps span) : hasUsage deps span.attributes ≠ false := by
    rw [agent.2.2]
    simp
  split
  · next isName =>
    rw [got.name] at isName
    have agent := agentOf (by rw [isName]; decide)
    have apart : ClaudeCode.llmSpanName ≠ "claude_code.tool.execution" := by decide
    rw [got.notCounted_llm agent]
    simp [isName, agent, used agent, apart]
  · next notLlm =>
    rw [got.name] at notLlm
    split
    · next isName =>
      rw [got.name] at isName
      have agent := agentOf (by rw [isName]; decide)
      rw [got.notCounted_untyped agent]
      rw [isName] at notLlm
      simp [isName, agent, used agent, notLlm]
    · next notTool =>
      rw [got.name] at notTool
      have same : NotCounted (if m.name = ClaudeCode.toolSpanName then ClaudeCode.fixToolSpan m
          else m) ↔ NotCounted m := by
        split
        · exact notCounted_fixToolSpan m
        · exact Iff.rfl
      rw [same, got.notCounted_iff]
      simp [notLlm, notTool]

end Spans

theorem normalizeScoped_eq (deps : Deps) (prices : Pricing.PriceTable)
    (service schema : Option String) (scopeSpans : ScopeSpans) (span : Span) :
    normalizeScoped deps prices service schema scopeSpans span =
      Pricing.apply deps.float prices (fixFor deps service (scopeOf scopeSpans.scope).1
        (addSchemaUrl ((nonEmpty scopeSpans.schemaUrl).or schema)
          (normalizeSpan deps span service (scopeOf scopeSpans.scope).1
            (scopeOf scopeSpans.scope).2))) := rfl

theorem not_codex_of_gemini {service : Option String}
    (gemini : GeminiCli.isTraceScope service = true) : Codex.isTraceScope service = false := by
  unfold GeminiCli.isTraceScope at gemini
  rw [decide_eq_true_eq] at gemini
  rw [gemini]
  decide

/-- Each span of a request that repeats usage is returned, and is counted nowhere exactly
when nothing of it looks like a model call. -/
theorem uncounted_iff (deps : Deps) (prices : Pricing.PriceTable) {req : ExportTraceServiceRequest}
    {resourceSpans : ResourceSpans} (inRequest : resourceSpans ∈ req.resourceSpans)
    {scopeSpans : ScopeSpans} (inResource : scopeSpans ∈ resourceSpans.scopeSpans) {span : Span}
    (inScope : span ∈ scopeSpans.spans)
    (repeats : RepeatsUsage deps (serviceName deps resourceSpans.resource) span) :
    let returned := normalizeScoped deps prices (serviceName deps resourceSpans.resource)
      (nonEmpty resourceSpans.schemaUrl) scopeSpans span
    returned ∈ normalizeRequest deps prices req ∧
      (NotCounted returned ↔ Uncounted deps (scopeOf scopeSpans.scope).1 span) := by
  intro returned
  constructor
  · exact List.mem_flatMap.mpr ⟨resourceSpans, inRequest, List.mem_flatMap.mpr
      ⟨scopeSpans, inResource, List.mem_map.mpr ⟨span, inScope, rfl⟩⟩⟩
  · have got := received deps span (serviceName deps resourceSpans.resource)
      (scopeOf scopeSpans.scope).1 (scopeOf scopeSpans.scope).2
      ((nonEmpty scopeSpans.schemaUrl).or (nonEmpty resourceSpans.schemaUrl))
    show NotCounted (normalizeScoped deps prices _ _ _ _) ↔ _
    rw [normalizeScoped_eq, notCounted_apply]
    -- the three dialects part the spans, and each has its own rule
    unfold fixFor
    split
    · next claude =>
      have decided := got.notCounted_claude repeats
      rw [← claude] at decided
      exact decided
    · next notClaude =>
      unfold Uncounted
      simp only [if_neg notClaude]
      split
      · next codex =>
        refine got.notCounted_codex (repeats.imp_right (fun copy => ?_))
        obtain ⟨-, isName, usage⟩ | ⟨gemini, -⟩ := copy
        · exact ⟨isName, usage⟩
        · rw [not_codex_of_gemini gemini] at codex
          cases codex
      · next notCodex =>
        split
        · refine got.notCounted_gemini (repeats.imp_right (fun copy => ?_))
          obtain ⟨codex, -⟩ | ⟨-, isName⟩ := copy
          · exact absurd codex notCodex
          · exact isName
        · next notGemini =>
          obtain agent | ⟨codex, -⟩ | ⟨gemini, -⟩ := repeats
          · exact ⟨fun _ => .inr (.inl (step_of_agent deps agent).1),
              fun _ => got.notCounted_agent agent⟩
          · exact absurd codex notCodex
          · exact absurd gemini notGemini

def noPrices : Pricing.PriceTable := { version := "", models := ∅ }

/-- A request of one span. -/
def oneSpan (service : String) (span : Span) : ExportTraceServiceRequest :=
  { resourceSpans :=
      [{ resource := some { attributes := [.mk "service.name" (some (.string service))] }
         scopeSpans := [{ spans := [span] }] }] }

/-- A model call that another report counts. -/
def copiedCall (name : String) (attributes : List KeyValue) : Span :=
  { traceId := [1]
    spanId := [2]
    name := name
    attributes :=
      attributes ++ [.mk "llm.model_name" (some (.string "gpt-5")),
        .mk "llm.token_count.prompt" (some (.int 10))] }

theorem uncounted_iff_llmCall :
    let span := copiedCall "llm_call" [.mk "openinference.span.kind" (some (.string "LLM"))]
    ∃ returned ∈ normalizeRequest Deps.hashing noPrices (oneSpan "gemini-cli" span),
      NotCounted returned := by
  intro span
  have repeats : RepeatsUsage Deps.hashing (some "gemini-cli") span :=
    .inr (.inr ⟨by decide, rfl⟩)
  have both := @uncounted_iff Deps.hashing noPrices (oneSpan "gemini-cli" span) _
    List.mem_cons_self _ List.mem_cons_self _ List.mem_cons_self repeats
  refine ⟨_, both.1, both.2.mpr ?_⟩
  have llm : ofKind Deps.hashing span.attributes "LLM" = true := by decide
  exact .inl llm

/-- Without a kind the span still names its model. -/
theorem counted_handleResponses :
    let span := copiedCall "handle_responses" []
    RepeatsUsage Deps.hashing (some "codex_cli_rs") span ∧
      (normalizeRequest Deps.hashing noPrices (oneSpan "codex_cli_rs" span)).map isLlmSpan =
        [true] := by
  intro span
  constructor
  · exact .inr (.inl ⟨by decide, rfl, by decide⟩)
  · decide

end Evald.Traces
