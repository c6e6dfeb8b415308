import Evald.Basis
import Evald.Logs.Signals

/-! # What a model call costs

Each agent reports the counts of a call in its own way, and the mapper passes on the counts
only: the price guesses the way from the total.  The guess is right for Codex and for Claude
Code; for Gemini CLI it fails where as many tokens are read from the cache as are spent on
thoughts (`priced_as_reported_iff`).
-/

namespace Evald.Logs

open Evald.Lib Evald.Otlp Evald.Normalize Evald.Pricing

/-! ## What a list of attributes bears -/

/-- All that the attributes have under a key. -/
structure Bears (attrs : List KeyValue) (key : String) (v : Option AnyValue) : Prop where
  there : attrs.any (fun kv => kv.key = key) = v.isSome
  read : attr attrs key = v
  raw : (rawAttributes attrs)[key]? = v.map anyvalueToJson

theorem Absent.bears {attrs : List KeyValue} {key : String} (absent : Absent attrs key) :
    Bears attrs key none where
  there := by
    rw [Option.isSome_none, List.any_eq_false]
    intro kv member
    simpa using absent kv member
  read := by
    have missing : attrs.find? (fun kv => kv.key = key) = none := by
      rw [List.find?_eq_none]
      intro kv member
      simpa using absent kv member
    rw [attr, missing, Option.bind_none]
  raw := absent.raw

theorem getElem?_rawAttributes_append (attrs : List KeyValue) (kv : KeyValue) (key : String) :
    (rawAttributes (attrs ++ [kv]))[key]? =
      if key = kv.key then some (valueToJson kv.value) else (rawAttributes attrs)[key]? := by
  rw [rawAttributes, List.foldl_append, List.foldl_cons, List.foldl_nil, getElem?_insert_if]
  rfl

section Adding

variable {attrs : List KeyValue} {key : String} {v : Option AnyValue}

theorem Bears.add (bears : Bears attrs key v) {kv : KeyValue} (other : kv.key ≠ key) :
    Bears (add attrs kv) key v := by
  unfold Logs.add
  split
  · exact bears
  · constructor
    · simpa [other] using bears.there
    · have read := bears.read
      rw [attr] at read ⊢
      rw [List.find?_append, List.find?_cons_of_neg (by simpa using other), List.find?_nil, Option.or_none]
      exact read
    · rw [getElem?_rawAttributes_append, if_neg (Ne.symm other)]
      exact bears.raw

theorem Bears.addSome {α : Type} (bears : Bears attrs key v) {f : α → KeyValue} {x : Option α}
    (other : ∀ x, (f x).key ≠ key) : Bears (addSome attrs (x.map f)) key v := by
  cases x with
  | none => exact bears
  | some x => exact bears.add (other x)

/-- An attribute that was not there. -/
theorem Bears.add_new (bears : Bears attrs key none) (x : AnyValue) :
    Bears (Logs.add attrs (.mk key (some x))) key (some x) := by
  have missing := bears.there
  rw [Option.isSome_none] at missing
  unfold Logs.add
  rw [KeyValue.key, missing, if_neg Bool.false_ne_true]
  constructor
  · simp [KeyValue.key]
  · have none : attrs.find? (fun kv => kv.key = key) = none := by
      rw [List.find?_eq_none]
      intro kv member
      simpa using List.any_eq_false.mp missing kv member
    rw [attr, List.find?_append, none, Option.none_or, List.find?_cons_of_pos (by simp [KeyValue.key])]
    rfl
  · rw [getElem?_rawAttributes_append, KeyValue.key, if_pos rfl]
    rfl

theorem Bears.addSome_new {α : Type} (bears : Bears attrs key none) (f : α → AnyValue)
    (x : Option α) : Bears (Logs.addSome attrs (x.map (fun y => .mk key (some (f y))))) key (x.map f) := by
  cases x with
  | none => exact bears
  | some x => exact bears.add_new (f x)

end Adding

/-! ## Counts -/

/-- A count as the mappers write it. -/
def countValue (n : Option Nat) : Option AnyValue := n.map (fun n => .int (asI64 n))

/-- The first count under a key. -/
def firstCount (counts : List (String × Option Nat)) (key : String) : Option Nat :=
  counts.findSome? (fun count => if count.1 = key then count.2 else none)

/-- Counts are added in their order, each unless its key is there. -/
theorem Bears.counts {attrs : List KeyValue} {key : String} (counts : List (String × Option Nat))
    (absent : Bears attrs key none) :
    Bears (counts.foldl ClaudeCode.addCount attrs) key (countValue (firstCount counts key)) := by
  -- a key that is there is not written again
  have kept {attrs : List KeyValue} {v : AnyValue} (bears : Bears attrs key (some v))
      (counts : List (String × Option Nat)) :
      Bears (counts.foldl ClaudeCode.addCount attrs) key (some v) := by
    induction counts generalizing attrs with
    | nil => exact bears
    | cons count counts inductionHypothesis =>
      apply inductionHypothesis
      by_cases same : count.1 = key
      · cases some : count.2 with
        | none =>
          rw [ClaudeCode.addCount, some]
          exact bears
        | some n =>
          rw [ClaudeCode.addCount, some, Option.map_some, Logs.addSome, Logs.add, kvInt, KeyValue.key, same,
            bears.there]
          exact bears
      · exact bears.addSome (fun _ => same)
  -- on the counts: the first one under the key is written
  induction counts generalizing attrs with
  | nil => exact absent
  | cons count counts inductionHypothesis =>
    rw [List.foldl_cons, firstCount, List.findSome?_cons]
    by_cases same : count.1 = key
    · rw [if_pos same]
      cases some : count.2 with
      | none =>
        have nothing : ClaudeCode.addCount attrs count = attrs := by
          rw [ClaudeCode.addCount, some]
          rfl
        rw [nothing]
        exact inductionHypothesis absent
      | some n =>
        apply kept
        have added : ClaudeCode.addCount attrs count =
            Logs.add attrs (.mk key (.some (.int (asI64 n)))) := by
          rw [ClaudeCode.addCount, some, same]
          rfl
        rw [added]
        exact absent.add_new _
    · rw [if_neg same]
      exact inductionHypothesis (absent.addSome (fun _ => same))

theorem asI64_of_lt {n : Nat} (fits : n < 2 ^ 63) : asI64 n = n := if_pos fits

/-- A count that fits is read back. -/
theorem Bears.attrU64 {attrs : List KeyValue} {key : String} {n : Option Nat}
    (bears : Bears attrs key (countValue n)) (fits : ∀ v ∈ n, v < 2 ^ 63) :
    attrU64 attrs key = n := by
  rw [Normalize.attrU64, bears.read]
  cases n with
  | none => rfl
  | some v => simp [countValue, asI64_of_lt (fits v rfl)]

theorem Bears.asU64 {attrs : List KeyValue} {key : String} {n : Option Nat}
    (bears : Bears attrs key (countValue n)) (fits : ∀ v ∈ n, v < 2 ^ 63) :
    ((rawAttributes attrs)[key]?).bind Json.asU64 = n := by
  rw [bears.raw]
  cases n with
  | none => rfl
  | some v =>
    have small := fits v rfl
    rw [countValue, Option.map_some, Option.map_some, anyvalueToJson, Option.bind_some,
      asI64_of_lt small, Json.asU64, if_pos ⟨by omega, by omega⟩, Int.toNat_natCast]

/-- The spelling the mappers use of each count. -/
def canonicalCounts (t : Tokens) : List (String × Option Nat) :=
  [("gen_ai.usage.input_tokens", t.prompt), ("gen_ai.usage.output_tokens", t.completion),
    ("gen_ai.usage.cache_read.input_tokens", t.cacheRead),
    ("gen_ai.usage.cache_creation.input_tokens", t.cacheWrite),
    ("gen_ai.usage.reasoning.output_tokens", t.reasoning), ("gen_ai.usage.total_tokens", t.total)]

/-- The other spellings, and what a cost is reported in. -/
def otherSpellings : List String :=
  ["llm.token_count.prompt", "gen_ai.usage.prompt_tokens", "llm.token_count.completion",
    "gen_ai.usage.completion_tokens", "llm.token_count.total",
    "llm.token_count.prompt_details.cache_read", "llm.token_count.prompt_details.cache_write",
    "gen_ai.usage.cache_write.input_tokens", "llm.token_count.completion_details.reasoning",
    "gen_ai.usage.reasoning_tokens", "llm.cost.total", "gen_ai.usage.cost"]

/-- The counts of a call are under the canonical keys, and under no others. -/
structure Written (attrs : List KeyValue) (t : Tokens) : Prop where
  counts : ∀ count ∈ canonicalCounts t, Bears attrs count.1 (countValue count.2)
  others : ∀ key ∈ otherSpellings, Bears attrs key none

/-- Every count fits an attribute. -/
def CountsFit (t : Tokens) : Prop := ∀ count ∈ canonicalCounts t, ∀ n ∈ count.2, n < 2 ^ 63

theorem firstU64_nil (attrs : List KeyValue) : firstU64 attrs [] = none := rfl

theorem firstU64_cons (attrs : List KeyValue) (key : String) (keys : List String) :
    firstU64 attrs (key :: keys) = (Normalize.attrU64 attrs key).or (firstU64 attrs keys) := by
  rw [firstU64, List.findSome?_cons]
  cases Normalize.attrU64 attrs key <;> rfl

theorem Written.reportedTokens {attrs : List KeyValue} {t : Tokens} (written : Written attrs t)
    (fits : CountsFit t) : reportedTokens attrs = t := by
  have read (count : String × Option Nat) (listed : count ∈ canonicalCounts t) :
      Normalize.attrU64 attrs count.1 = count.2 :=
    (written.counts count listed).attrU64 (fits count listed)
  have unread (key : String) (listed : key ∈ otherSpellings) :
      Normalize.attrU64 attrs key = none :=
    (show Bears attrs key (countValue none) from written.others key listed).attrU64 (by simp)
  simp only [canonicalCounts, List.forall_mem_cons] at read
  simp only [otherSpellings, List.forall_mem_cons] at unread
  simp [Normalize.reportedTokens, firstU64_cons, firstU64_nil, read, unread]

theorem Written.noCost {attrs : List KeyValue} {t : Tokens} (written : Written attrs t)
    (float : Deps) : firstF64 float attrs costAttributes = none ∧
      costAttributes.any (fun key => (rawAttributes attrs).contains key) = false := by
  have absent : ∀ key ∈ costAttributes, Bears attrs key none :=
    fun key member => written.others key (by revert key; decide)
  simp only [costAttributes, List.forall_mem_cons] at absent
  obtain ⟨first, second, -⟩ := absent
  constructor
  · simp [firstF64, costAttributes, attrF64, first.read, second.read]
  · simp only [costAttributes, List.any_cons, List.any_nil,
      Std.ExtTreeMap.contains_eq_isSome_getElem?, first.raw, second.raw, Option.map_none,
      Option.isSome_none, Bool.or_false]

/-! ## What the price reads -/

/-- All of a span that its price depends on. -/
structure PricedFrom (span : NormalizedSpan) (model : String) (t : Tokens)
    (reported : Option Nat) : Prop where
  model : span.model = some model
  tokens : span.tokens = t
  cost : span.costUsd = none
  unreported : hasCostAttribute span = false
  total : Pricing.reportedTotal span = reported

theorem PricedFrom.derive_eq {span : NormalizedSpan} {model : String} {t : Tokens}
    {reported : Option Nat} (read : PricedFrom span model t reported) (float : Floats)
    (table : PriceTable) :
    derive float table span =
      if t.prompt.isNone && t.completion.isNone then none
      else (table.lookup model).map (fun hit =>
        { cost := priceTokens float hit.2 t (detectBasis t reported)
          model := hit.1
          basis := detectBasis t reported }) := by
  rw [derive, read.cost, Option.isSome_none, if_neg Bool.false_ne_true, read.model, read.tokens]
  simp only [read.unreported, read.total, Bool.false_eq_true, if_false]
  split
  · rfl
  · cases table.lookup model <;> rfl

/-- What the attributes of a draft must hold for it to be a model call with its counts. -/
structure ModelCall (attrs : List KeyValue) (model : String) (t : Tokens) : Prop where
  written : Written attrs t
  model : Bears attrs "gen_ai.response.model" (some (.string model))
  operation : Bears attrs "gen_ai.operation.name" (some (.string "chat"))
  kind : Bears attrs "openinference.span.kind" none

theorem ModelCall.finish (deps : Deps) {draft : SpanDraft} {model : String} {t : Tokens}
    (call : ModelCall draft.attributes model t) (fits : CountsFit t) (whole : withTotal t = t)
    (ctx : RecordCtx) : PricedFrom (draft.finish deps ctx) model t t.total := by
  have attributes : draft.toSpan.attributes = draft.attributes := rfl
  obtain ⟨noCost, noAttribute⟩ := call.written.noCost deps
  -- the operation makes it a model call, so nothing is set aside
  have kind : (readSpan deps draft.toSpan ctx.serviceName ctx.scopeName ctx.scopeVersion).oiKind =
      some (Call.llm "").kind := by
    have operation : attrStr deps draft.attributes "gen_ai.operation.name" = some "chat" := by
      rw [attrStr, call.operation.read]
      rfl
    have unnamed : attrStr deps draft.attributes "openinference.span.kind" = none := by
      rw [attrStr, call.kind.read]
      rfl
    show (attrStr deps draft.attributes "openinference.span.kind").or
      (inferOiKind deps draft.attributes) = _
    rw [unnamed, Option.none_or, inferOiKind, operation]
    exact congrArg some (operationKind_operation draft.attributes (.llm ""))
  obtain ⟨raw, kept, normalized⟩ := normalize_call kind
  have finished : draft.finish deps ctx = Agent.normalize
      (readSpan deps draft.toSpan ctx.serviceName ctx.scopeName ctx.scopeVersion) := rfl
  rw [finished, normalized]
  constructor
  · have named : attrStr deps draft.attributes "gen_ai.response.model" = some model := by
      rw [attrStr, call.model.read]
      rfl
    show firstStr deps draft.attributes
      ["gen_ai.response.model", "gen_ai.request.model", "llm.model_name"] = some model
    rw [firstStr, List.findSome?_cons, named]
  · show withTotal (reportedTokens draft.attributes) = t
    rw [call.written.reportedTokens fits, whole]
  · exact noCost
  · rw [← noAttribute]
    show costAttributes.any (fun key => raw.contains key) = _
    simp only [costAttributes, List.any_cons, List.any_nil,
      Std.ExtTreeMap.contains_eq_isSome_getElem?]
    rw [kept _ (by decide), kept _ (by decide)]
    rfl
  -- the total stands under the second of its two spellings
  · have stated := (call.written.counts ("gen_ai.usage.total_tokens", t.total)
      (by simp [canonicalCounts])).asU64 (fits _ (by simp [canonicalCounts]))
    have unstated := (call.written.others "llm.token_count.total" (by decide)).raw
    have first : (raw["llm.token_count.total"]?).bind Json.asU64 = none := by
      rw [kept _ (by decide)]
      exact (congrArg (Option.bind · Json.asU64) unstated).trans rfl
    have second : (raw["gen_ai.usage.total_tokens"]?).bind Json.asU64 = t.total := by
      rw [kept _ (by decide)]
      exact stated
    show ["llm.token_count.total", "gen_ai.usage.total_tokens"].findSome?
      (fun key => (raw[key]?).bind Json.asU64) = t.total
    rw [List.findSome?_cons, first, List.findSome?_cons, second]
    cases t.total <;> rfl

/-! ## What the mappers write -/

/-- The keys of the counts. -/
def countSpellings : List String :=
  ["gen_ai.usage.input_tokens", "gen_ai.usage.output_tokens",
    "gen_ai.usage.cache_read.input_tokens", "gen_ai.usage.cache_creation.input_tokens",
    "gen_ai.usage.reasoning.output_tokens", "gen_ai.usage.total_tokens"]

theorem spelled {t : Tokens} {count : String × Option Nat} (listed : count ∈ canonicalCounts t) :
    count.1 ∈ countSpellings :=
  List.mem_map_of_mem (f := Prod.fst) listed

/-- The keys a record of an agent does not have by itself. -/
def canonicalKeys : List String :=
  countSpellings ++ otherSpellings ++
    ["gen_ai.request.model", "gen_ai.response.model", "gen_ai.operation.name",
      "openinference.span.kind"]

/-- A record in an agent's own words. -/
def Plain (attrs : List KeyValue) : Prop := ∀ key ∈ canonicalKeys, Absent attrs key

/-- A model call whose counts are to be written. -/
structure CallStart (attrs : List KeyValue) (model : String) : Prop where
  uncounted : ∀ key ∈ countSpellings ++ otherSpellings, Bears attrs key none
  model : Bears attrs "gen_ai.response.model" (some (.string model))
  operation : Bears attrs "gen_ai.operation.name" (some (.string "chat"))
  kind : Bears attrs "openinference.span.kind" none

theorem CallStart.of_plain {attrs : List KeyValue}
    (plain : ∀ key ∈ canonicalKeys, Bears attrs key none) (provider : Option String)
    (model : String) :
    CallStart
      (addSome (addSome (addSome (add attrs (kvStr "gen_ai.operation.name" "chat"))
        (provider.map (kvStr "gen_ai.provider.name")))
        ((some model).map (kvStr "gen_ai.request.model")))
        ((some model).map (kvStr "gen_ai.response.model"))) model := by
  have distinct : ∀ key ∈ countSpellings ++ otherSpellings,
      key ∈ canonicalKeys ∧ key ∉ ["gen_ai.operation.name", "gen_ai.provider.name",
        "gen_ai.request.model", "gen_ai.response.model"] := by decide
  constructor
  · intro key member
    obtain ⟨canonical, other⟩ := distinct key member
    simp only [List.mem_cons, List.not_mem_nil, or_false, not_or] at other
    obtain ⟨operation, isProvider, request, response⟩ := other
    refine Bears.addSome ?_ (fun _ => Ne.symm response)
    refine Bears.addSome ?_ (fun _ => Ne.symm request)
    refine Bears.addSome ?_ (fun _ => Ne.symm isProvider)
    exact (plain key canonical).add (Ne.symm operation)
  · refine Bears.addSome_new ?_ AnyValue.string (some model)
    refine Bears.addSome ?_ (fun _ => by show "gen_ai.request.model" ≠ _; decide)
    refine Bears.addSome ?_ (fun _ => by show "gen_ai.provider.name" ≠ _; decide)
    exact (plain _ (by decide)).add (by show "gen_ai.operation.name" ≠ _; decide)
  · refine Bears.addSome ?_ (fun _ => by show "gen_ai.response.model" ≠ _; decide)
    refine Bears.addSome ?_ (fun _ => by show "gen_ai.request.model" ≠ _; decide)
    refine Bears.addSome ?_ (fun _ => by show "gen_ai.provider.name" ≠ _; decide)
    exact (plain _ (by decide)).add_new _
  · refine Bears.addSome ?_ (fun _ => by show "gen_ai.response.model" ≠ _; decide)
    refine Bears.addSome ?_ (fun _ => by show "gen_ai.request.model" ≠ _; decide)
    refine Bears.addSome ?_ (fun _ => by show "gen_ai.provider.name" ≠ _; decide)
    exact (plain _ (by decide)).add (by show "gen_ai.operation.name" ≠ _; decide)

/-- The counts of a list, by their canonical keys. -/
def tokensOf (counts : List (String × Option Nat)) : Tokens :=
  { prompt := firstCount counts "gen_ai.usage.input_tokens"
    completion := firstCount counts "gen_ai.usage.output_tokens"
    total := firstCount counts "gen_ai.usage.total_tokens"
    cacheRead := firstCount counts "gen_ai.usage.cache_read.input_tokens"
    cacheWrite := firstCount counts "gen_ai.usage.cache_creation.input_tokens"
    reasoning := firstCount counts "gen_ai.usage.reasoning.output_tokens" }

theorem Bears.counts_other {attrs : List KeyValue} {key : String} {v : Option AnyValue}
    (bears : Bears attrs key v) {counts : List (String × Option Nat)}
    (other : ∀ count ∈ counts, count.1 ≠ key) :
    Bears (counts.foldl ClaudeCode.addCount attrs) key v := by
  induction counts generalizing attrs with
  | nil => exact bears
  | cons count counts inductionHypothesis =>
    rw [List.forall_mem_cons] at other
    exact inductionHypothesis (bears.addSome (fun _ => other.1)) other.2

theorem CallStart.counted {attrs : List KeyValue} {model : String} (start : CallStart attrs model)
    {counts : List (String × Option Nat)} (named : ∀ count ∈ counts, count.1 ∈ countSpellings) :
    ModelCall (counts.foldl ClaudeCode.addCount attrs) model (tokensOf counts) := by
  have other {key : String} (outside : key ∉ countSpellings) : ∀ count ∈ counts, count.1 ≠ key := by
    intro count member same
    exact outside (same ▸ named count member)
  refine ⟨⟨?_, ?_⟩, start.model.counts_other (other (by decide)),
    start.operation.counts_other (other (by decide)), start.kind.counts_other (other (by decide))⟩
  · intro count listed
    have written : count.2 = firstCount counts count.1 := by
      simp only [canonicalCounts, tokensOf, List.mem_cons, List.not_mem_nil, or_false] at listed
      obtain rfl | rfl | rfl | rfl | rfl | rfl := listed <;> rfl
    rw [written]
    exact (start.uncounted count.1 (List.mem_append_left _ (spelled listed))).counts counts
  · intro key listed
    have outside : ∀ key ∈ otherSpellings, key ∉ countSpellings := by decide
    exact (start.uncounted key (List.mem_append_right _ listed)).counts_other (other (outside key listed))

/-- Attributes under keys the price does not read. -/
theorem ModelCall.add {attrs : List KeyValue} {model : String} {t : Tokens}
    (call : ModelCall attrs model t) {kv : KeyValue} (other : kv.key ∉ canonicalKeys) :
    ModelCall (Logs.add attrs kv) model t := by
  have apart {key : String} (listed : key ∈ canonicalKeys) : kv.key ≠ key := by
    intro same
    exact other (same ▸ listed)
  refine ⟨⟨?_, ?_⟩, call.model.add (apart (by decide)), call.operation.add (apart (by decide)),
    call.kind.add (apart (by decide))⟩
  · intro count listed
    have canonical : ∀ key ∈ countSpellings, key ∈ canonicalKeys := by decide
    exact (call.written.counts count listed).add (apart (canonical _ (spelled listed)))
  · intro key listed
    have canonical : ∀ key ∈ otherSpellings, key ∈ canonicalKeys := by decide
    exact (call.written.others key listed).add (apart (canonical key listed))

theorem ModelCall.addSome {α : Type} {attrs : List KeyValue} {model : String} {t : Tokens}
    (call : ModelCall attrs model t) {f : α → KeyValue} {x : Option α}
    (other : ∀ x, (f x).key ∉ canonicalKeys) : ModelCall (Logs.addSome attrs (x.map f)) model t := by
  cases x with
  | none => exact call
  | some x => exact call.add (other x)

section Mappers

variable (deps : Deps) {rec : LogRecord} {model : String}

/-- What every span of Codex and of Gemini CLI is given is nothing the price reads. -/
theorem given_apart {key : String} (listed : key ∈ canonicalKeys) :
    "evald.otel.trace_id" ≠ key ∧ "evald.otel.span_id" ≠ key ∧ "gen_ai.conversation.id" ≠ key ∧
      "evald.source" ≠ key := by
  have apart : ∀ key ∈ canonicalKeys, "evald.otel.trace_id" ≠ key ∧ "evald.otel.span_id" ≠ key ∧
      "gen_ai.conversation.id" ≠ key ∧ "evald.source" ≠ key := by decide
  exact apart key listed

theorem codex_common (plain : Plain rec.attributes) (conv : String)
    (own : Option (List UInt8 × List UInt8)) :
    ∀ key ∈ canonicalKeys, Bears (Codex.common rec.attributes conv own) key none := by
  intro key listed
  obtain ⟨trace, span, conversation, source⟩ := given_apart listed
  have ids : Bears (addSome (addSome rec.attributes
      (own.map (fun o => kvStr "evald.otel.trace_id" (hexEncode o.1))))
      (own.map (fun o => kvStr "evald.otel.span_id" (hexEncode o.2)))) key none := by
    refine Bears.addSome ?_ (fun _ => span)
    exact (plain key listed).bears.addSome (fun _ => trace)
  refine Bears.add ?_ source
  split
  · exact ids.add conversation
  · exact ids

theorem codex_modelCall (plain : Plain rec.attributes)
    (named : attrStr deps rec.attributes "model" = some model) (conv : String)
    (own : Option (List UInt8 × List UInt8)) (provider : Option String) :
    ModelCall (Codex.llmAttributes deps rec conv own provider) model
      (tokensOf (Codex.usageAttributes rec.attributes)) := by
  have start := CallStart.of_plain (codex_common plain conv own) provider model
  unfold Codex.llmAttributes
  simp only [named]
  refine ModelCall.addSome (start.counted ?_) (fun _ => by
    show "gen_ai.response.time_to_first_chunk" ∉ canonicalKeys
    decide)
  simp only [Codex.usageAttributes, List.forall_mem_cons]
  decide

theorem gemini_modelCall (plain : Plain rec.attributes)
    (named : attrStr deps rec.attributes "model" = some model) (session : String)
    (own : Option (List UInt8 × List UInt8)) :
    ModelCall (GeminiCli.llmAttributes deps rec session own) model
      (tokensOf (GeminiCli.usageAttributes rec.attributes)) := by
  have start := CallStart.of_plain (codex_common plain session own)
    (some (GeminiCli.provider deps rec.attributes)) model
  unfold GeminiCli.llmAttributes
  simp only [named]
  apply start.counted
  simp only [GeminiCli.usageAttributes, List.forall_mem_cons]
  decide

/-- The total of the four counts, once the input or the output is counted. -/
def claudeTotal (a : List KeyValue) : Option Nat :=
  if (attrU64 a "input_tokens").isSome || (attrU64 a "output_tokens").isSome then
    some (ClaudeCode.sumCounts ((ClaudeCode.tokenAttributes a).map Prod.snd))
  else none

def claudeCounts (a : List KeyValue) : List (String × Option Nat) :=
  ClaudeCode.tokenAttributes a ++ [("gen_ai.usage.total_tokens", claudeTotal a)]

theorem claude_modelCall (plain : Plain rec.attributes)
    (named : attrStr deps rec.attributes "model" = some model)
    (unreported : ClaudeCode.finiteNonneg (attrF64 deps rec.attributes "cost_usd") = none) :
    ModelCall (ClaudeCode.llmAttributes deps rec) model (tokensOf (claudeCounts rec.attributes)) := by
  have start := CallStart.of_plain (fun key listed => (plain key listed).bears) (some "anthropic") model
  have spelledOut : ∀ count ∈ claudeCounts rec.attributes, count.1 ∈ countSpellings := by
    simp only [claudeCounts, ClaudeCode.tokenAttributes, List.forall_mem_append, List.forall_mem_cons]
    decide
  have counted := start.counted spelledOut
  have total (attrs : List KeyValue) :
      ClaudeCode.addCount attrs ("gen_ai.usage.total_tokens", claudeTotal rec.attributes) =
        addSome attrs (ClaudeCode.totalAttribute rec.attributes) := by
    unfold ClaudeCode.addCount claudeTotal ClaudeCode.totalAttribute
    split <;> rfl
  rw [claudeCounts, List.foldl_append, List.foldl_cons, List.foldl_nil, total] at counted
  unfold ClaudeCode.llmAttributes
  simp only [named, unreported]
  apply ModelCall.add _ (by show ClaudeCode.callKey ∉ canonicalKeys; decide)
  apply ModelCall.add _ (by show "evald.source" ∉ canonicalKeys; decide)
  refine ModelCall.addSome ?_ (fun _ => by
    show "gen_ai.response.time_to_first_chunk" ∉ canonicalKeys
    decide)
  exact counted.addSome (fun _ => by show "gen_ai.response.id" ∉ canonicalKeys; decide)

end Mappers

/-! ## The spans of model calls -/

theorem name_finish (deps : Deps) (draft : SpanDraft) (ctx : RecordCtx) :
    (draft.finish deps ctx).name = draft.name := by
  obtain ⟨raw, -, normalized⟩ := Agent.normalize_spec
    (readSpan deps draft.toSpan ctx.serviceName ctx.scopeName ctx.scopeVersion)
  have kept (s : NormalizedSpan) : (Agent.usageSetAside s).name = s.name := by
    unfold Agent.usageSetAside
    split <;> rfl
  rw [SpanDraft.finish, normalizeSpan, normalized]
  exact kept _

section Mapped

variable {deps : Deps} {ctx : RecordCtx} {rec : LogRecord} {name : Option String}
  {span : NormalizedSpan}

/-- A span of that name is made by `llmSpan`. -/
theorem codex_llmSpan {recent : Recall Codex.Conversation} {loc : Local Codex.Conversation}
    (mapped : (Codex.mapLog deps ctx rec name recent loc).1 = .span span)
    (named : span.name = Codex.llmSpanName) :
    ∃ conv error seen, span = Codex.llmSpan deps ctx rec conv error seen := by
  have prompt : Codex.promptSpanName ≠ Codex.llmSpanName := by decide
  have tool : Codex.toolSpanName ≠ Codex.llmSpanName := by decide
  -- only the request and the stream events make a span with this name
  unfold Codex.mapLog at mapped
  split at mapped
  · cases mapped
  split at mapped
  · cases mapped
  unfold Codex.mapEvent at mapped
  simp only at mapped
  split at mapped
  · split at mapped <;> cases mapped
  split at mapped
  · cases mapped
    rw [Codex.promptSpan, name_finish] at named
    exact absurd named prompt
  split at mapped
  · cases mapped
  split at mapped
  · split at mapped
    · cases mapped
      exact ⟨_, _, _, rfl⟩
    · cases mapped
  split at mapped
  · split at mapped
    · cases mapped
      exact ⟨_, _, _, rfl⟩
    · cases mapped
  split at mapped
  · split at mapped <;> cases mapped
  split at mapped
  · cases mapped
    rw [Codex.toolSpan, name_finish] at named
    exact absurd named tool
  · cases mapped

theorem gemini_llmSpan {recent : Recall GeminiCli.Session} {loc : Local GeminiCli.Session}
    (mapped : (GeminiCli.mapLog deps ctx rec name recent loc).1 = .span span)
    (named : span.name = GeminiCli.llmSpanName) :
    ∃ session error seen, span = GeminiCli.llmSpan deps ctx rec session error seen := by
  have prompt : GeminiCli.promptSpanName ≠ GeminiCli.llmSpanName := by decide
  have tool : GeminiCli.toolSpanName ≠ GeminiCli.llmSpanName := by decide
  unfold GeminiCli.mapLog at mapped
  split at mapped
  · cases mapped
  split at mapped
  · cases mapped
  unfold GeminiCli.mapEvent at mapped
  simp only at mapped
  split at mapped
  · cases mapped
    rw [GeminiCli.promptSpan, name_finish] at named
    exact absurd named prompt
  split at mapped
  · cases mapped
    exact ⟨_, _, _, rfl⟩
  split at mapped
  · cases mapped
    exact ⟨_, _, _, rfl⟩
  split at mapped
  · cases mapped
    rw [GeminiCli.toolSpan, name_finish] at named
    exact absurd named tool
  split at mapped
  · split at mapped <;> cases mapped
  split at mapped <;> cases mapped

theorem claude_llmSpan (mapped : ClaudeCode.mapLog deps ctx rec name = .span span)
    (named : span.name = ClaudeCode.llmSpanName) :
    ∃ error, span = ClaudeCode.llmSpan deps ctx rec error := by
  have tool (rejected : Option String) :
      (ClaudeCode.toolSpan deps ctx rec rejected).name ≠ ClaudeCode.llmSpanName := by
    rw [ClaudeCode.toolSpan, name_finish]
    show ClaudeCode.toolSpanName ≠ ClaudeCode.llmSpanName
    decide
  unfold ClaudeCode.mapLog at mapped
  split at mapped
  · cases mapped
  split at mapped
  · cases mapped
  unfold ClaudeCode.mapEvent at mapped
  simp only at mapped
  split at mapped
  · cases mapped
    exact ⟨_, rfl⟩
  split at mapped
  · cases mapped
    exact ⟨_, rfl⟩
  split at mapped
  · cases mapped
    exact absurd named (tool _)
  split at mapped
  · split at mapped
    · cases mapped
      exact absurd named (tool _)
    · cases mapped
  split at mapped
  · cases mapped
    rw [ClaudeCode.promptSpan, name_finish] at named
    exact absurd named (by show ClaudeCode.promptSpanName ≠ _; decide)
  split at mapped <;> cases mapped

end Mapped

/-! ## Usage records -/

inductive CodingAgent where
  | codex
  | geminiCli
  | claudeCode
  deriving DecidableEq

/-- How each reports its counts. -/
def CodingAgent.basis : CodingAgent → Basis
  | .codex => {}
  | .geminiCli => { reasoningAdd := true }
  | .claudeCode => { cacheExcl := true }

/-- The input has the cached tokens in it, the output the reasoning, and the total is the sum. -/
structure CodexUsage (a : List KeyValue) (s : TrueSplit) : Prop where
  counted : (attrU64 a "input_token_count").isSome ∨ (attrU64 a "output_token_count").isSome
  input : (attrU64 a "input_token_count").getD 0 = s.uncached + s.cache
  output : (attrU64 a "output_token_count").getD 0 = s.textOut + s.reasoning
  cached : (attrU64 a "cached_token_count").getD 0 = s.cacheRead
  cacheWrite : (attrU64 a "cache_write_token_count").getD 0 = s.cacheWrite
  reasoning : (attrU64 a "reasoning_token_count").getD 0 = s.reasoning
  total : attrU64 a "tool_token_count" = some s.total

/-- The input, with that of tools, has the cached tokens in it; thoughts are on top of the
output, and the total is stated. -/
structure GeminiUsage (a : List KeyValue) (s : TrueSplit) : Prop where
  counted : (attrU64 a "input_token_count").isSome ∨ (attrU64 a "output_token_count").isSome
  input : ((attrU64 a "input_token_count").map
    (· + (attrU64 a "tool_token_count").getD 0)).getD 0 = s.uncached + s.cacheRead
  output : (attrU64 a "output_token_count").getD 0 = s.textOut
  cached : (attrU64 a "cached_content_token_count").getD 0 = s.cacheRead
  cacheWrite : s.cacheWrite = 0
  thoughts : (attrU64 a "thoughts_token_count").getD 0 = s.reasoning
  total : attrU64 a "total_token_count" = some s.total

/-- The cached tokens are on top of the input, and the record has no total. -/
structure ClaudeUsage (a : List KeyValue) (s : TrueSplit) : Prop where
  counted : (attrU64 a "input_tokens").isSome ∨ (attrU64 a "output_tokens").isSome
  input : (attrU64 a "input_tokens").getD 0 = s.uncached
  output : (attrU64 a "output_tokens").getD 0 = s.textOut
  cacheRead : (attrU64 a "cache_read_tokens").getD 0 = s.cacheRead
  cacheWrite : (attrU64 a "cache_creation_tokens").getD 0 = s.cacheWrite
  reasoning : s.reasoning = 0

theorem firstCount_cons (count : String × Option Nat) (counts : List (String × Option Nat))
    (key : String) : firstCount (count :: counts) key =
      if count.1 = key then count.2.or (firstCount counts key) else firstCount counts key := by
  rw [firstCount, List.findSome?_cons]
  by_cases same : count.1 = key
  · rw [if_pos same, if_pos same]
    cases count.2 <;> rfl
  · rw [if_neg same, if_neg same]
    rfl

theorem firstCount_nil (key : String) : firstCount [] key = none := rfl

theorem tokensOf_codex (a : List KeyValue) : tokensOf (Codex.usageAttributes a) =
    { prompt := attrU64 a "input_token_count"
      completion := attrU64 a "output_token_count"
      total := attrU64 a "tool_token_count"
      cacheRead := attrU64 a "cached_token_count"
      cacheWrite := attrU64 a "cache_write_token_count"
      reasoning := attrU64 a "reasoning_token_count" } := by
  simp [tokensOf, Codex.usageAttributes, firstCount_cons, firstCount_nil]

theorem tokensOf_gemini (a : List KeyValue) : tokensOf (GeminiCli.usageAttributes a) =
    { prompt := (attrU64 a "input_token_count").map
        (fun i => wrappingAdd i ((attrU64 a "tool_token_count").getD 0))
      completion := attrU64 a "output_token_count"
      total := attrU64 a "total_token_count"
      cacheRead := attrU64 a "cached_content_token_count"
      cacheWrite := none
      reasoning := attrU64 a "thoughts_token_count" } := by
  simp [tokensOf, GeminiCli.usageAttributes, firstCount_cons, firstCount_nil]

theorem tokensOf_claude (a : List KeyValue) : tokensOf (claudeCounts a) =
    { prompt := attrU64 a "input_tokens"
      completion := attrU64 a "output_tokens"
      total := claudeTotal a
      cacheRead := attrU64 a "cache_read_tokens"
      cacheWrite := attrU64 a "cache_creation_tokens"
      reasoning := none } := by
  simp [tokensOf, claudeCounts, ClaudeCode.tokenAttributes, firstCount_cons, firstCount_nil]

/-- Counts that are no more than a total that fits. -/
theorem countsFit_of_le {t : Tokens} {total : Nat} (fits : total < 2 ^ 63)
    (bounded : ∀ count ∈ canonicalCounts t, count.2.getD 0 ≤ total) : CountsFit t := by
  intro count listed n present
  have bound := bounded count listed
  rw [Option.mem_def] at present
  rw [present, Option.getD_some] at bound
  omega

theorem withTotal_of_isSome {t : Tokens} (stated : t.total.isSome = true) : withTotal t = t := by
  obtain ⟨n, total⟩ := Option.isSome_iff_exists.mp stated
  rw [withTotal, total]

/-- What a mapper makes of a usage record. -/
structure MappedCall (agent : CodingAgent) (model : String) (s : TrueSplit) (t : Tokens)
    (span : NormalizedSpan) : Prop where
  read : PricedFrom span model t (some s.total)
  counted : (t.prompt.isNone && t.completion.isNone) = false
  reports : Reports t s agent.basis

theorem counted_of_or {x y : Option Nat} (counted : x.isSome = true ∨ y.isSome = true) :
    (x.isNone && y.isNone) = false := by
  cases x <;> cases y <;> simp_all

section Usage

variable (deps : Deps) {rec : LogRecord} {model : String} {s : TrueSplit}

theorem CodexUsage.mapped (usage : CodexUsage rec.attributes s) (plain : Plain rec.attributes)
    (named : attrStr deps rec.attributes "model" = some model) (fits : s.total < 2 ^ 63)
    (ctx : RecordCtx) (conv : String) (error : Option String) (seen : Option Codex.Conversation) :
    MappedCall .codex model s (tokensOf (Codex.usageAttributes rec.attributes))
      (Codex.llmSpan deps ctx rec conv error seen) := by
  have stated : (tokensOf (Codex.usageAttributes rec.attributes)).total = some s.total := by
    rw [tokensOf_codex]
    exact usage.total
  have small : CountsFit (tokensOf (Codex.usageAttributes rec.attributes)) := by
    rw [tokensOf_codex]
    apply countsFit_of_le fits
    simp only [canonicalCounts, List.forall_mem_cons, usage.input, usage.output, usage.cached,
      usage.cacheWrite, usage.reasoning, usage.total, Option.getD_some, TrueSplit.total, TrueSplit.cache]
    refine ⟨by omega, by omega, by omega, by omega, by omega, by omega, by simp⟩
  constructor
  · rw [← stated]
    show PricedFrom (SpanDraft.finish deps _ ctx) _ _ _
    exact (codex_modelCall deps plain named conv _ _).finish deps small
      (withTotal_of_isSome (by rw [stated]; rfl)) ctx
  · rw [tokensOf_codex]
    exact counted_of_or usage.counted
  · rw [tokensOf_codex]
    exact ⟨usage.input, usage.output, usage.cached, usage.cacheWrite, usage.reasoning⟩

theorem GeminiUsage.mapped (usage : GeminiUsage rec.attributes s) (plain : Plain rec.attributes)
    (named : attrStr deps rec.attributes "model" = some model) (fits : s.total < 2 ^ 63)
    (ctx : RecordCtx) (session : String) (error : Option String) (seen : Option GeminiCli.Session) :
    MappedCall .geminiCli model s (tokensOf (GeminiCli.usageAttributes rec.attributes))
      (GeminiCli.llmSpan deps ctx rec session error seen) := by
  have stated : (tokensOf (GeminiCli.usageAttributes rec.attributes)).total = some s.total := by
    rw [tokensOf_gemini]
    exact usage.total
  -- tool tokens are added to the input, which leaves no sum out of range
  have input : ((attrU64 rec.attributes "input_token_count").map
      (fun i => wrappingAdd i ((attrU64 rec.attributes "tool_token_count").getD 0))).getD 0 =
        s.uncached + s.cache := by
    have sum := usage.input
    have noWrite := usage.cacheWrite
    unfold TrueSplit.total at fits
    unfold TrueSplit.cache at fits ⊢
    cases counted : attrU64 rec.attributes "input_token_count" with
    | none =>
      rw [counted] at sum
      simp only [Option.map_none, Option.getD_none] at sum ⊢
      omega
    | some i =>
      rw [counted] at sum
      simp only [Option.map_some, Option.getD_some] at sum ⊢
      rw [wrappingAdd_of_lt (by omega)]
      omega
  have small : CountsFit (tokensOf (GeminiCli.usageAttributes rec.attributes)) := by
    rw [tokensOf_gemini]
    apply countsFit_of_le fits
    simp only [canonicalCounts, List.forall_mem_cons, input, usage.output, usage.cached,
      usage.thoughts, usage.total, Option.getD_some, Option.getD_none, TrueSplit.total, TrueSplit.cache]
    refine ⟨by omega, by omega, by omega, by omega, by omega, by omega, by simp⟩
  constructor
  · rw [← stated]
    show PricedFrom (SpanDraft.finish deps _ ctx) _ _ _
    exact (gemini_modelCall deps plain named session _).finish deps small
      (withTotal_of_isSome (by rw [stated]; rfl)) ctx
  · rw [tokensOf_gemini]
    apply counted_of_or
    rw [Option.isSome_map]
    exact usage.counted
  · rw [tokensOf_gemini]
    exact ⟨input, usage.output, usage.cached, usage.cacheWrite.symm, usage.thoughts⟩

theorem sumCounts_of_fits {a b c d : Option Nat}
    (fits : a.getD 0 + b.getD 0 + c.getD 0 + d.getD 0 < 2 ^ 64) :
    ClaudeCode.sumCounts [a, b, c, d] = a.getD 0 + b.getD 0 + c.getD 0 + d.getD 0 := by
  simp only [ClaudeCode.sumCounts, List.foldl_cons, List.foldl_nil]
  rw [wrappingAdd_of_lt (show 0 + a.getD 0 < 2 ^ 64 by omega), Nat.zero_add,
    wrappingAdd_of_lt (show a.getD 0 + b.getD 0 < 2 ^ 64 by omega),
    wrappingAdd_of_lt (show a.getD 0 + b.getD 0 + c.getD 0 < 2 ^ 64 by omega), wrappingAdd_of_lt fits]

theorem ClaudeUsage.mapped (usage : ClaudeUsage rec.attributes s) (plain : Plain rec.attributes)
    (named : attrStr deps rec.attributes "model" = some model)
    (unreported : ClaudeCode.finiteNonneg (attrF64 deps rec.attributes "cost_usd") = none)
    (fits : s.total < 2 ^ 63) (ctx : RecordCtx) (error : Option String) :
    MappedCall .claudeCode model s (tokensOf (claudeCounts rec.attributes))
      (ClaudeCode.llmSpan deps ctx rec error) := by
  -- the sum of the four counts is the total, since reasoning is not sent apart
  have total : claudeTotal rec.attributes = some s.total := by
    have reasoning := usage.reasoning
    unfold TrueSplit.total TrueSplit.cache at fits
    rw [claudeTotal, if_pos (by simpa using usage.counted)]
    simp only [ClaudeCode.tokenAttributes, List.map_cons, List.map_nil]
    rw [sumCounts_of_fits, usage.input, usage.output, usage.cacheRead, usage.cacheWrite]
    · unfold TrueSplit.total TrueSplit.cache
      congr 1
      omega
    · rw [usage.input, usage.output, usage.cacheRead, usage.cacheWrite]
      omega
  have stated : (tokensOf (claudeCounts rec.attributes)).total = some s.total := by
    rw [tokensOf_claude]
    exact total
  have small : CountsFit (tokensOf (claudeCounts rec.attributes)) := by
    rw [tokensOf_claude]
    apply countsFit_of_le fits
    simp only [canonicalCounts, List.forall_mem_cons, usage.input, usage.output, usage.cacheRead,
      usage.cacheWrite, total, Option.getD_some, Option.getD_none, TrueSplit.total, TrueSplit.cache]
    refine ⟨by omega, by omega, by omega, by omega, by omega, by omega, by simp⟩
  constructor
  · rw [← stated]
    show PricedFrom (SpanDraft.finish deps _ ctx) _ _ _
    exact (claude_modelCall deps plain named unreported).finish deps small
      (withTotal_of_isSome (by rw [stated]; rfl)) ctx
  · rw [tokensOf_claude]
    exact counted_of_or usage.counted
  · rw [tokensOf_claude]
    refine ⟨usage.input, ?_, usage.cacheRead, usage.cacheWrite, usage.reasoning.symm⟩
    rw [usage.reasoning]
    exact usage.output

end Usage

/-- A model call an agent recorded, with its own counts only. -/
inductive CallSpan (deps : Deps) (model : String) (s : TrueSplit) :
    CodingAgent → NormalizedSpan → Prop where
  | codex {ctx : RecordCtx} {rec : LogRecord} {name : Option String}
      {recent : Recall Codex.Conversation} {loc : Local Codex.Conversation} {span : NormalizedSpan}
      (mapped : (Codex.mapLog deps ctx rec name recent loc).1 = .span span)
      (named : span.name = Codex.llmSpanName) (plain : Plain rec.attributes)
      (used : attrStr deps rec.attributes "model" = some model)
      (usage : CodexUsage rec.attributes s) : CallSpan deps model s .codex span
  | geminiCli {ctx : RecordCtx} {rec : LogRecord} {name : Option String}
      {recent : Recall GeminiCli.Session} {loc : Local GeminiCli.Session} {span : NormalizedSpan}
      (mapped : (GeminiCli.mapLog deps ctx rec name recent loc).1 = .span span)
      (named : span.name = GeminiCli.llmSpanName) (plain : Plain rec.attributes)
      (used : attrStr deps rec.attributes "model" = some model)
      (usage : GeminiUsage rec.attributes s) : CallSpan deps model s .geminiCli span
  | claudeCode {ctx : RecordCtx} {rec : LogRecord} {name : Option String} {span : NormalizedSpan}
      (mapped : ClaudeCode.mapLog deps ctx rec name = .span span)
      (named : span.name = ClaudeCode.llmSpanName) (plain : Plain rec.attributes)
      (used : attrStr deps rec.attributes "model" = some model)
      -- a cost that the record states is kept
      (unreported : ClaudeCode.finiteNonneg (attrF64 deps rec.attributes "cost_usd") = none)
      (usage : ClaudeUsage rec.attributes s) : CallSpan deps model s .claudeCode span

section Price

variable {deps : Deps} {model : String} {s : TrueSplit} {agent : CodingAgent} {span : NormalizedSpan}

theorem CallSpan.mapped (call : CallSpan deps model s agent span) (fits : s.total < 2 ^ 63) :
    ∃ t, MappedCall agent model s t span := by
  cases call with
  | codex mapped named plain used usage =>
    obtain ⟨conv, error, seen, rfl⟩ := codex_llmSpan mapped named
    exact ⟨_, usage.mapped deps plain used fits _ conv error seen⟩
  | geminiCli mapped named plain used usage =>
    obtain ⟨session, error, seen, rfl⟩ := gemini_llmSpan mapped named
    exact ⟨_, usage.mapped deps plain used fits _ session error seen⟩
  | claudeCode mapped named plain used unreported usage =>
    obtain ⟨error, rfl⟩ := claude_llmSpan mapped named
    exact ⟨_, usage.mapped deps plain used unreported fits _ error⟩

/-- No cache is written where the agent reports none, and nobody reasons where it counts none. -/
theorem CallSpan.uncounted (call : CallSpan deps model s agent span) :
    (agent = .geminiCli → s.cacheWrite = 0) ∧ (agent = .claudeCode → s.reasoning = 0) := by
  cases call with
  | codex mapped named plain used usage => simp
  | geminiCli mapped named plain used usage => simp [usage.cacheWrite]
  | claudeCode mapped named plain used unreported usage => simp [usage.reasoning]

/-- A table with one price. -/
def onePrice (model : String) (price : Price) : PriceTable :=
  { version := "", models := (∅ : Std.ExtTreeMap String Price).insert model price }

theorem lookup_onePrice (model : String) (price : Price) :
    (onePrice model price).lookup model = some (model, price) := by
  simp [PriceTable.lookup, PriceTable.find, onePrice]

theorem exactCost_of_quantities {t : Tokens} {b : Basis} (same : quantities t b = s.quantities)
    (p : Price) : exactCost p t b = s.exactCost p := by
  rw [exactCost, same]
  rfl

/-- What is priced is what was used. -/
theorem CallSpan.quantities_eq (call : CallSpan deps model s agent span) {t : Tokens}
    (reports : Reports t s agent.basis) (fits : s.total < 2 ^ 64)
    (told : agent = .geminiCli → s.cacheRead ≠ s.reasoning ∨ s.reasoning = 0 ∨ s.textOut = 0) :
    quantities t (detectBasis t (some s.total)) = s.quantities := by
  obtain ⟨noWrite, noReasoning⟩ := call.uncounted
  cases agent with
  | codex => exact quantities_detected reports fits (.inr (.inr rfl))
  | claudeCode => exact quantities_detected reports fits (.inr (.inl (noReasoning rfl)))
  | geminiCli =>
    have cache : s.cache = s.cacheRead := by rw [TrueSplit.cache, noWrite rfl, Nat.add_zero]
    by_cases same : s.cache = s.reasoning
    · by_cases reasoning : s.reasoning = 0
      · exact quantities_detected reports fits (.inr (.inl reasoning))
      · -- there is no text to take anything off
        have text : s.textOut = 0 := by
          obtain differ | none | text := told rfl
          · exact absurd (cache ▸ same) differ
          · exact absurd none reasoning
          · exact text
        rw [quantities_mistaken reports fits same (Nat.pos_of_ne_zero reasoning)]
        simp [TrueSplit.quantities, text]
    · exact quantities_detected reports fits (.inl same)

/-- As much read from the cache as spent on thoughts, and text: a price for the text tells. -/
theorem CallSpan.mispriced (call : CallSpan deps model s .geminiCli span) (fits : s.total < 2 ^ 63)
    (same : s.cacheRead = s.reasoning) (reasoning : s.reasoning ≠ 0) (text : s.textOut ≠ 0) :
    ∃ price, ∀ d, derive deps.float (onePrice model price) span = some d →
      exactCost price span.tokens d.basis ≠ s.exactCost price := by
  obtain ⟨t, read, counted, reports⟩ := call.mapped fits
  have cache : s.cache = s.reasoning := by
    rw [TrueSplit.cache, call.uncounted.1 rfl, same, Nat.add_zero]
  have derived := read.derive_eq deps.float
  simp only [counted, Bool.false_eq_true, if_false] at derived
  let price : Price :=
    { base := { input := .finite 0, output := .finite 1 }, reasoning := some (.finite 0) }
  refine ⟨price, ?_⟩
  intro d found exact
  have mistake := quantities_mistaken reports (by omega) cache (Nat.pos_of_ne_zero reasoning)
  rw [derived, lookup_onePrice, Option.map_some, Option.some.injEq] at found
  rw [← found, read.tokens] at exact
  simp [exactCost, TrueSplit.exactCost, price, Price.ratesFor, F64.toRat, mistake] at exact
  omega

/-- Each token of a call is charged once, at the tier of the full input, whatever the prices
are: so it is for Codex and Claude Code, and for Gemini CLI unless text was put out and as much
was read from the cache as was spent on thoughts. -/
theorem priced_as_reported_iff (call : CallSpan deps model s agent span) (fits : s.total < 2 ^ 63) :
    (∀ table key price, PriceTable.lookup table model = some (key, price) →
      ∃ d, derive deps.float table span = some d ∧
        d.cost = costOf deps.float price s.quantities ∧
        exactCost price span.tokens d.basis = s.exactCost price) ↔
      (agent = .geminiCli → s.cacheRead ≠ s.reasoning ∨ s.reasoning = 0 ∨ s.textOut = 0) := by
  constructor
  · intro priced isGemini
    by_contra mistaken
    simp only [not_or, ne_eq, not_not] at mistaken
    obtain ⟨same, reasoning, text⟩ := mistaken
    subst isGemini
    obtain ⟨price, wrong⟩ := call.mispriced fits same reasoning text
    obtain ⟨d, found, -, exact⟩ := priced (onePrice model price) model price (lookup_onePrice model price)
    exact wrong d found exact
  · intro told table key price known
    obtain ⟨t, read, counted, reports⟩ := call.mapped fits
    have same := call.quantities_eq reports (by omega) told
    have derived := read.derive_eq deps.float table
    simp only [counted, Bool.false_eq_true, if_false, known, Option.map_some] at derived
    refine ⟨_, derived, ?_, ?_⟩
    · rw [priceTokens_eq, same]
    · rw [read.tokens, exactCost_of_quantities same]

end Price

/-! ## As much from the cache as for thoughts -/

/-- 20 tokens from the cache, 50 of text, and some thoughts. -/
def cachedSplit (thoughts : Nat) : TrueSplit :=
  { uncached := 80, cacheRead := 20, cacheWrite := 0, textOut := 50, reasoning := thoughts }

def geminiResponse (thoughts : Nat) : LogRecord :=
  { eventName := "gemini_cli.api_response"
    attributes := [kvStr "model" "gemini-pro", kvInt "input_token_count" 100,
      kvInt "output_token_count" 50, kvInt "cached_content_token_count" 20,
      kvInt "thoughts_token_count" thoughts, kvInt "total_token_count" (150 + thoughts)] }

def geminiResponseSpan (thoughts : Nat) : NormalizedSpan :=
  GeminiCli.llmSpan .hashing { serviceName := some GeminiCli.serviceName }
    (geminiResponse thoughts) "" none none

theorem callSpan_geminiResponse {thoughts : Nat} (counted : thoughts = 20 ∨ thoughts = 30) :
    CallSpan .hashing "gemini-pro" (cachedSplit thoughts) .geminiCli
      (geminiResponseSpan thoughts) := by
  have mapped : (GeminiCli.mapLog .hashing { serviceName := some GeminiCli.serviceName }
      (geminiResponse thoughts) (some "gemini_cli.api_response") {} ∅).1 =
      .span (geminiResponseSpan thoughts) := rfl
  refine CallSpan.geminiCli mapped ?_ ?_ ?_ ?_
  · rw [geminiResponseSpan, GeminiCli.llmSpan, name_finish]
  · unfold Plain Absent
    rcases counted with rfl | rfl <;> decide
  · rfl
  · rcases counted with rfl | rfl <;> constructor <;> decide

/-- With 30 thoughts each token is charged once; with 20, as many as came from the cache, it would
have to be that there are no thoughts or no text. -/
theorem priced_as_reported_iff_geminiResponse :
    (∀ table key price, PriceTable.lookup table "gemini-pro" = some (key, price) →
      ∃ d, derive Deps.hashing.float table (geminiResponseSpan 30) = some d ∧
        d.cost = costOf Deps.hashing.float price (cachedSplit 30).quantities ∧
        exactCost price (geminiResponseSpan 30).tokens d.basis = (cachedSplit 30).exactCost price) ∧
    ((∀ table key price, PriceTable.lookup table "gemini-pro" = some (key, price) →
      ∃ d, derive Deps.hashing.float table (geminiResponseSpan 20) = some d ∧
        d.cost = costOf Deps.hashing.float price (cachedSplit 20).quantities ∧
        exactCost price (geminiResponseSpan 20).tokens d.basis = (cachedSplit 20).exactCost price) ↔
      (CodingAgent.geminiCli = .geminiCli → (cachedSplit 20).cacheRead ≠ (cachedSplit 20).reasoning ∨
        (cachedSplit 20).reasoning = 0 ∨ (cachedSplit 20).textOut = 0)) := by
  refine ⟨?_, priced_as_reported_iff (callSpan_geminiResponse (.inl rfl)) (by decide)⟩
  exact (priced_as_reported_iff (callSpan_geminiResponse (.inr rfl)) (by decide)).mpr
    (fun _ => .inl (by decide))

/-- Its 20 thoughts are taken off its 50 tokens of text. -/
theorem geminiResponse_mispriced :
    ¬ ∀ table key price, PriceTable.lookup table "gemini-pro" = some (key, price) →
      ∃ d, derive Deps.hashing.float table (geminiResponseSpan 20) = some d ∧
        d.cost = costOf Deps.hashing.float price (cachedSplit 20).quantities ∧
        exactCost price (geminiResponseSpan 20).tokens d.basis =
          (cachedSplit 20).exactCost price := by
  intro priced
  obtain ⟨price, wrong⟩ :=
    (callSpan_geminiResponse (.inl rfl)).mispriced (by decide) (by decide) (by decide) (by decide)
  obtain ⟨d, found, -, exact⟩ :=
    priced (onePrice "gemini-pro" price) "gemini-pro" price (lookup_onePrice _ price)
  exact wrong d found exact

end Evald.Logs
