import Evald.Attributes
import Evald.Price

/-! # A count in another encoding

The normalizer reads a count from an integer, a whole double or a decimal string
(`countOf`).  Another encoding of a count changes nothing but the copy of its attribute;
the total that the basis is detected by is read from that copy, and only from an integer.
So a price depends on the encoding where the totals shown before and after are different sums
of the counts (`pricing_reencoded_iff`).
-/

namespace Evald.Pricing

open Evald.Lib Evald.Otlp Evald.Normalize

/-- The attributes that counts are read from. -/
def countKeys : List String :=
  ["llm.token_count.prompt", "gen_ai.usage.input_tokens", "gen_ai.usage.prompt_tokens",
    "llm.token_count.completion", "gen_ai.usage.output_tokens",
    "gen_ai.usage.completion_tokens", "llm.token_count.total", "gen_ai.usage.total_tokens",
    "llm.token_count.prompt_details.cache_read", "gen_ai.usage.cache_read.input_tokens",
    "llm.token_count.prompt_details.cache_write", "gen_ai.usage.cache_creation.input_tokens",
    "gen_ai.usage.cache_write.input_tokens", "llm.token_count.completion_details.reasoning",
    "gen_ai.usage.reasoning_tokens", "gen_ai.usage.reasoning.output_tokens"]

/-- A value as a count. -/
def countOf : AnyValue → Option Nat
  | .int i => if 0 ≤ i then some i.toNat else none
  | .double d => d.toU64?
  | .string s => parseU64 s
  | _ => none

theorem attrU64_eq (attrs : List KeyValue) (key : String) :
    attrU64 attrs key = (attr attrs key).bind countOf := by
  unfold attrU64
  cases attr attrs key with
  | none => rfl
  | some v => cases v <;> rfl

/-- The same attribute, or a count in another encoding. -/
inductive Recounted : KeyValue → KeyValue → Prop
  | same (kv : KeyValue) : Recounted kv kv
  | count {key : String} {v v' : AnyValue} {n : Nat} (isCount : key ∈ countKeys)
      (reads : countOf v = some n) (reads' : countOf v' = some n) :
      Recounted (.mk key (some v)) (.mk key (some v'))

/-- Any of the counts in another encoding. -/
def Reencoded : List KeyValue → List KeyValue → Prop := List.Forall₂ Recounted

namespace Reencoded

variable {attrs attrs' : List KeyValue}

theorem keys (same : Reencoded attrs attrs') :
    attrs'.map KeyValue.key = attrs.map KeyValue.key := by
  induction same with
  | nil => rfl
  | cons recounted _ inductionHypothesis =>
    rw [List.map_cons, List.map_cons, inductionHypothesis]
    cases recounted with
    | same => rfl
    | count => rfl

/-- What only looks at the keys. -/
theorem any_key (same : Reencoded attrs attrs') (p : String → Bool) :
    attrs'.any (fun kv => p kv.key) = attrs.any (fun kv => p kv.key) := by
  have mapped (l : List KeyValue) : l.any (fun kv => p kv.key) = (l.map KeyValue.key).any p := by
    rw [List.any_map]
    rfl
  rw [mapped, mapped, same.keys]

/-- Outside the counts nothing changes. -/
theorem outside (same : Reencoded attrs attrs') :
    outside countKeys attrs' = outside countKeys attrs := by
  induction same with
  | nil => rfl
  | cons recounted _ inductionHypothesis =>
    unfold Normalize.outside at inductionHypothesis ⊢
    cases recounted with
    | same => rw [List.filter_cons, List.filter_cons, inductionHypothesis]
    | count isCount _ _ =>
      rw [List.filter_cons_of_neg (by simp [isCount]), List.filter_cons_of_neg (by simp [isCount]),
        inductionHypothesis]

/-- Every count is read as before. -/
theorem attrU64 (same : Reencoded attrs attrs') (key : String) :
    attrU64 attrs' key = attrU64 attrs key := by
  rw [attrU64_eq, attrU64_eq]
  unfold attr
  induction same with
  | nil => rfl
  | @cons kv kv' _ _ recounted _ inductionHypothesis =>
    have sameKey : kv'.key = kv.key := by cases recounted <;> rfl
    by_cases here : kv.key = key
    · rw [List.find?_cons_of_pos (by simp [sameKey, here]), List.find?_cons_of_pos (by simp [here])]
      cases recounted with
      | same => rfl
      | count _ reads reads' => simp [reads, reads']
    · rw [List.find?_cons_of_neg (by simp [sameKey, here]), List.find?_cons_of_neg (by simp [here])]
      exact inductionHypothesis

variable (deps : Deps)

theorem attrStr (same : Reencoded attrs attrs') {key : String} (other : key ∉ countKeys) :
    attrStr deps attrs' key = attrStr deps attrs key := by
  rw [← attrStr_outside deps attrs' other, same.outside, attrStr_outside deps attrs other]

theorem firstStr (same : Reencoded attrs attrs') (keys : List String)
    (others : ∀ key ∈ keys, key ∉ countKeys) :
    firstStr deps attrs' keys = firstStr deps attrs keys := by
  rw [← firstStr_outside deps attrs' others, same.outside, firstStr_outside deps attrs others]

theorem firstF64 (same : Reencoded attrs attrs') (keys : List String)
    (others : ∀ key ∈ keys, key ∉ countKeys) :
    firstF64 deps attrs' keys = firstF64 deps attrs keys := by
  rw [← firstF64_outside deps attrs' others, same.outside, firstF64_outside deps attrs others]

theorem firstU64 (same : Reencoded attrs attrs') (keys : List String) :
    firstU64 attrs' keys = firstU64 attrs keys := by
  unfold Normalize.firstU64
  congr 1
  funext key
  exact same.attrU64 key

theorem getElem?_rawAttributes (same : Reencoded attrs attrs') {key : String}
    (other : key ∉ countKeys) :
    (rawAttributes attrs')[key]? = (rawAttributes attrs)[key]? := by
  rw [← getElem?_rawAttributes_outside other attrs', same.outside,
    getElem?_rawAttributes_outside other attrs]

/-- No count is part of a message. -/
theorem indexedMessages (same : Reencoded attrs attrs') (kind : String)
    (noCount : ∀ key ∈ countKeys, stripPrefix key ("gen_ai." ++ kind ++ ".") = none) :
    indexedMessages deps attrs' kind = indexedMessages deps attrs kind := by
  have indexed (byIndex : Messages) :
      attrs'.foldl (indexMessage deps ("gen_ai." ++ kind ++ ".")) byIndex =
        attrs.foldl (indexMessage deps ("gen_ai." ++ kind ++ ".")) byIndex := by
    induction same generalizing byIndex with
    | nil => rfl
    | cons recounted _ inductionHypothesis =>
      rw [List.foldl_cons, List.foldl_cons]
      cases recounted with
      | same => exact inductionHypothesis _
      | count isCount _ _ =>
        rw [inductionHypothesis]
        congr 1
        unfold indexMessage
        simp [noCount _ isCount]
  unfold Normalize.indexedMessages
  rw [indexed]

theorem inferOiKind (same : Reencoded attrs attrs') :
    inferOiKind deps attrs' = inferOiKind deps attrs := by
  unfold Normalize.inferOiKind operationKind hasGenaiCall
  rw [same.attrStr deps (show "gen_ai.operation.name" ∉ countKeys by decide),
    same.attrStr deps (show "mcp.method.name" ∉ countKeys by decide), same.any_key isGenaiCallKey,
    same.any_key (fun key => startsWith key "gen_ai.tool.")]

theorem detectDialect (same : Reencoded attrs attrs') :
    detectDialect attrs' = detectDialect attrs := by
  unfold Normalize.detectDialect
  rw [same.any_key (fun key => key = "openinference.span.kind" || startsWith key "llm." ||
    startsWith key "openinference."), same.any_key (fun key => startsWith key "gen_ai.")]

end Reencoded

/-! ## Spans that differ in the copies of counts -/

/-- The same span but for the copies of its counts. -/
structure CountsApart (s s' : NormalizedSpan) : Prop where
  rest : s' = { s with rawAttributes := s'.rawAttributes }
  kept : ∀ key ∉ countKeys, s'.rawAttributes[key]? = s.rawAttributes[key]?

theorem readSpan_apart (deps : Deps) {span : Span} {attributes : List KeyValue}
    (same : Reencoded span.attributes attributes) (service scope version : Option String) :
    CountsApart (readSpan deps span service scope version)
      (readSpan deps { span with attributes := attributes } service scope version) := by
  constructor
  · unfold readSpan
    simp only [reportedTokens, same.detectDialect, same.inferOiKind, same.firstU64,
      same.attrStr deps (show "openinference.span.kind" ∉ countKeys by decide),
      same.firstStr deps ["gen_ai.response.model", "gen_ai.request.model", "llm.model_name"]
        (by decide),
      same.firstStr deps ["gen_ai.provider.name", "gen_ai.system", "llm.provider", "llm.system"]
        (by decide),
      same.firstStr deps ["input.value", "gen_ai.input.messages", "gen_ai.prompt"]
        (by decide),
      same.firstStr deps ["output.value", "gen_ai.output.messages", "gen_ai.completion"]
        (by decide),
      same.firstStr deps ["session.id", "gen_ai.conversation.id"] (by decide),
      same.firstStr deps ["user.id"] (by decide),
      same.firstF64 deps costAttributes (by decide),
      same.indexedMessages deps "prompt" (by decide),
      same.indexedMessages deps "completion" (by decide)]
  · intro key other
    exact same.getElem?_rawAttributes other

namespace CountsApart

variable {s s' : NormalizedSpan}

theorem canonical (apart : CountsApart s s') (keys : List String)
    (others : ∀ key ∈ keys, key ∉ countKeys) :
    CountsApart (Agent.canonical keys s) (Agent.canonical keys s') := by
  cases keys with
  | nil => exact apart
  | cons key aliases =>
    have held : s'.rawAttributes.contains key = s.rawAttributes.contains key := by
      rw [Std.ExtTreeMap.contains_eq_isSome_getElem?, Std.ExtTreeMap.contains_eq_isSome_getElem?,
        apart.kept key (others key List.mem_cons_self)]
    have found : aliases.findSome? (fun k => (s'.rawAttributes[k]?).filter Json.isString) =
        aliases.findSome? (fun k => (s.rawAttributes[k]?).filter Json.isString) := by
      have shown : ∀ k ∈ aliases, s'.rawAttributes[k]? = s.rawAttributes[k]? :=
        fun k member => apart.kept k (others k (List.mem_cons_of_mem _ member))
      clear others held
      induction aliases with
      | nil => rfl
      | cons k rest inductionHypothesis =>
        rw [List.findSome?_cons, List.findSome?_cons, shown k List.mem_cons_self,
          inductionHypothesis (fun k member => shown k (List.mem_cons_of_mem _ member))]
    simp only [Agent.canonical, held, found]
    split
    · exact apart
    · split
      · constructor
        · rw [apart.rest]
        · intro k other
          simp only [getElem?_insert_if, apart.kept k other]
      · exact apart

theorem setAside (apart : CountsApart s s') (why : String) :
    CountsApart (Agent.setAside why s) (Agent.setAside why s') := by
  constructor
  · rw [apart.rest]
    rfl
  · intro key other
    simp only [Agent.setAside, getElem?_insert_if, apart.kept key other]

/-- The pass over tools and agents reads no count's copy. -/
theorem normalize (apart : CountsApart s s') :
    CountsApart (Agent.normalize s) (Agent.normalize s') := by
  have tools := (apart.canonical Agent.toolNameKeys (by decide)).canonical
    Agent.toolCallIdKeys (by decide)
  have agents := (apart.canonical Agent.agentNameKeys (by decide)).canonical
    Agent.agentIdKeys (by decide)
  have kind : s'.oiKind = s.oiKind := by rw [apart.rest]
  unfold Agent.normalize
  rw [kind]
  cases s.oiKind with
  | none => exact apart
  | some k =>
    simp only
    generalize Agent.canonical Agent.agentIdKeys (Agent.canonical Agent.agentNameKeys s) = a
      at agents ⊢
    generalize Agent.canonical Agent.agentIdKeys (Agent.canonical Agent.agentNameKeys s') = a'
      at agents ⊢
    have usage : (a'.otelKind ≠ Agent.spanKindClient &&
        (!a'.tokens.isEmpty || a'.costUsd.isSome)) =
        (a.otelKind ≠ Agent.spanKindClient && (!a.tokens.isEmpty || a.costUsd.isSome)) := by
      rw [agents.rest]
    rw [usage]
    split
    · exact tools
    · split
      · split
        · exact agents.setAside Agent.usageAggregate
        · exact agents
      · exact apart

theorem hasCostAttribute_eq (apart : CountsApart s s') :
    hasCostAttribute s' = hasCostAttribute s := by
  unfold hasCostAttribute costAttributes
  simp only [Std.ExtTreeMap.contains_eq_isSome_getElem?, List.any_cons, List.any_nil,
    apart.kept "llm.cost.total" (by decide), apart.kept "gen_ai.usage.cost" (by decide)]

end CountsApart

/-! ## What is derived -/

/-- A cost is derived for the span. -/
structure Priced (table : PriceTable) (s : NormalizedSpan) : Prop where
  noCost : s.costUsd = none
  counted : s.tokens.prompt.isSome ∨ s.tokens.completion.isSome
  inTable : ∃ m, s.model = some m ∧ (table.lookup m).isSome
  unreported : hasCostAttribute s = false

variable {float : Floats} {table : PriceTable}

variable (float) in
/-- A span with a derived cost is priced by the table's entry for its model. -/
theorem derive_of_priced {s : NormalizedSpan} (priced : Priced table s) :
    ∃ key price, derive float table s = some
      { cost := priceTokens float price s.tokens (detectBasis s.tokens (reportedTotal s))
        model := key
        basis := detectBasis s.tokens (reportedTotal s) } ∧
      ∃ m, s.model = some m ∧ table.lookup m = some (key, price) := by
  obtain ⟨m, model, listed⟩ := priced.inTable
  obtain ⟨⟨key, price⟩, found⟩ := Option.isSome_iff_exists.mp listed
  refine ⟨key, price, ?_, m, model, found⟩
  have counted : (s.tokens.prompt.isNone && s.tokens.completion.isNone) = false := by
    cases priced.counted with
    | inl present => rw [Option.isNone_eq_false_iff.mpr present, Bool.false_and]
    | inr present => rw [Option.isNone_eq_false_iff.mpr present, Bool.and_false]
  simp [derive, priced.noCost, model, counted, found, priced.unreported]

variable (float) in
theorem derive_eq_none {s : NormalizedSpan} (unpriced : ¬ Priced table s) :
    derive float table s = none := by
  unfold derive
  split
  · rfl
  next noCost =>
  split
  · rfl
  next m model =>
  split
  · rfl
  next counted =>
  split
  · rfl
  next found =>
  split
  · rfl
  next unreported =>
  simp only [Bool.and_eq_true, Option.isNone_iff_eq_none, not_and, ← ne_eq,
    ← Option.isSome_iff_ne_none] at counted
  refine absurd ⟨by simpa using noCost, ?_, ⟨m, model, by simp [found]⟩, by simpa using unreported⟩
    unpriced
  cases prompt : s.tokens.prompt with
  | none => exact .inr (counted prompt)
  | some p => exact .inl rfl

theorem stamp_inj {b b' : Basis} (same : b.stamp = b'.stamp) : b = b' := by
  obtain ⟨excl, add⟩ := b
  obtain ⟨excl', add'⟩ := b'
  revert same
  cases excl <;> cases add <;> cases excl' <;> cases add' <;> decide

/-- The cost of a span and the basis stamped on it. -/
def pricing (s : NormalizedSpan) : Option F64 × Option Json :=
  (s.costUsd, s.rawAttributes[basisKey]?)

variable (float) in
theorem pricing_of_priced {s : NormalizedSpan} (priced : Priced table s) :
    ∃ price, (∃ m key, s.model = some m ∧ table.lookup m = some (key, price)) ∧
      pricing (apply float table s) =
        (some (priceTokens float price s.tokens (detectBasis s.tokens (reportedTotal s))),
          (detectBasis s.tokens (reportedTotal s)).stamp.map Json.str) := by
  obtain ⟨key, price, derived, m, model, found⟩ := derive_of_priced float priced
  refine ⟨price, ⟨m, key, model, found⟩, ?_⟩
  unfold apply pricing
  rw [derived]
  refine Prod.ext rfl ?_
  dsimp only
  cases (detectBasis s.tokens (reportedTotal s)).stamp with
  | none => simp
  | some stamp => simp

theorem pricing_of_unpriced {s : NormalizedSpan} (unpriced : ¬ Priced table s) :
    pricing (apply float table s) = pricing s := by
  unfold apply
  rw [derive_eq_none float unpriced]

theorem CountsApart.priced_iff {s s' : NormalizedSpan} (apart : CountsApart s s') :
    Priced table s' ↔ Priced table s := by
  have reported := apart.hasCostAttribute_eq
  constructor
  · intro priced
    obtain ⟨noCost, counted, inTable, unreported⟩ := priced
    rw [apart.rest] at noCost counted inTable
    exact ⟨noCost, counted, inTable, reported ▸ unreported⟩
  · intro priced
    have noCost : s'.costUsd = none := by rw [apart.rest]; exact priced.noCost
    have counted : s'.tokens.prompt.isSome ∨ s'.tokens.completion.isSome := by
      rw [apart.rest]; exact priced.counted
    have inTable : ∃ m, s'.model = some m ∧ (table.lookup m).isSome := by
      rw [apart.rest]; exact priced.inTable
    exact ⟨noCost, counted, inTable, reported.trans priced.unreported⟩

/-! ## What a total tells of the counts -/

section Totals

/-- The tokens written to and read from the cache. -/
def cached (t : Tokens) : Nat := wrappingAdd (t.cacheRead.getD 0) (t.cacheWrite.getD 0)

def reasoned (t : Tokens) : Nat := t.reasoning.getD 0

/-- The total is the prompt and the completion, and so many tokens beside them. -/
def Leaves (t : Tokens) (total : Option Nat) (n : Nat) : Prop :=
  total = some (wrappingAdd (t.prompt.getD 0) (t.completion.getD 0) + n)

/-- The tokens of the cache alone are beside. -/
def LeavesCached (t : Tokens) (total : Option Nat) : Prop :=
  Leaves t total (cached t) ∧ cached t ≠ 0 ∧ cached t ≠ reasoned t

def LeavesReasoned (t : Tokens) (total : Option Nat) : Prop :=
  Leaves t total (reasoned t) ∧ reasoned t ≠ 0 ∧ cached t ≠ reasoned t

/-- Both are beside, and their sum is neither of the two: it wraps around at `2 ^ 64`. -/
def LeavesBoth (t : Tokens) (total : Option Nat) : Prop :=
  Leaves t total (wrappingAdd (cached t) (reasoned t)) ∧ cached t ≠ 0 ∧ reasoned t ≠ 0 ∧
    wrappingAdd (cached t) (reasoned t) ≠ 0 ∧
    (cached t = reasoned t ∨ wrappingAdd (cached t) (reasoned t) ≠ cached t ∧
      wrappingAdd (cached t) (reasoned t) ≠ reasoned t)

/-- The cache is outside of the prompt: the total has it beside, or is no sum of the counts and
the prompt is too small for it. -/
def CacheOutside (t : Tokens) (total : Option Nat) : Prop :=
  LeavesCached t total ∨ LeavesBoth t total ∨
    ¬ Leaves t total 0 ∧ ¬ LeavesReasoned t total ∧ t.prompt.getD 0 < cached t

def ReasoningOutside (t : Tokens) (total : Option Nat) : Prop :=
  LeavesReasoned t total ∨ LeavesBoth t total

/-- The same tokens are outside under both totals. -/
def SameReading (t : Tokens) (total total' : Option Nat) : Prop :=
  (CacheOutside t total ↔ CacheOutside t total') ∧
    (ReasoningOutside t total ↔ ReasoningOutside t total')

section

variable (t : Tokens) (total total' : Option Nat) (n : Nat)

instance : Decidable (Leaves t total n) := inferInstanceAs (Decidable (_ = _))

instance : Decidable (LeavesCached t total) := inferInstanceAs (Decidable (_ ∧ _))

instance : Decidable (LeavesReasoned t total) := inferInstanceAs (Decidable (_ ∧ _))

instance : Decidable (LeavesBoth t total) := inferInstanceAs (Decidable (_ ∧ _))

instance : Decidable (CacheOutside t total) := inferInstanceAs (Decidable (_ ∨ _))

instance : Decidable (ReasoningOutside t total) := inferInstanceAs (Decidable (_ ∨ _))

instance : Decidable (SameReading t total total') := inferInstanceAs (Decidable (_ ∧ _))

end

/-- The basis of a total that says nothing. -/
theorem detectBasis_silent {t : Tokens} {total : Option Nat} (silent : ∀ n, ¬ Leaves t total n) :
    detectBasis t total =
      { cacheExcl := decide (0 < cached t) && decide (t.prompt.getD 0 < cached t) } := by
  unfold detectBasis
  cases total with
  | none => rfl
  | some k =>
    have short : ¬ wrappingAdd (t.prompt.getD 0) (t.completion.getD 0) ≤ k := by
      intro long
      refine silent (k - wrappingAdd (t.prompt.getD 0) (t.completion.getD 0)) ?_
      rw [Leaves, Option.some.injEq]
      omega
    simp only [if_neg short]
    rfl

theorem detectBasis_leaves {t : Tokens} {total : Option Nat} {n : Nat}
    (leaves : Leaves t total n) :
    detectBasis t total = (basisOfExtra n (cached t) (reasoned t)).getD
      { cacheExcl := decide (0 < cached t) && decide (t.prompt.getD 0 < cached t) } := by
  rw [Leaves] at leaves
  unfold detectBasis
  rw [leaves]
  simp only [if_pos (Nat.le_add_right _ n), Nat.add_sub_cancel_left]
  rfl

/-- What the basis of some tokens beside the counts is. -/
theorem basisOfExtra_spec (n cache reasoning wrapped prompt : Nat)
    (sum : wrappingAdd cache reasoning = wrapped) :
    let b := (basisOfExtra n cache reasoning).getD
      { cacheExcl := decide (0 < cache) && decide (prompt < cache) }
    (b.cacheExcl = true ↔
        (n = cache ∧ cache ≠ 0 ∧ cache ≠ reasoning) ∨
        (n = wrapped ∧ cache ≠ 0 ∧ reasoning ≠ 0 ∧ wrapped ≠ 0 ∧
          (cache = reasoning ∨ wrapped ≠ cache ∧ wrapped ≠ reasoning)) ∨
        n ≠ 0 ∧ ¬ (n = reasoning ∧ reasoning ≠ 0 ∧ cache ≠ reasoning) ∧ prompt < cache) ∧
      (b.reasoningAdd = true ↔
        (n = reasoning ∧ reasoning ≠ 0 ∧ cache ≠ reasoning) ∨
        (n = wrapped ∧ cache ≠ 0 ∧ reasoning ≠ 0 ∧ wrapped ≠ 0 ∧
          (cache = reasoning ∨ wrapped ≠ cache ∧ wrapped ≠ reasoning))) := by
  unfold basisOfExtra
  rw [sum]
  dsimp only
  simp only [Bool.and_eq_true, decide_eq_true_eq]
  split
  · simp only [Option.getD_some]
    grind
  split
  · simp only [Option.getD_some]
    grind
  split
  · simp only [Option.getD_some]
    grind
  split
  · simp only [Option.getD_some]
    grind
  · simp only [Option.getD_none, Bool.and_eq_true, decide_eq_true_eq]
    grind

theorem detectBasis_spec (t : Tokens) (total : Option Nat) :
    ((detectBasis t total).cacheExcl = true ↔ CacheOutside t total) ∧
      ((detectBasis t total).reasoningAdd = true ↔ ReasoningOutside t total) := by
  unfold CacheOutside ReasoningOutside LeavesCached LeavesReasoned LeavesBoth
  by_cases tells : ∃ n, Leaves t total n
  · obtain ⟨n, leaves⟩ := tells
    have same (m : Nat) : Leaves t total m ↔ n = m := by
      rw [Leaves] at leaves ⊢
      rw [leaves, Option.some.injEq]
      omega
    rw [detectBasis_leaves leaves]
    simp only [same]
    exact basisOfExtra_spec n (cached t) (reasoned t) _ (t.prompt.getD 0) rfl
  · have silent : ∀ n, ¬ Leaves t total n := fun n leaves => tells ⟨n, leaves⟩
    rw [detectBasis_silent silent]
    simp only [silent, false_and, false_or, not_false_eq_true, true_and, Bool.false_eq_true,
      Bool.and_eq_true, decide_eq_true_eq, or_self]
    exact ⟨⟨fun both => both.2, fun larger => ⟨by omega, larger⟩⟩, trivial⟩

theorem detectBasis_eq_iff {t : Tokens} {total total' : Option Nat} :
    detectBasis t total = detectBasis t total' ↔ SameReading t total total' := by
  obtain ⟨excl, adds⟩ := detectBasis_spec t total
  obtain ⟨excl', adds'⟩ := detectBasis_spec t total'
  unfold SameReading
  rw [← excl, ← adds, ← excl', ← adds', ← Bool.eq_iff_iff, ← Bool.eq_iff_iff]
  generalize detectBasis t total = b
  generalize detectBasis t total' = b'
  obtain ⟨cacheExcl, reasoningAdd⟩ := b
  obtain ⟨cacheExcl', reasoningAdd'⟩ := b'
  simp

end Totals

/-- Counts in other encodings leave the cost and the stamped basis as they are exactly where
the integers that the copies of the total show, before and after, have the same tokens outside of
the prompt and the completion. -/
theorem pricing_reencoded_iff (deps : Deps) (table : PriceTable) {span : Span}
    {attributes : List KeyValue} (same : Reencoded span.attributes attributes)
    (service scope version : Option String) :
    let s := normalizeSpan deps span service scope version
    let s' := normalizeSpan deps { span with attributes := attributes } service scope version
    pricing (apply deps.float table s') = pricing (apply deps.float table s) ↔
      (Priced table s → SameReading s.tokens (reportedTotal s') (reportedTotal s)) := by
  intro s s'
  rw [← detectBasis_eq_iff]
  have apart : CountsApart s s' := (readSpan_apart deps same service scope version).normalize
  have tokens : s'.tokens = s.tokens := by rw [apart.rest]
  by_cases priced : Priced table s
  · obtain ⟨price, ⟨m, key, model, found⟩, derived⟩ :=
      pricing_of_priced deps.float priced
    obtain ⟨price', ⟨m', key', model', found'⟩, derived'⟩ :=
      pricing_of_priced deps.float (apart.priced_iff.mpr priced)
    have sameModel : s'.model = s.model := by rw [apart.rest]
    rw [sameModel, model] at model'
    cases model'
    rw [found] at found'
    cases found'
    rw [derived, derived', tokens]
    constructor
    · intro unchanged _
      have stamps := (Prod.ext_iff.mp unchanged).2
      exact stamp_inj (Option.map_injective (fun _ _ text => Json.str.inj text) stamps)
    · intro reads
      rw [reads priced]
  · rw [pricing_of_unpriced priced, pricing_of_unpriced (fun p => priced (apart.priced_iff.mp p))]
    constructor
    · exact fun _ p => absurd p priced
    · intro _
      refine Prod.ext ?_ (apart.kept basisKey (by decide))
      show s'.costUsd = s.costUsd
      rw [apart.rest]

/-- A prompt of 60, an answer of 20, 40 tokens from the cache, and a total. -/
def cachedCall (total : AnyValue) : Span :=
  { attributes :=
      [.mk "gen_ai.request.model" (some (.string "m")),
        .mk "gen_ai.usage.input_tokens" (some (.int 60)),
        .mk "gen_ai.usage.output_tokens" (some (.int 20)),
        .mk "gen_ai.usage.cache_read.input_tokens" (some (.int 40)),
        .mk "gen_ai.usage.total_tokens" (some total)] }

def cachedCounts : Tokens :=
  { prompt := some 60, completion := some 20, total := some 120, cacheRead := some 40 }

def exactHost : Deps := { Deps.hashing with float := .exact }

/-- A dollar a token. -/
def oneModel : PriceTable :=
  { version := "v"
    models := (∅ : Std.ExtTreeMap String Price).insert "m"
      { base := { input := .finite 1, output := .finite 1 } } }

theorem reencoded_total {total total' : AnyValue} {n : Nat} (reads : countOf total = some n)
    (reads' : countOf total' = some n) :
    Reencoded (cachedCall total).attributes (cachedCall total').attributes :=
  .cons (.same _) (.cons (.same _) (.cons (.same _) (.cons (.same _) (.cons
    (.count (by decide) reads reads') .nil))))

theorem cachedCall_normalized (total : AnyValue) :
    normalizeSpan exactHost (cachedCall total) none none none =
      readSpan exactHost (cachedCall total) none none none := by
  have kind : (readSpan exactHost (cachedCall total) none none none).oiKind = some "LLM" := rfl
  unfold normalizeSpan Agent.normalize
  rw [kind]
  rfl

theorem cachedCall_reported (total : AnyValue) :
    reportedTotal (readSpan exactHost (cachedCall total) none none none) =
      (valueToJson (some total)).asU64 := by
  show List.findSome? (fun k => ((rawAttributes (cachedCall total).attributes)[k]?).bind
    Json.asU64) _ = _
  simp only [getElem?_rawAttributes, cachedCall]
  cases read : (valueToJson (some total)).asU64 <;> simp [read]

/-- What is derived for the call, by the encoding of its total. -/
theorem pricing_cachedCall {total : AnyValue}
    (counts : (readSpan exactHost (cachedCall total) none none none).tokens = cachedCounts) :
    pricing (apply .exact oneModel (normalizeSpan exactHost (cachedCall total) none none none)) =
      (some (priceTokens .exact { base := { input := .finite 1, output := .finite 1 } }
          cachedCounts (detectBasis cachedCounts (valueToJson (some total)).asU64)),
        (detectBasis cachedCounts (valueToJson (some total)).asU64).stamp.map Json.str) := by
  have listed : oneModel.lookup "m" =
      some ("m", { base := { input := .finite 1, output := .finite 1 } }) := by
    simp [PriceTable.lookup, PriceTable.find, oneModel]
  have unreported :
      hasCostAttribute (readSpan exactHost (cachedCall total) none none none) = false := by
    show List.any _ (fun k => (rawAttributes (cachedCall total).attributes).contains k) = false
    simp only [Std.ExtTreeMap.contains_eq_isSome_getElem?, getElem?_rawAttributes, cachedCall]
    simp [costAttributes]
  rw [cachedCall_normalized]
  have priced : Priced oneModel (readSpan exactHost (cachedCall total) none none none) :=
    ⟨rfl, .inl (by rw [counts]; rfl), ⟨"m", rfl, by rw [listed]; rfl⟩, unreported⟩
  obtain ⟨price, ⟨m, key, model, found⟩, derived⟩ := pricing_of_priced .exact priced
  have isM : some "m" = some m := model
  cases isM
  rw [listed] at found
  cases found
  rw [derived, counts, cachedCall_reported]

/-- A total of the prompt and the completion is the default, and so is none. -/
theorem pricing_reencoded_iff_total :
    pricing (apply .exact oneModel (normalizeSpan exactHost (cachedCall (.string "80")) none none
        none)) =
      pricing (apply .exact oneModel (normalizeSpan exactHost (cachedCall (.int 80)) none none
        none)) := by
  refine (pricing_reencoded_iff exactHost oneModel
    (reencoded_total (show countOf (.int 80) = some 80 by decide)
      (show countOf (.string "80") = some 80 by decide)) none none none).mpr ?_
  intro _
  have counts : (readSpan exactHost (cachedCall (.int 80)) none none none).tokens =
      { cachedCounts with total := some 80 } := by
    decide
  show SameReading _ (reportedTotal (normalizeSpan exactHost (cachedCall (.string "80")) none none
    none)) _
  rw [cachedCall_normalized, cachedCall_normalized, cachedCall_reported, cachedCall_reported,
    counts]
  decide

/-- The total as an integer and as a decimal string: the same counts at two prices. -/
theorem string_total_changes_price :
    Reencoded (cachedCall (.int 120)).attributes (cachedCall (.string "120")).attributes ∧
      pricing (apply .exact oneModel (normalizeSpan exactHost (cachedCall (.int 120)) none none
          none)) = (some (.finite 120), some (.str "cache_excl")) ∧
      pricing (apply .exact oneModel (normalizeSpan exactHost (cachedCall (.string "120")) none
          none none)) = (some (.finite 80), none) := by
  refine ⟨reencoded_total (show countOf (.int 120) = some 120 by decide) (by decide), ?_, ?_⟩
  · rw [pricing_cachedCall (by decide)]
    refine Prod.ext (by decide +kernel) rfl
  · rw [pricing_cachedCall (by decide)]
    refine Prod.ext (by decide +kernel) rfl

end Evald.Pricing
