import Evald.Basis
import Evald.Encodings
import Evald.Sessions
import Evald.Usage

/-! # Sums of token counts

A count is a `u64`, and so is every sum of counts.  The additions of a function are listed
with their operands; one that does not fit wraps (or panics, in a debug build).  Along a
list of spans they all fit exactly where the counts of each span fit together and each count
adds up over the spans (`additions_fit_iff`).
-/

namespace Evald.Overflow

open Evald.Lib Evald.Otlp Evald.Normalize Evald.Pricing

/-- The operands of an addition. -/
abbrev Addition := Nat × Nat

def Fits (x : Addition) : Prop := x.1 + x.2 < 2 ^ 64

/-! ## The additions of each function -/

/-- `normalize_span`: the total of the parts. -/
def normalizeAdditions (t : Tokens) : List Addition :=
  match t.total, t.prompt, t.completion with
  | none, some p, some c => [(p, c)]
  | _, _, _ => []

/-- The last comparison of `detect_basis` is reached. -/
def comparesBoth (extra cache reasoning : Nat) : Prop :=
  extra ≠ 0 ∧ ¬ (cache ≠ reasoning ∧ 0 < cache ∧ extra = cache) ∧
    ¬ (cache ≠ reasoning ∧ 0 < reasoning ∧ extra = reasoning) ∧ 0 < cache ∧ 0 < reasoning

instance (extra cache reasoning : Nat) : Decidable (comparesBoth extra cache reasoning) :=
  inferInstanceAs (Decidable (_ ∧ _))

def detectBasisAdditions (t : Tokens) (reportedTotal : Option Nat) : List Addition :=
  let p := t.prompt.getD 0
  let c := t.completion.getD 0
  let cr := t.cacheRead.getD 0
  let cw := t.cacheWrite.getD 0
  let r := t.reasoning.getD 0
  (cr, cw) ::
    match reportedTotal with
    | none => []
    | some total =>
      (p, c) ::
        if wrappingAdd p c ≤ total ∧ comparesBoth (total - wrappingAdd p c) (wrappingAdd cr cw) r
        then [(wrappingAdd cr cw, r)]
        else []

def priceTokensAdditions (t : Tokens) (b : Basis) : List Addition :=
  let prompt := t.prompt.getD 0
  let cr := t.cacheRead.getD 0
  let cw := t.cacheWrite.getD 0
  if b.cacheExcl then [(prompt, cr), (wrappingAdd prompt cr, cw)] else [(cr, cw)]

/-- `apply`, which only adds up the counts of a span that it prices. -/
def applyAdditions (float : Floats) (table : PriceTable) (s : NormalizedSpan) : List Addition :=
  match derive float table s with
  | none => []
  | some d =>
    detectBasisAdditions s.tokens (reportedTotal s) ++ priceTokensAdditions s.tokens d.basis

def tokenFields : List (Tokens → Option Nat) :=
  [Tokens.prompt, Tokens.completion, Tokens.total, Tokens.cacheRead, Tokens.cacheWrite,
    Tokens.reasoning]

/-- `add_tokens`, once. -/
def addTokensAdditions (acc t : Tokens) : List Addition :=
  tokenFields.flatMap (fun field =>
    match field t with
    | some v => [((field acc).getD 0, v)]
    | none => [])

/-- `add_tokens`, along the spans of a session. -/
def sessionAdditions : Tokens → List NormalizedSpan → List Addition
  | _, [] => []
  | acc, s :: rest =>
    addTokensAdditions acc s.tokens ++ sessionAdditions (Sessions.addTokens acc s.tokens) rest

/-- The counters of a series, each with the count it adds up. -/
def tokenCounters : List ((Tokens → Option Nat) × (Usage.Series → Nat)) :=
  [(Tokens.prompt, Usage.Series.inputTokens), (Tokens.completion, Usage.Series.outputTokens),
    (Tokens.cacheRead, Usage.Series.cacheRead), (Tokens.cacheWrite, Usage.Series.cacheWrite),
    (Tokens.reasoning, Usage.Series.reasoning)]

/-- The token counters of the series a span is charged to. -/
def chargeAdditions (inner : Usage.Inner) (ids : Usage.SeriesKey) (s : NormalizedSpan) :
    List Addition :=
  let full := ids ∉ inner.series.map Prod.fst ∧ Usage.maxSeries - 1 ≤ inner.series.length
  let key := if full then (0, 0, 0) else ids
  let e := ((inner.series.find? (fun entry => entry.1 = key)).map Prod.snd).getD {}
  tokenCounters.map (fun counter => (counter.2 e, (counter.1 s.tokens).getD 0))

/-- The usage counters, along the spans recorded. -/
def usageAdditions (deps : Deps) : Usage.Inner → List NormalizedSpan → List Addition
  | _, [] => []
  | inner, s :: rest =>
    let interned := Usage.internLabels inner (Usage.labelsOf s)
    (if isLlmSpan s then chargeAdditions interned.2 interned.1.1 s else []) ++
      usageAdditions deps (Usage.recordOne deps inner s) rest

/-- A span as it arrives, with its resource and scope. -/
structure Received where
  span : Span
  service : Option String := none
  scopeName : Option String := none
  scopeVersion : Option String := none

section Ingest

variable (deps : Deps) (table : PriceTable)

def Received.normalized (r : Received) : NormalizedSpan :=
  normalizeSpan deps r.span r.service r.scopeName r.scopeVersion

/-- As it is stored, counted and rolled up. -/
def Received.stored (r : Received) : NormalizedSpan := apply deps.float table (r.normalized deps)

/-- Every addition of token counts for the spans of a session, from their arrival on. -/
def additions (modelCap : Nat) (received : List Received) : List Addition :=
  received.flatMap (fun r => normalizeAdditions (reportedTokens r.span.attributes) ++
      applyAdditions deps.float table (r.normalized deps)) ++
    usageAdditions deps (Usage.Inner.new modelCap) (received.map (Received.stored deps table)) ++
    sessionAdditions {} (received.map (Received.stored deps table))

end Ingest

/-! ## The counts of one span -/

/-- The sums that are made of the counts of one span. -/
structure CountsFit (table : PriceTable) (reported : Tokens) (s : NormalizedSpan) : Prop where
  total : ∀ p c, reported.total = none → reported.prompt = some p →
    reported.completion = some c → p + c < 2 ^ 64
  cached : Priced table s → s.tokens.cacheRead.getD 0 + s.tokens.cacheWrite.getD 0 < 2 ^ 64
  counted : Priced table s → reportedTotal s ≠ none →
    s.tokens.prompt.getD 0 + s.tokens.completion.getD 0 < 2 ^ 64
  onTop : Priced table s → (detectBasis s.tokens (reportedTotal s)).cacheExcl = true →
    s.tokens.prompt.getD 0 + s.tokens.cacheRead.getD 0 + s.tokens.cacheWrite.getD 0 < 2 ^ 64
  both : ∀ total, Priced table s → reportedTotal s = some total →
    s.tokens.prompt.getD 0 + s.tokens.completion.getD 0 ≤ total →
    comparesBoth (total - (s.tokens.prompt.getD 0 + s.tokens.completion.getD 0))
      (s.tokens.cacheRead.getD 0 + s.tokens.cacheWrite.getD 0) (s.tokens.reasoning.getD 0) →
    s.tokens.cacheRead.getD 0 + s.tokens.cacheWrite.getD 0 + s.tokens.reasoning.getD 0 < 2 ^ 64

theorem normalize_fits_iff (t : Tokens) : (∀ x ∈ normalizeAdditions t, Fits x) ↔
    ∀ p c, t.total = none → t.prompt = some p → t.completion = some c → p + c < 2 ^ 64 := by
  unfold normalizeAdditions
  split
  · next p c noTotal prompt completion =>
    simp only [List.forall_mem_singleton, Fits]
    constructor
    · intro fits p' c' _ isP isC
      cases prompt.symm.trans isP
      cases completion.symm.trans isC
      exact fits
    · exact fun all => all p c noTotal prompt completion
  · next other =>
    simp only [List.not_mem_nil, false_implies, implies_true, true_iff]
    exact fun p c noTotal prompt completion => absurd completion (other p c noTotal prompt)

theorem detectBasis_fits_iff (t : Tokens) (total : Option Nat) :
    (∀ x ∈ detectBasisAdditions t total, Fits x) ↔
      t.cacheRead.getD 0 + t.cacheWrite.getD 0 < 2 ^ 64 ∧
        (total ≠ none → t.prompt.getD 0 + t.completion.getD 0 < 2 ^ 64) ∧
        ∀ n, total = some n → t.prompt.getD 0 + t.completion.getD 0 ≤ n →
          comparesBoth (n - (t.prompt.getD 0 + t.completion.getD 0))
            (t.cacheRead.getD 0 + t.cacheWrite.getD 0) (t.reasoning.getD 0) →
          t.cacheRead.getD 0 + t.cacheWrite.getD 0 + t.reasoning.getD 0 < 2 ^ 64 := by
  unfold detectBasisAdditions
  rw [List.forall_mem_cons, Fits]
  apply and_congr_right
  intro cached
  rw [wrappingAdd_of_lt cached]
  cases total with
  | none => simp
  | some n =>
    rw [List.forall_mem_cons, Fits]
    simp only [ne_eq, reduceCtorEq, not_false_eq_true, true_implies, Option.some.injEq, forall_eq']
    apply and_congr_right
    intro counted
    rw [wrappingAdd_of_lt counted]
    split
    · next reached =>
      simp only [List.forall_mem_singleton, Fits]
      exact ⟨fun fits _ _ => fits, fun all => all reached.1 reached.2⟩
    · next missed =>
      simp only [List.not_mem_nil, false_implies, implies_true, true_iff]
      exact fun enough both => absurd ⟨enough, both⟩ missed

theorem priceTokens_fits_iff (t : Tokens) (b : Basis) :
    (∀ x ∈ priceTokensAdditions t b, Fits x) ↔
      if b.cacheExcl then
        t.prompt.getD 0 + t.cacheRead.getD 0 + t.cacheWrite.getD 0 < 2 ^ 64
      else t.cacheRead.getD 0 + t.cacheWrite.getD 0 < 2 ^ 64 := by
  unfold priceTokensAdditions
  cases b.cacheExcl with
  | false => simp [Fits]
  | true =>
    simp only [if_true, List.forall_mem_cons, List.not_mem_nil, false_implies, implies_true,
      and_true, Fits]
    constructor
    · intro both
      rw [wrappingAdd_of_lt both.1] at both
      exact both.2
    · intro whole
      have first : t.prompt.getD 0 + t.cacheRead.getD 0 < 2 ^ 64 := by omega
      rw [wrappingAdd_of_lt first]
      exact ⟨first, whole⟩

theorem received_fits_iff (float : Floats) (table : PriceTable) (reported : Tokens)
    (s : NormalizedSpan) :
    (∀ x ∈ normalizeAdditions reported ++ applyAdditions float table s, Fits x) ↔
      CountsFit table reported s := by
  rw [List.forall_mem_append, normalize_fits_iff]
  by_cases priced : Priced table s
  · obtain ⟨key, price, derived, -⟩ := derive_of_priced float priced
    unfold applyAdditions
    rw [derived]
    simp only
    rw [List.forall_mem_append, detectBasis_fits_iff, priceTokens_fits_iff]
    constructor
    · intro ⟨total, ⟨cached, counted, both⟩, onTop⟩
      refine ⟨total, fun _ => cached, fun _ => counted, fun _ excl => ?_, fun n _ => both n⟩
      rwa [if_pos excl] at onTop
    · intro fit
      refine ⟨fit.total, ⟨fit.cached priced, fit.counted priced, fun n => fit.both n priced⟩, ?_⟩
      split
      · next excl => exact fit.onTop priced excl
      · exact fit.cached priced
  · have none := derive_eq_none float priced
    unfold applyAdditions
    rw [none]
    simp only [List.not_mem_nil, false_implies, implies_true, and_true]
    constructor
    · exact fun total => ⟨total, fun p => absurd p priced, fun p => absurd p priced,
        fun p => absurd p priced, fun _ p => absurd p priced⟩
    · exact fun fit => fit.total

/-! ## The counts of all spans -/

/-- What a count adds up to over spans. -/
def sumOf (field : Tokens → Option Nat) (spans : List NormalizedSpan) : Nat :=
  (spans.map (fun s => (field s.tokens).getD 0)).sum

theorem field_addTokens {field : Tokens → Option Nat} (isField : field ∈ tokenFields)
    (acc t : Tokens) : field (Sessions.addTokens acc t) = Sessions.addCount (field acc) (field t) := by
  simp only [tokenFields, List.mem_cons, List.not_mem_nil, or_false] at isField
  obtain rfl | rfl | rfl | rfl | rfl | rfl := isField
  all_goals rfl

theorem addTokens_fits_iff (acc t : Tokens) : (∀ x ∈ addTokensAdditions acc t, Fits x) ↔
    ∀ field ∈ tokenFields, ∀ v, field t = some v → (field acc).getD 0 + v < 2 ^ 64 := by
  unfold addTokensAdditions
  simp only [List.mem_flatMap, forall_exists_index, and_imp]
  constructor
  · intro all field isField v counted
    apply all ((field acc).getD 0, v) field isField
    simp [counted]
  · intro all x field isField listed
    cases counted : field t with
    | none => simp [counted] at listed
    | some v =>
      simp only [counted, List.mem_singleton] at listed
      rw [listed]
      exact all field isField v counted

theorem addCount_of_fits {acc t : Option Nat} (small : acc.getD 0 < 2 ^ 64)
    (fits : ∀ v, t = some v → acc.getD 0 + v < 2 ^ 64) :
    (Sessions.addCount acc t).getD 0 = acc.getD 0 + t.getD 0 ∧
      acc.getD 0 + t.getD 0 < 2 ^ 64 := by
  cases t with
  | none => exact ⟨rfl, small⟩
  | some v => exact ⟨wrappingAdd_of_lt (fits v rfl), fits v rfl⟩

/-- Sums only grow, so that the last one decides. -/
theorem session_fits_iff (acc : Tokens) (small : ∀ field ∈ tokenFields, (field acc).getD 0 < 2 ^ 64)
    (spans : List NormalizedSpan) : (∀ x ∈ sessionAdditions acc spans, Fits x) ↔
      ∀ field ∈ tokenFields, (field acc).getD 0 + sumOf field spans < 2 ^ 64 := by
  induction spans generalizing acc with
  | nil =>
    simp only [sessionAdditions, List.not_mem_nil, false_implies, implies_true, true_iff, sumOf,
      List.map_nil, List.sum_nil, Nat.add_zero]
    exact small
  | cons s spans inductionHypothesis =>
    unfold sessionAdditions
    rw [List.forall_mem_append, addTokens_fits_iff]
    -- the totals after this span, where its own additions fit
    have next (fits : ∀ field ∈ tokenFields, ∀ v, field s.tokens = some v →
        (field acc).getD 0 + v < 2 ^ 64) (field) (isField : field ∈ tokenFields) :
        (field (Sessions.addTokens acc s.tokens)).getD 0 =
            (field acc).getD 0 + (field s.tokens).getD 0 ∧
          (field acc).getD 0 + (field s.tokens).getD 0 < 2 ^ 64 := by
      rw [field_addTokens isField]
      exact addCount_of_fits (small field isField) (fits field isField)
    have total (field : Tokens → Option Nat) :
        sumOf field (s :: spans) = (field s.tokens).getD 0 + sumOf field spans := by
      simp [sumOf]
    constructor
    · intro ⟨fits, later⟩ field isField
      have small' : ∀ field ∈ tokenFields,
          (field (Sessions.addTokens acc s.tokens)).getD 0 < 2 ^ 64 := by
        intro field isField
        rw [(next fits field isField).1]
        exact (next fits field isField).2
      have whole := (inductionHypothesis _ small').mp later field isField
      rw [(next fits field isField).1] at whole
      rw [total]
      omega
    · intro whole
      have fits : ∀ field ∈ tokenFields, ∀ v, field s.tokens = some v →
          (field acc).getD 0 + v < 2 ^ 64 := by
        intro field isField v counted
        have sum := whole field isField
        rw [total, counted] at sum
        simp only [Option.getD_some] at sum
        omega
      refine ⟨fits, (inductionHypothesis _ ?_).mpr ?_⟩
      · intro field isField
        rw [(next fits field isField).1]
        exact (next fits field isField).2
      · intro field isField
        have sum := whole field isField
        rw [total] at sum
        rw [(next fits field isField).1]
        omega

/-! ## The usage counters -/

/-- What a counter holds over all series. -/
def held (counter : Usage.Series → Nat) (inner : Usage.Inner) : Nat :=
  (inner.series.map (fun entry => counter entry.2)).sum

theorem tokenCounters_field {counter : (Tokens → Option Nat) × (Usage.Series → Nat)}
    (isCounter : counter ∈ tokenCounters) : counter.1 ∈ tokenFields := by
  simp only [tokenCounters, List.mem_cons, List.not_mem_nil, or_false] at isCounter
  obtain rfl | rfl | rfl | rfl | rfl := isCounter
  all_goals simp [tokenFields]

theorem counter_add {counter : (Tokens → Option Nat) × (Usage.Series → Nat)}
    (isCounter : counter ∈ tokenCounters) (deps : Deps) (e : Usage.Series) (s : NormalizedSpan) :
    counter.2 (e.add deps s) = wrappingAdd (counter.2 e) ((counter.1 s.tokens).getD 0) := by
  simp only [tokenCounters, List.mem_cons, List.not_mem_nil, or_false] at isCounter
  obtain rfl | rfl | rfl | rfl | rfl := isCounter
  all_goals rfl

theorem counter_empty {counter : (Tokens → Option Nat) × (Usage.Series → Nat)}
    (isCounter : counter ∈ tokenCounters) : counter.2 {} = 0 := by
  simp only [tokenCounters, List.mem_cons, List.not_mem_nil, or_false] at isCounter
  obtain rfl | rfl | rfl | rfl | rfl := isCounter
  all_goals rfl

theorem wrappingAdd_le (a b : Nat) : wrappingAdd a b ≤ a + b := Nat.mod_le _ _

section Counters

variable {counter : (Tokens → Option Nat) × (Usage.Series → Nat)} {inner : Usage.Inner}

/-- A span adds its count at most. -/
theorem held_charge_le (isCounter : counter ∈ tokenCounters) (deps : Deps) (inner : Usage.Inner)
    (ids : Usage.SeriesKey) (folded : Bool) (s : NormalizedSpan) :
    held counter.2 (Usage.charge deps inner ids folded s) ≤
      held counter.2 inner + (counter.1 s.tokens).getD 0 := by
  apply sum_upsert_le (counter_empty isCounter)
  intro e
  rw [counter_add isCounter]
  exact wrappingAdd_le _ _

theorem held_recordOne_le (isCounter : counter ∈ tokenCounters) (deps : Deps)
    (inner : Usage.Inner) (s : NormalizedSpan) :
    held counter.2 (Usage.recordOne deps inner s) ≤
      held counter.2 inner + (counter.1 s.tokens).getD 0 := by
  obtain same | ⟨labelled, ids, folded, same, charged⟩ := Usage.recordOne_series deps inner s
  · unfold held
    rw [same]
    omega
  · rw [charged]
    have added := held_charge_le isCounter deps labelled ids folded s
    unfold held at added ⊢
    rwa [same] at added

/-- A series holds no more than all of them. -/
theorem entry_le_held (starts : counter.2 {} = 0) (inner : Usage.Inner) (key : Usage.SeriesKey) :
    counter.2 (((inner.series.find? (fun entry => entry.1 = key)).map Prod.snd).getD {}) ≤
      held counter.2 inner := by
  cases found : inner.series.find? (fun entry => entry.1 = key) with
  | none =>
    simp only [Option.map_none, Option.getD_none, starts]
    omega
  | some entry =>
    have listed := List.mem_of_find?_eq_some found
    exact List.le_sum_of_mem (List.mem_map_of_mem listed)

/-- The counters fit where each count adds up over all spans recorded. -/
theorem usage_fits (deps : Deps) (spans : List NormalizedSpan)
    (fits : ∀ counter ∈ tokenCounters, held counter.2 inner + sumOf counter.1 spans < 2 ^ 64) :
    ∀ x ∈ usageAdditions deps inner spans, Fits x := by
  induction spans generalizing inner with
  | nil => simp [usageAdditions]
  | cons s spans inductionHypothesis =>
    unfold usageAdditions
    rw [List.forall_mem_append]
    have total (field : Tokens → Option Nat) :
        sumOf field (s :: spans) = (field s.tokens).getD 0 + sumOf field spans := by
      simp [sumOf]
    constructor
    · split
      · intro x listed
        obtain ⟨counter, isCounter, isAddition⟩ := List.mem_map.mp listed
        rw [← isAddition]
        have whole := fits counter isCounter
        rw [total] at whole
        -- interning leaves the series as they are
        have entry := entry_le_held (counter_empty isCounter)
          (Usage.internLabels inner (Usage.labelsOf s)).2
        have same : held counter.2 (Usage.internLabels inner (Usage.labelsOf s)).2 =
            held counter.2 inner := rfl
        rw [same] at entry
        exact Nat.lt_of_le_of_lt (Nat.add_le_add_right (entry _) _) (by omega)
      · simp
    · apply inductionHypothesis
      intro counter isCounter
      have whole := fits counter isCounter
      have grown := held_recordOne_le isCounter deps inner s
      rw [total] at whole
      omega

end Counters

/-! ## All additions -/

theorem held_new (counter : Usage.Series → Nat) (modelCap : Nat) :
    held counter (Usage.Inner.new modelCap) = 0 := rfl

/-- Every addition fits exactly where those of each span do and every count adds up over the
spans: the three coercions admit counts up to `2 ^ 64 - 1` each, and nothing bounds a sum. -/
theorem additions_fit_iff (deps : Deps) (table : PriceTable) (modelCap : Nat)
    (received : List Received) :
    (∀ x ∈ additions deps table modelCap received, Fits x) ↔
      (∀ r ∈ received,
        CountsFit table (reportedTokens r.span.attributes) (r.normalized deps)) ∧
      ∀ field ∈ tokenFields, sumOf field (received.map (Received.stored deps table)) < 2 ^ 64 := by
  -- what a span adds on its own depends on no other span
  have each : (∀ x ∈ received.flatMap (fun r =>
        normalizeAdditions (reportedTokens r.span.attributes) ++
          applyAdditions deps.float table (r.normalized deps)), Fits x) ↔
      ∀ r ∈ received,
        CountsFit table (reportedTokens r.span.attributes) (r.normalized deps) := by
    simp only [List.mem_flatMap, forall_exists_index, and_imp, ← received_fits_iff deps.float]
    exact ⟨fun all r isReceived x listed => all x r isReceived listed,
      fun all x r isReceived listed => all r isReceived x listed⟩
  have session := session_fits_iff {} (by simp [tokenFields])
    (received.map (Received.stored deps table))
  unfold additions
  rw [List.forall_mem_append, List.forall_mem_append, each, session]
  constructor
  · intro ⟨⟨counts, _⟩, sums⟩
    refine ⟨counts, ?_⟩
    intro field isField
    have sum := sums field isField
    omega
  · intro ⟨counts, sums⟩
    refine ⟨⟨counts, usage_fits deps _ ?_⟩, ?_⟩
    · intro counter isCounter
      rw [held_new, Nat.zero_add]
      exact sums counter.1 (tokenCounters_field isCounter)
    · intro field isField
      have none : (field {}).getD 0 = 0 := by
        simp only [tokenFields, List.mem_cons, List.not_mem_nil, or_false] at isField
        obtain rfl | rfl | rfl | rfl | rfl | rfl := isField
        all_goals rfl
      rw [none, Nat.zero_add]
      exact sums field isField

/-- A call that reports the largest input count, as a string, and one output token. -/
def wideCall : Received :=
  { span :=
      { attributes :=
          [⟨"gen_ai.usage.input_tokens", some (.string "18446744073709551615")⟩,
            ⟨"gen_ai.usage.output_tokens", some (.int 1)⟩] } }

/-- Its derived total is beyond 64 bits. -/
theorem derived_total_overflows :
    ∃ x ∈ additions exactHost oneModel 500 [wideCall], ¬ Fits x := by
  have derived : normalizeAdditions (reportedTokens wideCall.span.attributes) =
      [(18446744073709551615, 1)] := by decide
  refine ⟨(18446744073709551615, 1), ?_, ?_⟩
  · unfold additions
    rw [List.flatMap_singleton, derived]
    simp
  · show ¬ (18446744073709551615 + 1 : Nat) < 2 ^ 64
    omega

end Evald.Overflow
