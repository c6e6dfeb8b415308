import Evald.Price

/-! # Reading the counts

What is priced of a call depends on its counts and the basis they are read under only
through six quantities (`priceTokens_eq`).  The true grand total of a call says which
basis its counts are reported under (`detectBasis_recovers`).  Counts that contradict
each other can be read so that part of them is priced away (`pricedOnce_iff`).
-/

namespace Evald.Pricing

open Evald.Lib Evald.Normalize

/-- What is priced of a call. -/
structure Quantities where
  uncached : Nat
  cacheRead : Nat
  cacheWrite : Nat
  textOut : Nat
  reasoningOut : Nat
  /-- The input the tier is chosen by. -/
  totalIn : Nat
  deriving DecidableEq

def quantities (t : Tokens) (b : Basis) : Quantities :=
  let prompt := t.prompt.getD 0
  let cr := t.cacheRead.getD 0
  let cw := t.cacheWrite.getD 0
  let comp := t.completion.getD 0
  let r := t.reasoning.getD 0
  { uncached := if b.cacheExcl then prompt else prompt - wrappingAdd cr cw
    cacheRead := cr
    cacheWrite := cw
    textOut := if b.reasoningAdd then comp else comp - r
    reasoningOut := r
    totalIn := if b.cacheExcl then wrappingAdd (wrappingAdd prompt cr) cw else prompt }

def costOf (float : Floats) (p : Price) (q : Quantities) : F64 :=
  let rates := p.ratesFor q.totalIn
  let times (count : Nat) (rate : F64) := float.mul (float.ofInt count) rate
  roundUsd float
    (float.add (float.add (float.add (float.add
      (times q.uncached rates.input)
      (times q.cacheRead (rates.cacheRead.getD rates.input)))
      (times q.cacheWrite (rates.cacheWrite.getD rates.input)))
      (times q.textOut rates.output))
      (times q.reasoningOut (p.reasoning.getD rates.output)))

theorem priceTokens_eq (float : Floats) (p : Price) (t : Tokens) (b : Basis) :
    priceTokens float p t b = costOf float p (quantities t b) := by
  unfold priceTokens quantities costOf
  cases b.cacheExcl <;> rfl

/-- A rate as a rational. -/
def F64.toRat : F64 → ℚ
  | .finite q => q
  | _ => 0

/-- The cost over exact rationals. -/
def exactCost (p : Price) (t : Tokens) (b : Basis) : ℚ :=
  let q := quantities t b
  let rates := p.ratesFor q.totalIn
  q.uncached * F64.toRat rates.input +
    q.cacheRead * F64.toRat (rates.cacheRead.getD rates.input) +
    q.cacheWrite * F64.toRat (rates.cacheWrite.getD rates.input) +
    q.textOut * F64.toRat rates.output +
    q.reasoningOut * F64.toRat (p.reasoning.getD rates.output)

theorem wrappingAdd_of_lt {a b : Nat} (fits : a + b < 2 ^ 64) : wrappingAdd a b = a + b :=
  Nat.mod_eq_of_lt fits

/-! ## The basis that produced the counts -/

/-- A call, split into what it really used. -/
structure TrueSplit where
  uncached : Nat
  cacheRead : Nat
  cacheWrite : Nat
  textOut : Nat
  reasoning : Nat

def TrueSplit.cache (s : TrueSplit) : Nat := s.cacheRead + s.cacheWrite

def TrueSplit.total (s : TrueSplit) : Nat := s.uncached + s.cache + s.textOut + s.reasoning

/-- The counts of a call, as reported under a basis. -/
structure Reports (t : Tokens) (s : TrueSplit) (b : Basis) : Prop where
  prompt : t.prompt.getD 0 = s.uncached + if b.cacheExcl then 0 else s.cache
  completion : t.completion.getD 0 = s.textOut + if b.reasoningAdd then 0 else s.reasoning
  cacheRead : t.cacheRead.getD 0 = s.cacheRead
  cacheWrite : t.cacheWrite.getD 0 = s.cacheWrite
  reasoning : t.reasoning.getD 0 = s.reasoning

/-- What the total says when it is the true one: a basis is told from another exactly
where the counts it moves are not zero. -/
theorem basisOfExtra_true {cache reasoning : Nat} (b : Basis) (fits : cache + reasoning < 2 ^ 64)
    (differ : cache ≠ reasoning) :
    basisOfExtra ((if b.cacheExcl then cache else 0) + if b.reasoningAdd then reasoning else 0)
        cache reasoning =
      some { cacheExcl := b.cacheExcl && 0 < cache
             reasoningAdd := b.reasoningAdd && 0 < reasoning } := by
  obtain ⟨cacheExcl, reasoningAdd⟩ := b
  unfold basisOfExtra
  rw [wrappingAdd_of_lt fits]
  by_cases noCache : cache = 0
  · by_cases noReasoning : reasoning = 0
    · omega
    · cases cacheExcl <;> cases reasoningAdd <;> simp [noCache, noReasoning, Nat.pos_of_ne_zero]
      all_goals omega
  · by_cases noReasoning : reasoning = 0
    · cases cacheExcl <;> cases reasoningAdd <;> simp [noCache, noReasoning, Nat.pos_of_ne_zero]
    · cases cacheExcl <;> cases reasoningAdd <;>
        simp [noCache, noReasoning, differ, Ne.symm differ, Nat.pos_of_ne_zero]

theorem detectBasis_true {t : Tokens} {s : TrueSplit} {b : Basis} (reports : Reports t s b)
    (fits : s.total < 2 ^ 64) (differ : s.cache ≠ s.reasoning) :
    detectBasis t (some s.total) =
      { cacheExcl := b.cacheExcl && 0 < s.cache
        reasoningAdd := b.reasoningAdd && 0 < s.reasoning } := by
  unfold TrueSplit.total at fits
  have cache : wrappingAdd s.cacheRead s.cacheWrite = s.cache := by
    apply wrappingAdd_of_lt
    unfold TrueSplit.cache at fits
    omega
  have counted : s.uncached + (if b.cacheExcl then 0 else s.cache) +
      (s.textOut + if b.reasoningAdd then 0 else s.reasoning) ≤ s.total := by
    unfold TrueSplit.total
    split <;> split <;> omega
  have extra : s.total - (s.uncached + (if b.cacheExcl then 0 else s.cache) +
        (s.textOut + if b.reasoningAdd then 0 else s.reasoning)) =
      (if b.cacheExcl then s.cache else 0) + if b.reasoningAdd then s.reasoning else 0 := by
    unfold TrueSplit.total
    split <;> split <;> omega
  have sum : wrappingAdd (s.uncached + if b.cacheExcl then 0 else s.cache)
        (s.textOut + if b.reasoningAdd then 0 else s.reasoning) =
      s.uncached + (if b.cacheExcl then 0 else s.cache) +
        (s.textOut + if b.reasoningAdd then 0 else s.reasoning) := by
    apply wrappingAdd_of_lt
    unfold TrueSplit.total at counted
    omega
  unfold detectBasis
  simp only [reports.prompt, reports.completion, reports.cacheRead, reports.cacheWrite,
    reports.reasoning, cache, sum, if_pos counted, extra,
    basisOfExtra_true b (show s.cache + s.reasoning < 2 ^ 64 by omega) differ, Option.getD_some]

theorem quantities_recovered {t : Tokens} {s : TrueSplit} {b : Basis} (reports : Reports t s b)
    (fits : s.total < 2 ^ 64) (differ : s.cache ≠ s.reasoning) :
    quantities t (detectBasis t (some s.total)) = quantities t b := by
  rw [detectBasis_true reports fits differ]
  unfold TrueSplit.total at fits
  have cache : wrappingAdd s.cacheRead s.cacheWrite = s.cache := by
    apply wrappingAdd_of_lt
    unfold TrueSplit.cache at fits
    omega
  have whole : b.cacheExcl = true →
      wrappingAdd (wrappingAdd s.uncached s.cacheRead) s.cacheWrite = s.uncached + s.cache := by
    intro _
    unfold TrueSplit.cache at fits ⊢
    rw [wrappingAdd_of_lt (show s.uncached + s.cacheRead < 2 ^ 64 by omega),
      wrappingAdd_of_lt (by omega), Nat.add_assoc]
  -- a kind of token that is not there changes nothing, whichever way the basis counts it
  have input : (if (b.cacheExcl && decide (0 < s.cache)) = true then t.prompt.getD 0
        else t.prompt.getD 0 - s.cache) =
      if b.cacheExcl = true then t.prompt.getD 0 else t.prompt.getD 0 - s.cache := by
    cases b.cacheExcl with
    | false => rfl
    | true => cases Nat.eq_zero_or_pos s.cache with
      | inl none => simp [none]
      | inr some => simp [some]
  have totalIn : (if (b.cacheExcl && decide (0 < s.cache)) = true then
        wrappingAdd (wrappingAdd (t.prompt.getD 0) s.cacheRead) s.cacheWrite
        else t.prompt.getD 0) =
      if b.cacheExcl = true then wrappingAdd (wrappingAdd (t.prompt.getD 0) s.cacheRead) s.cacheWrite
        else t.prompt.getD 0 := by
    have prompt := reports.prompt
    cases excl : b.cacheExcl with
    | false => rfl
    | true =>
      rw [excl, if_pos rfl, Nat.add_zero] at prompt
      cases Nat.eq_zero_or_pos s.cache with
      | inl none => simp [none, prompt, whole excl]
      | inr some => simp [some]
  have output : (if (b.reasoningAdd && decide (0 < s.reasoning)) = true then t.completion.getD 0
        else t.completion.getD 0 - s.reasoning) =
      if b.reasoningAdd = true then t.completion.getD 0
        else t.completion.getD 0 - s.reasoning := by
    cases b.reasoningAdd with
    | false => rfl
    | true => cases Nat.eq_zero_or_pos s.reasoning with
      | inl none => simp [none]
      | inr some => simp [some]
  unfold quantities
  simp only [reports.cacheRead, reports.cacheWrite, reports.reasoning, cache, input, totalIn,
    output]

/-- The true grand total recovers the basis as far as pricing goes: the same tier, and the
same cost, over exact rationals and over doubles. -/
theorem detectBasis_recovers {t : Tokens} {s : TrueSplit} {b : Basis} (reports : Reports t s b)
    (fits : s.total < 2 ^ 64) (differ : s.cache ≠ s.reasoning) (price : Price) :
    price.ratesFor (quantities t (detectBasis t (some s.total))).totalIn =
        price.ratesFor (quantities t b).totalIn ∧
      exactCost price t (detectBasis t (some s.total)) = exactCost price t b ∧
      ∀ float, priceTokens float price t (detectBasis t (some s.total)) =
        priceTokens float price t b := by
  have same := quantities_recovered reports fits differ
  refine ⟨by rw [same], by rw [exactCost, exactCost, same], fun float => ?_⟩
  rw [priceTokens_eq, priceTokens_eq, same]

/-- Input 600, 400 read from the cache on top, output 200. -/
theorem detectBasis_recovers_cached :
    exactCost { base := { input := .finite 1, output := .finite 4 } }
        { prompt := some 600, completion := some 200, cacheRead := some 400 }
        (detectBasis { prompt := some 600, completion := some 200, cacheRead := some 400 }
          (some (TrueSplit.total ⟨600, 400, 0, 200, 0⟩))) =
      exactCost { base := { input := .finite 1, output := .finite 4 } }
        { prompt := some 600, completion := some 200, cacheRead := some 400 }
        { cacheExcl := true } :=
  (detectBasis_recovers (s := ⟨600, 400, 0, 200, 0⟩) ⟨rfl, rfl, rfl, rfl, rfl⟩ (by decide)
    (by decide) _).2.1

/-! ## Each token once -/

/-- Everything counted is priced once: the input is what is cached and what is not, the
output is text and reasoning. -/
structure PricedOnce (t : Tokens) (b : Basis) : Prop where
  input : (quantities t b).uncached + (quantities t b).cacheRead + (quantities t b).cacheWrite =
    (quantities t b).totalIn
  output : (quantities t b).textOut + (quantities t b).reasoningOut =
    t.completion.getD 0 + if b.reasoningAdd then t.reasoning.getD 0 else 0

def cacheOf (t : Tokens) : Nat := t.cacheRead.getD 0 + t.cacheWrite.getD 0

/-- The sums of the counts fit in 64 bits. -/
structure SumsFit (t : Tokens) : Prop where
  input : t.prompt.getD 0 + cacheOf t < 2 ^ 64
  counted : t.prompt.getD 0 + t.completion.getD 0 < 2 ^ 64
  moved : cacheOf t + t.reasoning.getD 0 < 2 ^ 64

/-- The cache fits the prompt, or no reported total says that nothing, or only the
reasoning, was counted on top. -/
def CacheAgrees (t : Tokens) (total : Option Nat) : Prop :=
  cacheOf t ≤ t.prompt.getD 0 ∨
    ∀ reported, total = some reported →
      reported ≠ t.prompt.getD 0 + t.completion.getD 0 ∧
        (reported = t.prompt.getD 0 + t.completion.getD 0 + t.reasoning.getD 0 →
          t.reasoning.getD 0 = 0 ∨ t.reasoning.getD 0 = cacheOf t)

/-- The reasoning fits the completion, or the reported total says that it was counted on
top. -/
def ReasoningAgrees (t : Tokens) (total : Option Nat) : Prop :=
  t.reasoning.getD 0 ≤ t.completion.getD 0 ∨
    ∃ reported, total = some reported ∧
      (reported = t.prompt.getD 0 + t.completion.getD 0 + t.reasoning.getD 0 ∧
          t.reasoning.getD 0 ≠ cacheOf t ∨
        reported = t.prompt.getD 0 + t.completion.getD 0 + cacheOf t + t.reasoning.getD 0 ∧
          0 < cacheOf t)

/-- Nothing is saturated away. -/
theorem pricedOnce_iff_unsaturated {t : Tokens} (fits : SumsFit t) (b : Basis) :
    PricedOnce t b ↔
      (b.cacheExcl = true ∨ cacheOf t ≤ t.prompt.getD 0) ∧
        (b.reasoningAdd = true ∨ t.reasoning.getD 0 ≤ t.completion.getD 0) := by
  obtain ⟨input, -, moved⟩ := fits
  unfold cacheOf at *
  have cache : wrappingAdd (t.cacheRead.getD 0) (t.cacheWrite.getD 0) =
      t.cacheRead.getD 0 + t.cacheWrite.getD 0 := wrappingAdd_of_lt (by omega)
  have whole : wrappingAdd (wrappingAdd (t.prompt.getD 0) (t.cacheRead.getD 0))
        (t.cacheWrite.getD 0) =
      t.prompt.getD 0 + t.cacheRead.getD 0 + t.cacheWrite.getD 0 := by
    rw [wrappingAdd_of_lt (show t.prompt.getD 0 + t.cacheRead.getD 0 < 2 ^ 64 by omega),
      wrappingAdd_of_lt (by omega)]
  constructor
  -- a saturated difference would leave more than was counted
  · intro ⟨inputOnce, outputOnce⟩
    simp only [quantities, cache, whole] at inputOnce outputOnce
    constructor
    · cases excl : b.cacheExcl with
      | true => exact .inl rfl
      | false =>
        simp only [excl, Bool.false_eq_true, if_false] at inputOnce
        exact .inr (by omega)
    · cases add : b.reasoningAdd with
      | true => exact .inl rfl
      | false =>
        simp only [add, Bool.false_eq_true, if_false] at outputOnce
        exact .inr (by omega)
  · intro ⟨inputFits, outputFits⟩
    constructor
    · simp only [quantities, cache, whole]
      cases excl : b.cacheExcl with
      | true => simp only [if_true]
      | false =>
        simp only [excl, Bool.false_eq_true, false_or, if_false] at inputFits ⊢
        omega
    · simp only [quantities]
      cases add : b.reasoningAdd with
      | true => simp only [if_true]
      | false =>
        simp only [add, Bool.false_eq_true, false_or, if_false] at outputFits ⊢
        omega

/-- The detection over counts whose sums fit. -/
def basisOf (p c cache r : Nat) (total : Option Nat) : Basis :=
  let decided :=
    match total with
    | some total => if p + c ≤ total then basisOfExtra (total - (p + c)) cache r else none
    | none => none
  decided.getD { cacheExcl := 0 < cache && p < cache }

theorem detectBasis_eq {t : Tokens} (fits : SumsFit t) (total : Option Nat) :
    detectBasis t total =
      basisOf (t.prompt.getD 0) (t.completion.getD 0) (cacheOf t) (t.reasoning.getD 0) total := by
  obtain ⟨-, counted, moved⟩ := fits
  unfold cacheOf at *
  have sum := wrappingAdd_of_lt counted
  have cache := wrappingAdd_of_lt
    (show t.cacheRead.getD 0 + t.cacheWrite.getD 0 < 2 ^ 64 by omega)
  cases total with
  | none => simp only [detectBasis, basisOf, cache]
  | some total => simp only [detectBasis, basisOf, sum, cache]

/-- The cache is on top when the total says so, or says nothing and the prompt is too
small for it. -/
theorem cacheExcl_iff {t : Tokens} (fits : SumsFit t) (total : Option Nat) :
    (detectBasis t total).cacheExcl = true ∨ cacheOf t ≤ t.prompt.getD 0 ↔
      CacheAgrees t total := by
  rw [detectBasis_eq fits]
  unfold CacheAgrees
  have moved := wrappingAdd_of_lt fits.moved
  generalize cacheOf t = cache at *
  generalize t.prompt.getD 0 = p at *
  generalize t.completion.getD 0 = c at *
  generalize t.reasoning.getD 0 = r at *
  unfold basisOf basisOfExtra
  rw [moved]
  cases total with
  | none =>
    simp only [Option.getD_none, Bool.and_eq_true, decide_eq_true_eq, reduceCtorEq, false_implies,
      implies_true, or_true, iff_true]
    omega
  | some reported =>
    simp only [Option.some.injEq, forall_eq']
    grind

/-- The reasoning is on top only when the difference says so. -/
theorem basisOfExtra_reasoningAdd {extra cache r : Nat} (moved : wrappingAdd cache r = cache + r)
    (otherwise : Bool) :
    ((basisOfExtra extra cache r).getD { cacheExcl := otherwise }).reasoningAdd = true ↔
      0 < r ∧ (extra = r ∧ r ≠ cache ∨ extra = cache + r ∧ 0 < cache) := by
  unfold basisOfExtra
  rw [moved]
  split
  · next none =>
    simp only [Option.getD_some, Bool.false_eq_true, false_iff]
    omega
  split
  · next some isCache =>
    simp only [ne_eq, decide_not, Bool.and_eq_true, Bool.not_eq_true', decide_eq_false_iff_not,
      decide_eq_true_eq] at isCache
    simp only [Option.getD_some, Bool.false_eq_true, false_iff]
    omega
  split
  · next isReasoning =>
    simp only [ne_eq, decide_not, Bool.and_eq_true, Bool.not_eq_true', decide_eq_false_iff_not,
      decide_eq_true_eq] at isReasoning
    simp only [Option.getD_some, true_iff]
    omega
  split
  · next isBoth =>
    simp only [Bool.and_eq_true, decide_eq_true_eq] at isBoth
    simp only [Option.getD_some, true_iff]
    omega
  · next notCache notReasoning notBoth =>
    simp only [ne_eq, decide_not, Bool.and_eq_true, Bool.not_eq_true', decide_eq_false_iff_not,
      decide_eq_true_eq] at notReasoning notBoth
    simp only [Option.getD_none, Bool.false_eq_true, false_iff]
    omega

theorem reasoningAdd_iff {t : Tokens} (fits : SumsFit t) (total : Option Nat) :
    (detectBasis t total).reasoningAdd = true ∨ t.reasoning.getD 0 ≤ t.completion.getD 0 ↔
      ReasoningAgrees t total := by
  rw [detectBasis_eq fits]
  unfold ReasoningAgrees
  have moved := wrappingAdd_of_lt fits.moved
  generalize cacheOf t = cache at *
  generalize t.prompt.getD 0 = p at *
  generalize t.completion.getD 0 = c at *
  generalize t.reasoning.getD 0 = r at *
  cases total with
  | none => simp [basisOf]
  | some reported =>
    simp only [Option.some.injEq, exists_eq_left']
    by_cases above : p + c ≤ reported
    · simp only [basisOf, if_pos above, basisOfExtra_reasoningAdd moved]
      omega
    · simp only [basisOf, if_neg above, Option.getD_none, Bool.false_eq_true, false_or]
      omega

/-- Each token is priced exactly once where the counts agree with each other. -/
theorem pricedOnce_iff {t : Tokens} (fits : SumsFit t) (total : Option Nat) :
    PricedOnce t (detectBasis t total) ↔ CacheAgrees t total ∧ ReasoningAgrees t total := by
  rw [pricedOnce_iff_unsaturated fits, cacheExcl_iff fits, reasoningAdd_iff fits]

theorem pricedOnce_iff_cached :
    PricedOnce { prompt := some 600, completion := some 200, cacheRead := some 400 }
        (detectBasis { prompt := some 600, completion := some 200, cacheRead := some 400 }
          none) ↔
      CacheAgrees { prompt := some 600, completion := some 200, cacheRead := some 400 } none ∧
        ReasoningAgrees { prompt := some 600, completion := some 200, cacheRead := some 400 }
          none :=
  pricedOnce_iff ⟨by decide, by decide, by decide⟩ none

/-- A prompt of 100 beside 5000 cached tokens and a total that counts neither: the prompt
is not priced at all. -/
theorem cached_prompt_unpriced :
    ¬ PricedOnce { prompt := some 100, completion := some 10, cacheRead := some 5000 }
        (detectBasis { prompt := some 100, completion := some 10, cacheRead := some 5000 }
          (some 110)) := by
  intro once
  exact absurd once.input (by decide)

/-! ## A call by its own split -/

/-- What is to be priced of a call, each token once, at the tier of the full input. -/
def TrueSplit.quantities (s : TrueSplit) : Quantities :=
  { uncached := s.uncached
    cacheRead := s.cacheRead
    cacheWrite := s.cacheWrite
    textOut := s.textOut
    reasoningOut := s.reasoning
    totalIn := s.uncached + s.cache }

/-- Its cost over exact rationals. -/
def TrueSplit.exactCost (s : TrueSplit) (p : Price) : ℚ :=
  let rates := p.ratesFor (s.uncached + s.cache)
  s.uncached * F64.toRat rates.input +
    s.cacheRead * F64.toRat (rates.cacheRead.getD rates.input) +
    s.cacheWrite * F64.toRat (rates.cacheWrite.getD rates.input) +
    s.textOut * F64.toRat rates.output +
    s.reasoning * F64.toRat (p.reasoning.getD rates.output)

/-- Read under the basis they are reported under, the counts give the split. -/
theorem quantities_reported {t : Tokens} {s : TrueSplit} {b : Basis} (reports : Reports t s b)
    (fits : s.total < 2 ^ 64) : quantities t b = s.quantities := by
  unfold TrueSplit.total TrueSplit.cache at fits
  have cache : wrappingAdd s.cacheRead s.cacheWrite = s.cache := wrappingAdd_of_lt (by omega)
  have whole : wrappingAdd (wrappingAdd s.uncached s.cacheRead) s.cacheWrite =
      s.uncached + s.cache := by
    rw [wrappingAdd_of_lt (show s.uncached + s.cacheRead < 2 ^ 64 by omega),
      wrappingAdd_of_lt (by omega), TrueSplit.cache, Nat.add_assoc]
  have prompt := reports.prompt
  have completion := reports.completion
  obtain ⟨cacheExcl, reasoningAdd⟩ := b
  simp only at prompt completion
  simp only [quantities, TrueSplit.quantities, reports.cacheRead, reports.cacheWrite,
    reports.reasoning, prompt, completion, cache]
  cases cacheExcl <;> cases reasoningAdd <;> simp [whole]

/-- The total gives the basis away where the cache and the reasoning differ, where there is
neither, and where it has nothing on top. -/
theorem quantities_detected {t : Tokens} {s : TrueSplit} {b : Basis} (reports : Reports t s b)
    (fits : s.total < 2 ^ 64)
    (told : s.cache ≠ s.reasoning ∨ s.reasoning = 0 ∨ b = {}) :
    quantities t (detectBasis t (some s.total)) = s.quantities := by
  by_cases differ : s.cache = s.reasoning
  · have counted := fits
    unfold TrueSplit.total at counted
    -- nothing is on top, under any basis
    have prompt : t.prompt.getD 0 = s.uncached + s.cache := by
      have prompt := reports.prompt
      obtain differs | none | default := told
      · exact absurd differ differs
      · rw [prompt]
        split <;> omega
      · simp [prompt, default]
    have completion : t.completion.getD 0 = s.textOut + s.reasoning := by
      have completion := reports.completion
      obtain differs | none | default := told
      · exact absurd differ differs
      · rw [completion]
        split <;> omega
      · simp [completion, default]
    have sum : wrappingAdd (s.uncached + s.cache) (s.textOut + s.reasoning) = s.total := by
      rw [wrappingAdd_of_lt (by omega), TrueSplit.total]
      omega
    have basis : detectBasis t (some s.total) = {} := by
      simp only [detectBasis, prompt, completion, sum, le_refl, if_true, Nat.sub_self, basisOfExtra,
        Option.getD_some]
    rw [basis]
    apply quantities_reported _ fits
    exact
      { prompt := by simpa using prompt
        completion := by simpa using completion
        cacheRead := reports.cacheRead
        cacheWrite := reports.cacheWrite
        reasoning := reports.reasoning }
  · rw [quantities_recovered reports fits differ, quantities_reported reports fits]

/-- Reasoning on top of the output, and as much of the cache in the input: the total fits no
basis, and the reasoning is taken off the text. -/
theorem quantities_mistaken {t : Tokens} {s : TrueSplit}
    (reports : Reports t s { reasoningAdd := true }) (fits : s.total < 2 ^ 64)
    (same : s.cache = s.reasoning) (some : 0 < s.reasoning) :
    quantities t (detectBasis t (.some s.total)) =
      { s.quantities with textOut := s.textOut - s.reasoning } := by
  unfold TrueSplit.total at fits
  have cache : wrappingAdd s.cacheRead s.cacheWrite = s.cache := by
    apply wrappingAdd_of_lt
    unfold TrueSplit.cache at fits
    omega
  have prompt : t.prompt.getD 0 = s.uncached + s.cache := reports.prompt
  have completion : t.completion.getD 0 = s.textOut := reports.completion
  have sum : wrappingAdd (s.uncached + s.cache) s.textOut = s.uncached + s.cache + s.textOut :=
    wrappingAdd_of_lt (by omega)
  have extra : s.total - (s.uncached + s.cache + s.textOut) = s.reasoning := by
    unfold TrueSplit.total
    omega
  have counted : s.uncached + s.cache + s.textOut ≤ s.total := by
    unfold TrueSplit.total
    omega
  have both : wrappingAdd s.reasoning s.reasoning = s.reasoning + s.reasoning :=
    wrappingAdd_of_lt (by omega)
  have undecided : basisOfExtra s.reasoning s.reasoning s.reasoning = none := by
    rw [basisOfExtra, both, if_neg (by omega), if_neg (by simp), if_neg (by simp), if_neg]
    simp only [Bool.and_eq_true, decide_eq_true_eq]
    omega
  have larger : ¬ s.uncached + s.reasoning < s.reasoning := by omega
  have basis : detectBasis t (.some s.total) = {} := by
    simp only [detectBasis, prompt, completion, reports.cacheRead, reports.cacheWrite,
      reports.reasoning, cache, sum, counted, if_true, extra]
    simp only [same, undecided, Option.getD_none, larger, decide_false, Bool.and_false]
  rw [basis]
  simp only [quantities, TrueSplit.quantities, prompt, completion, reports.cacheRead,
    reports.cacheWrite, reports.reasoning, cache, Nat.add_sub_cancel, Bool.false_eq_true, if_false]

end Evald.Pricing
