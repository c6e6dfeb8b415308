import Evald.EvalRun
import Evald.Levenshtein
import Evald.Lib.Fallible
import Evald.Lib.Rounding

/-! # The deterministic evaluators

A configured evaluator is compiled, which checks its parameters, and then scores the items one
after the other.  Every score lies between nought and one, and with it every mean and every
pass rate of a run; for an evaluator that only says yes or no the two are the same
(`runEvaluators_report`).
-/

namespace Evald.Eval

open Evald.Lib

/-! ## The configuration -/

inductive EvaluatorSpec where
  | exactMatch
  | contains (substring : Option String)
  | regex (pattern : String)
  | jsonValid
  /-- A configuration without a threshold has 0.8. -/
  | levenshtein (threshold : F64)
  | nonEmpty
  | containsAll (substrings : List String)
  | containsAny (substrings : List String)
  | lengthBounds (min max : Option Nat)
  | numericTolerance (tolerance : F64)
  | equalsNumeric
  | jsonSchema (schema : Json)
  | latency (maxMs : F64)
  | cost (maxUsd : F64)

def EvaluatorSpec.kind : EvaluatorSpec → EvaluatorKind
  | .exactMatch => .exactMatch
  | .contains _ => .contains
  | .regex _ => .regex
  | .jsonValid => .jsonValid
  | .levenshtein _ => .levenshtein
  | .nonEmpty => .nonEmpty
  | .containsAll _ => .containsAll
  | .containsAny _ => .containsAny
  | .lengthBounds _ _ => .lengthBounds
  | .numericTolerance _ => .numericTolerance
  | .equalsNumeric => .equalsNumeric
  | .jsonSchema _ => .jsonSchema
  | .latency _ => .latency
  | .cost _ => .cost

def EvaluatorSpec.name (spec : EvaluatorSpec) : String := spec.kind.name

/-- A compiled schema; `validate` gives the first error. -/
structure SchemaValidator where
  isValid : Json → Bool
  validate : Json → Option String

/-- What the evaluators are built with. -/
structure Engines where
  float : Floats
  printFixed : Nat → F64 → String
  debugText : String → String
  readJson : String → Option Json
  regex : String → Except String (String → Bool)
  validatorFor : Json → Except String SchemaValidator

/-- A compiled evaluator: its parameters are checked. -/
inductive Evaluator where
  | exactMatch
  | contains (substring : Option String)
  | regex (isMatch : String → Bool)
  | jsonValid
  | levenshtein (threshold : F64)
  | nonEmpty
  | containsAll (substrings : List String) (nonempty : substrings ≠ [])
  | containsAny (substrings : List String) (nonempty : substrings ≠ [])
  | lengthBounds (min max : Option Nat) (bounded : min.isSome ∨ max.isSome)
      (ordered : ∀ lo ∈ min, ∀ hi ∈ max, lo ≤ hi)
  | numericTolerance (tolerance : F64) (usable : tolerance.isFinite ∧ tolerance.nonneg)
  | equalsNumeric
  | jsonSchema (validator : SchemaValidator)
  | latency (maxMs : F64) (usable : maxMs.isFinite ∧ maxMs.nonneg)
  | cost (maxUsd : F64) (usable : maxUsd.isFinite ∧ maxUsd.nonneg)

def Evaluator.kind : Evaluator → EvaluatorKind
  | .exactMatch => .exactMatch
  | .contains _ => .contains
  | .regex _ => .regex
  | .jsonValid => .jsonValid
  | .levenshtein _ => .levenshtein
  | .nonEmpty => .nonEmpty
  | .containsAll _ _ => .containsAll
  | .containsAny _ _ => .containsAny
  | .lengthBounds _ _ _ _ => .lengthBounds
  | .numericTolerance _ _ => .numericTolerance
  | .equalsNumeric => .equalsNumeric
  | .jsonSchema _ => .jsonSchema
  | .latency _ _ => .latency
  | .cost _ _ => .cost

def Evaluator.name (evaluator : Evaluator) : String := evaluator.kind.name

section Score

variable (engines : Engines)

def EvaluatorSpec.compile : EvaluatorSpec → Except String Evaluator
  | .exactMatch => .ok .exactMatch
  | .contains substring => .ok (.contains substring)
  | .regex pattern =>
    match engines.regex pattern with
    | .ok isMatch => .ok (.regex isMatch)
    | .error e => .error ("invalid regex " ++ engines.debugText pattern ++ ": " ++ e)
  | .jsonValid => .ok .jsonValid
  | .levenshtein threshold => .ok (.levenshtein threshold)
  | .nonEmpty => .ok .nonEmpty
  | .containsAll substrings =>
    if nonempty : substrings ≠ [] then .ok (.containsAll substrings nonempty)
    else .error "contains_all needs a non-empty `substrings` list"
  | .containsAny substrings =>
    if nonempty : substrings ≠ [] then .ok (.containsAny substrings nonempty)
    else .error "contains_any needs a non-empty `substrings` list"
  | .lengthBounds min max =>
    if ordered : ∀ lo ∈ min, ∀ hi ∈ max, lo ≤ hi then
      if bounded : min.isSome ∨ max.isSome then .ok (.lengthBounds min max bounded ordered)
      else .error "length_bounds needs at least one of `min`/`max`"
    else
      .error ("length_bounds: min (" ++ toString (min.getD 0) ++ ") must be <= max (" ++
        toString (max.getD 0) ++ ")")
  | .numericTolerance tolerance =>
    if usable : tolerance.isFinite ∧ tolerance.nonneg then
      .ok (.numericTolerance tolerance usable)
    else .error "numeric_tolerance must be a finite value >= 0.0"
  | .equalsNumeric => .ok .equalsNumeric
  | .jsonSchema schema =>
    match engines.validatorFor schema with
    | .ok validator => .ok (.jsonSchema validator)
    | .error e => .error ("invalid json_schema: " ++ e)
  | .latency maxMs =>
    if usable : maxMs.isFinite ∧ maxMs.nonneg then .ok (.latency maxMs usable)
    else .error "latency: max_ms must be a finite value >= 0.0"
  | .cost maxUsd =>
    if usable : maxUsd.isFinite ∧ maxUsd.nonneg then .ok (.cost maxUsd usable)
    else .error "cost: max_usd must be a finite value >= 0.0"

/-! ## One item -/

/-- `pass as u8 as f64` -/
def verdictValue (pass : Bool) : F64 := if pass then .finite 1 else .finite 0

/-- The score of an evaluator that says yes or no. -/
def verdict (pass : Bool) (comment : Option String := none) : ItemScore :=
  { passed := pass, value := verdictValue pass, comment }

/-- A comment on what fails. -/
def commentUnless (pass : Bool) (comment : String) : Option String :=
  if pass then none else some comment

def absolute : F64 → F64
  | .finite q => .finite |q|
  | .infinite _ => .infinite false
  | .nan => .nan

/-- `{:?}` of an optional bound. -/
def debugBound : Option Nat → String
  | some n => "Some(" ++ toString n ++ ")"
  | none => "None"

/-- A number of the metadata, also where it is written as a text. -/
def metadataF64 (float : Floats) (item : DatasetItem) (key : String) : Option F64 := do
  let metadata ← item.metadata
  let v ← metadata.get key
  let n ← (v.asF64 float).or (v.asStr.bind (fun s => float.parse (trim s)))
  guard n.isFinite
  pure n

/-- One less the share of the longer text that is edited. -/
def levenshteinSimilarity (float : Floats) (a b : String) : F64 :=
  let max := max a.toList.length b.toList.length
  if max = 0 then .finite 1
  else
    minus float (.finite 1) (float.div (float.ofInt (levenshtein a b)) (float.ofInt max))

/-- The score of an item; none where it lacks what the evaluator needs. -/
def Evaluator.score (evaluator : Evaluator) (item : DatasetItem) : Option ItemScore :=
  let float := engines.float
  match evaluator with
  | .exactMatch => do
    let expected ← item.expectedOutput
    pure (verdict (trim item.output = trim expected))
  | .contains substring => do
    let needle ← substring.or item.expectedOutput
    pure (verdict (containsText item.output needle))
  | .regex isMatch => some (verdict (isMatch item.output))
  | .jsonValid =>
    let pass := (engines.readJson item.output).isSome
    some (verdict pass (commentUnless pass "output is not valid JSON"))
  | .levenshtein threshold => do
    let expected ← item.expectedOutput
    let value := levenshteinSimilarity float item.output expected
    pure { passed := atLeast value threshold, value }
  | .nonEmpty => some (verdict (trim item.output ≠ ""))
  | .containsAll substrings _ =>
    let present := (substrings.filter (containsText item.output)).length
    let passed := decide (present = substrings.length)
    let missing := substrings.filter (fun s => !containsText item.output s)
    some
      { value := float.div (float.ofInt present) (float.ofInt substrings.length)
        passed
        comment := commentUnless passed ("missing: " ++ String.intercalate ", " missing) }
  | .containsAny substrings _ => some (verdict (substrings.any (containsText item.output)))
  | .lengthBounds min max _ _ =>
    let len := item.output.toList.length
    let pass := min.all (fun lo => lo ≤ len) && max.all (fun hi => len ≤ hi)
    some (verdict pass (commentUnless pass ("length " ++ toString len ++ " outside bounds (min=" ++
      debugBound min ++ ", max=" ++ debugBound max ++ ")")))
  | .numericTolerance tolerance _ => do
    let expected ← item.expectedOutput
    let a ← float.parse (trim item.output)
    let b ← float.parse (trim expected)
    pure (verdict (atLeast tolerance (absolute (minus float a b))))
  | .equalsNumeric => do
    let expected ← item.expectedOutput
    let a ← float.parse (trim item.output)
    let b ← float.parse (trim expected)
    -- two texts that are no number agree
    pure (verdict ((a = b && a ≠ .nan) || (a = .nan && b = .nan)))
  | .jsonSchema validator =>
    match engines.readJson item.output with
    | none => some (verdict false (some "output is not valid JSON"))
    | some document =>
      let pass := validator.isValid document
      let violation :=
        match validator.validate document with
        | some e => "schema violation: " ++ e
        | none => "schema violation"
      some (verdict pass (commentUnless pass violation))
  | .latency maxMs _ => do
    let ms ← (metadataF64 float item "latency_ms").or
      ((metadataF64 float item "duration_ns").map (fun ns => float.div ns (.finite 1000000)))
    let pass := atLeast maxMs ms
    pure (verdict pass (commentUnless pass ("latency " ++ engines.printFixed 3 ms ++
      "ms exceeds max_ms " ++ engines.printFixed 3 maxMs)))
  | .cost maxUsd _ => do
    let usd ← metadataF64 float item "cost_usd"
    let pass := atLeast maxUsd usd
    pure (verdict pass (commentUnless pass ("cost $" ++ engines.printFixed 6 usd ++
      " exceeds max_usd $" ++ engines.printFixed 6 maxUsd)))

/-! ## A run -/

/-- The evaluators one after the other over the items. -/
def runEvaluators (name : Option String) (specs : List EvaluatorSpec)
    (thresholds : Std.ExtTreeMap String F64) (dataset : List DatasetItem) (runId : String)
    (ts : Nat) : Except String (RunReport × List Score) := do
  let evaluators ← specs.mapM (EvaluatorSpec.compile engines)
  match duplicateOf [] (evaluators.map Evaluator.name) with
  | some name =>
    .error ("duplicate evaluator " ++ engines.debugText name ++ ": each evaluator kind may " ++
      "appear at most once (scores and thresholds are keyed by evaluator name)")
  | none =>
    let done := evaluators.map (fun ev =>
      finalizeEvaluator engines.float engines.printFixed ev.name
        (dataset.map (ev.score engines)) dataset runId thresholds[ev.name]? ts)
    .ok
      ({ runId, name, itemCount := dataset.length, aggregates := done.map Prod.snd },
        done.flatMap Prod.fst)

end Score

/-! ## Doubles between nought and one -/

/-- Arithmetic on finite doubles, away from the largest: the exact result, rounded. -/
structure Ieee (float : Floats) (r : Rounding 53) : Prop where
  ofInt : ∀ n : ℤ, |n| < 2 ^ 64 → float.ofInt n = .finite (r.round n)
  add : ∀ a b, |a + b| ≤ 2 ^ 1000 → float.add (.finite a) (.finite b) = .finite (r.round (a + b))
  mul : ∀ a b, |a * b| ≤ 2 ^ 1000 → float.mul (.finite a) (.finite b) = .finite (r.round (a * b))
  div : ∀ a b, b ≠ 0 → |a / b| ≤ 2 ^ 1000 →
    float.div (.finite a) (.finite b) = .finite (r.round (a / b))

def InUnit (x : F64) : Prop := ∃ q, x = .finite q ∧ 0 ≤ q ∧ q ≤ 1

theorem one_le_range : (1 : ℚ) ≤ 2 ^ 1000 := one_le_pow₀ (by norm_num)

theorem inUnit_verdict (pass : Bool) : InUnit (verdictValue pass) := by
  cases pass with
  | true => exact ⟨1, rfl, by norm_num, le_refl 1⟩
  | false => exact ⟨0, rfl, le_refl 0, by norm_num⟩

section Arithmetic

variable {float : Floats} {r : Rounding 53} (ieee : Ieee float r)

include ieee

theorem Ieee.ofNat {n : Nat} (fits : n < 2 ^ 64) :
    float.ofInt n = .finite (r.round n) := by
  have exactly := ieee.ofInt n (by rw [Nat.abs_cast]; exact_mod_cast fits)
  exact_mod_cast exactly

/-- A share of a whole. -/
theorem Ieee.ratio_inUnit {n m : Nat} (part : n ≤ m) (counted : 0 < m) (fits : m < 2 ^ 64) :
    ∃ q, float.div (float.ofInt n) (float.ofInt m) = .finite q ∧ 0 ≤ q ∧ q ≤ 1 := by
  have partRat : (n : ℚ) ≤ m := by exact_mod_cast part
  have one : (1 : ℚ) ≤ r.round m := by
    rw [← r.one]
    exact r.mono (by exact_mod_cast counted)
  have low := r.nonneg (Nat.cast_nonneg (α := ℚ) n)
  have ratio : |r.round n / r.round m| ≤ 2 ^ 1000 := by
    rw [abs_of_nonneg (div_nonneg low (by linarith))]
    calc r.round n / r.round m ≤ 1 := div_le_one_of_le₀ (r.mono partRat) (by linarith)
      _ ≤ 2 ^ 1000 := one_le_range
  refine ⟨_, ?_, r.ratio_mem_unit (Nat.cast_nonneg n) partRat⟩
  rw [ieee.ofNat (part.trans_lt fits), ieee.ofNat fits,
    ieee.div _ _ (by linarith) ratio]

theorem Ieee.oneMinus_inUnit {q : ℚ} (low : 0 ≤ q) (high : q ≤ 1) :
    InUnit (minus float (.finite 1) (.finite q)) := by
  have small : |1 + -q| ≤ 2 ^ 1000 := by
    rw [abs_of_nonneg (by linarith)]
    calc 1 + -q ≤ 1 := by linarith
      _ ≤ 2 ^ 1000 := one_le_range
  exact ⟨_, ieee.add _ _ small, r.nonneg (by linarith), r.le_one (by linarith)⟩

omit ieee in
theorem levenshtein_eq_editDistance (a b : String) :
    levenshtein a b = editDistance a.toList b.toList := by
  obtain ⟨isRow, -⟩ := rowOf_writeRows a.toList b.toList (Nat.le_refl _)
  have last := isRow.cells b.toList.length (Nat.le_refl _)
  rwa [List.take_length, List.take_length] at last

theorem levenshteinSimilarity_inUnit {a b : String} (fitsA : a.toList.length < 2 ^ 64)
    (fitsB : b.toList.length < 2 ^ 64) : InUnit (levenshteinSimilarity float a b) := by
  unfold levenshteinSimilarity
  by_cases none : max a.toList.length b.toList.length = 0
  · exact ⟨1, by simp [none], by norm_num, le_refl 1⟩
  · have few := editDistance_le_length a.toList b.toList
    rw [← levenshtein_eq_editDistance] at few
    obtain ⟨q, isRatio, low, high⟩ := ieee.ratio_inUnit few (by omega) (by omega)
    simp only [none, if_false, isRatio]
    exact ieee.oneMinus_inUnit low high

end Arithmetic

/-! ## One score -/

/-- The evaluators that say yes or no. -/
def EvaluatorKind.YesNo (kind : EvaluatorKind) : Prop :=
  kind ≠ .levenshtein ∧ kind ≠ .containsAll

/-- Lengths that a machine can count, and a double too where it counts the items. -/
structure Fits (specs : List EvaluatorSpec) (dataset : List DatasetItem) : Prop where
  items : dataset.length ≤ 2 ^ 53
  outputs : ∀ item ∈ dataset, item.output.toList.length < 2 ^ 64
  expected : ∀ item ∈ dataset, ∀ text ∈ item.expectedOutput, text.toList.length < 2 ^ 64
  substrings : ∀ substrings, EvaluatorSpec.containsAll substrings ∈ specs →
    substrings.length < 2 ^ 64

section Scores

variable {engines : Engines} {item : DatasetItem} {outcome : ItemScore}

/-- A verdict, or no score at all. -/
def IsVerdict (scored : Option ItemScore) : Prop :=
  ∀ outcome ∈ scored, outcome.value = verdictValue outcome.passed

theorem IsVerdict.of (pass : Bool) (comment : Option String) :
    IsVerdict (some (verdict pass comment)) := by
  intro outcome isOutcome
  rw [← Option.some.inj isOutcome]
  rfl

theorem IsVerdict.bind {α : Type} {o : Option α} {f : α → Option ItemScore}
    (each : ∀ a, IsVerdict (f a)) : IsVerdict (o.bind f) := by
  intro outcome isOutcome
  obtain ⟨a, -, here⟩ := Option.bind_eq_some_iff.mp isOutcome
  exact each a outcome here

theorem score_isVerdict {evaluator : Evaluator} (yesNo : evaluator.kind.YesNo) :
    IsVerdict (evaluator.score engines item) := by
  cases evaluator with
  | levenshtein threshold => exact absurd rfl yesNo.1
  | containsAll substrings nonempty => exact absurd rfl yesNo.2
  | exactMatch | contains | cost | latency => exact .bind (fun _ => .of _ _)
  | numericTolerance | equalsNumeric =>
    exact .bind (fun _ => .bind (fun _ => .bind (fun _ => .of _ _)))
  | regex | jsonValid | nonEmpty | containsAny | lengthBounds => exact .of _ _
  | jsonSchema validator =>
    unfold Evaluator.score
    cases engines.readJson item.output with
    | none => exact .of _ _
    | some document => exact .of _ _

theorem compile_kind {spec : EvaluatorSpec} {evaluator : Evaluator}
    (compiled : spec.compile engines = .ok evaluator) : evaluator.kind = spec.kind := by
  cases spec <;> simp only [EvaluatorSpec.compile] at compiled
  all_goals
    repeat' split at compiled
    all_goals cases compiled
    all_goals rfl

theorem compile_containsAll {spec : EvaluatorSpec} {substrings : List String}
    {nonempty : substrings ≠ []}
    (compiled : spec.compile engines = .ok (.containsAll substrings nonempty)) :
    spec = .containsAll substrings := by
  cases spec <;> simp only [EvaluatorSpec.compile] at compiled
  all_goals
    repeat' split at compiled
    all_goals cases compiled
    all_goals rfl

theorem compile_names {specs : List EvaluatorSpec} {evaluators : List Evaluator}
    (compiled : List.Forall₂ (fun spec ev => EvaluatorSpec.compile engines spec = .ok ev) specs
      evaluators) : evaluators.map Evaluator.name = specs.map EvaluatorSpec.name := by
  induction compiled with
  | nil => rfl
  | cons here later inductionHypothesis =>
    rw [List.map_cons, List.map_cons, inductionHypothesis, Evaluator.name, compile_kind here,
      EvaluatorSpec.name]

theorem score_inUnit {r : Rounding 53} (ieee : Ieee engines.float r)
    {specs : List EvaluatorSpec} {dataset : List DatasetItem} (fits : Fits specs dataset)
    {spec : EvaluatorSpec} {evaluator : Evaluator} (listed : spec ∈ specs)
    (compiled : spec.compile engines = .ok evaluator) (isItem : item ∈ dataset)
    (scored : evaluator.score engines item = some outcome) : InUnit outcome.value := by
  by_cases yesNo : evaluator.kind.YesNo
  · rw [score_isVerdict yesNo outcome scored]
    exact inUnit_verdict _
  · cases evaluator with
    | levenshtein threshold =>
      obtain ⟨text, isText, here⟩ := Option.bind_eq_some_iff.mp scored
      cases here
      exact levenshteinSimilarity_inUnit ieee (fits.outputs item isItem)
        (fits.expected item isItem text isText)
    | containsAll substrings nonempty =>
      rw [compile_containsAll compiled] at listed
      cases scored
      exact ieee.ratio_inUnit (List.length_filter_le _ _) (List.length_pos_of_ne_nil nonempty)
        (fits.substrings _ listed)
    | _ => exact absurd ⟨by simp [Evaluator.kind], by simp [Evaluator.kind]⟩ yesNo

end Scores

/-! ## The scores of one evaluator -/

theorem exists_finite (values : List F64) (unit : ∀ x ∈ values, InUnit x) :
    ∃ qs : List ℚ, values = qs.map F64.finite ∧ ∀ q ∈ qs, 0 ≤ q ∧ q ≤ 1 := by
  induction values with
  | nil => exact ⟨[], rfl, by simp⟩
  | cons x values inductionHypothesis =>
    rw [List.forall_mem_cons] at unit
    obtain ⟨⟨q, isFinite, bounds⟩, rest⟩ := unit
    obtain ⟨qs, same, each⟩ := inductionHypothesis rest
    exact ⟨q :: qs, by rw [isFinite, same]; rfl, by simpa using ⟨bounds, each⟩⟩

section Stats

variable {float : Floats} {r : Rounding 53} (ieee : Ieee float r)

include ieee

/-- No partial sum leaves the range. -/
theorem Ieee.foldl_add {qs : List ℚ} {start : ℚ} {n : Nat}
    (unit : ∀ q ∈ qs, 0 ≤ q ∧ q ≤ 1) (low : 0 ≤ start) (high : start ≤ n)
    (small : n + qs.length ≤ 2 ^ 53) :
    (qs.map F64.finite).foldl float.add (.finite start) = .finite (r.sum start qs) := by
  induction qs generalizing start n with
  | nil => rfl
  | cons q qs inductionHypothesis =>
    rw [List.forall_mem_cons] at unit
    obtain ⟨⟨qLow, qHigh⟩, rest⟩ := unit
    rw [List.length_cons] at small
    have step : start + q ≤ (n + 1 : Nat) := by
      push_cast
      linarith
    have inRange : |start + q| ≤ 2 ^ 1000 := by
      have count : ((n + 1 : Nat) : ℚ) ≤ 2 ^ 53 := by exact_mod_cast (by omega : n + 1 ≤ 2 ^ 53)
      rw [abs_of_nonneg (add_nonneg low qLow)]
      calc start + q ≤ 2 ^ 53 := step.trans count
        _ ≤ 2 ^ 1000 := pow_le_pow_right₀ (by norm_num) (by norm_num)
    rw [List.map_cons, List.foldl_cons, ieee.add _ _ inRange]
    exact inductionHypothesis rest (r.nonneg (add_nonneg low qLow))
      (r.le_nat (by omega) step) (by omega)

theorem Ieee.sumOf_eq (qs : List ℚ) (unit : ∀ q ∈ qs, 0 ≤ q ∧ q ≤ 1) (small : qs.length ≤ 2 ^ 53) :
    sumOf float (qs.map F64.finite) = .finite (r.sum 0 qs) ∧ 0 ≤ r.sum 0 qs ∧
      r.sum 0 qs ≤ qs.length := by
  have bounds := r.sum_mem_unit (n := 0) unit (le_refl 0) (by simp) (by omega)
  rw [Nat.zero_add] at bounds
  exact ⟨ieee.foldl_add (n := 0) unit (le_refl 0) (by simp) (by omega), bounds⟩

/-- A sum by the number of its terms. -/
theorem Ieee.average {sum : ℚ} {n : Nat} (counted : 0 < n) (fits : n ≤ 2 ^ 53) (low : 0 ≤ sum)
    (high : sum ≤ n) : float.div (.finite sum) (float.ofInt n) = .finite (r.round (sum / n)) ∧
      0 ≤ r.round (sum / n) ∧ r.round (sum / n) ≤ 1 := by
  have positive : (0 : ℚ) < n := by exact_mod_cast counted
  have share : 0 ≤ sum / n ∧ sum / n ≤ 1 :=
    ⟨div_nonneg low positive.le, div_le_one_of_le₀ high positive.le⟩
  have inRange : |sum / n| ≤ 2 ^ 1000 := by
    rw [abs_of_nonneg share.1]
    exact share.2.trans one_le_range
  refine ⟨?_, r.nonneg share.1, r.le_one share.2⟩
  rw [ieee.ofNat (by omega), r.nat fits, ieee.div _ _ positive.ne' inRange]

theorem Ieee.mean_inUnit {outcomes : List (Option ItemScore)}
    (unit : ∀ outcome, some outcome ∈ outcomes → InUnit outcome.value)
    (few : outcomes.length ≤ 2 ^ 53) : InUnit (statsOf float outcomes).mean := by
  have scored : outcomes.reduceOption.length ≤ outcomes.length := List.reduceOption_length_le _
  obtain ⟨qs, values, each⟩ := exists_finite (outcomes.reduceOption.map ItemScore.value)
    (by
      intro x listed
      obtain ⟨outcome, isOutcome, rfl⟩ := List.mem_map.mp listed
      exact unit outcome (List.reduceOption_mem_iff.mp isOutcome))
  have length : qs.length = outcomes.reduceOption.length := by
    simpa using (congrArg List.length values).symm
  obtain ⟨isSum, low, high⟩ := ieee.sumOf_eq qs each (by omega)
  simp only [statsOf, values, List.length_map]
  split_ifs with counted
  · rw [isSum]
    obtain ⟨isMean, bounds⟩ := ieee.average counted (by omega) low high
    exact ⟨_, isMean, bounds⟩
  · exact ⟨0, rfl, le_refl 0, by norm_num⟩

omit ieee in
theorem statsOf_passCount_le (outcomes : List (Option ItemScore)) :
    (statsOf float outcomes).passCount ≤ (statsOf float outcomes).n := by
  simp only [statsOf, List.length_map]
  exact List.length_filter_le _ _

theorem Ieee.passRate_inUnit {outcomes : List (Option ItemScore)}
    (few : outcomes.length ≤ 2 ^ 53) : InUnit (passRateOf float (statsOf float outcomes)) := by
  have scored : outcomes.reduceOption.length ≤ outcomes.length := List.reduceOption_length_le _
  have count : (statsOf float outcomes).n ≤ 2 ^ 53 := by
    simp only [statsOf, List.length_map]
    omega
  unfold passRateOf
  split_ifs with counted
  · exact ieee.ratio_inUnit (statsOf_passCount_le outcomes) counted (by omega)
  · exact ⟨0, rfl, le_refl 0, by norm_num⟩

/-- Of verdicts, the mean is the share of the items that pass. -/
theorem Ieee.mean_eq_passRate {outcomes : List (Option ItemScore)}
    (verdicts : ∀ scored ∈ outcomes, IsVerdict scored) (few : outcomes.length ≤ 2 ^ 53) :
    (statsOf float outcomes).mean = passRateOf float (statsOf float outcomes) := by
  have scored : outcomes.reduceOption.length ≤ outcomes.length := List.reduceOption_length_le _
  have values : outcomes.reduceOption.map ItemScore.value =
      (outcomes.reduceOption.map (fun o => if o.passed then (1 : ℚ) else 0)).map F64.finite := by
    rw [List.map_map]
    apply List.map_congr_left
    intro outcome listed
    rw [verdicts _ (List.reduceOption_mem_iff.mp listed) outcome rfl]
    cases passed : outcome.passed <;> simp [verdictValue, passed]
  have counted := r.sum_whole ItemScore.passed outcomes.reduceOption (n := 0) (by omega)
  have passing : (outcomes.reduceOption.filter ItemScore.passed).length < 2 ^ 64 := by
    have part := List.length_filter_le ItemScore.passed outcomes.reduceOption
    omega
  have exactly := ieee.ofNat passing
  rw [r.nat (by have part := List.length_filter_le ItemScore.passed outcomes.reduceOption; omega)]
    at exactly
  have isSum := (ieee.sumOf_eq
    (outcomes.reduceOption.map (fun o => if o.passed then (1 : ℚ) else 0))
    (by
      intro q listed
      obtain ⟨outcome, -, rfl⟩ := List.mem_map.mp listed
      split_ifs <;> norm_num)
    (by rw [List.length_map]; omega)).1
  simp only [Nat.cast_zero, Nat.zero_add] at counted
  rw [counted, ← exactly, ← values] at isSum
  simp only [statsOf, passRateOf, isSum]

/-- The squared distance of two doubles between nought and one. -/
theorem Ieee.square {q m : ℚ} (qUnit : 0 ≤ q ∧ q ≤ 1) (mUnit : 0 ≤ m ∧ m ≤ 1) :
    InUnit (float.mul (minus float (.finite q) (.finite m))
      (minus float (.finite q) (.finite m))) := by
  have apart : |q + -m| ≤ 1 := by
    rw [abs_le]
    constructor <;> linarith
  have distance : minus float (.finite q) (.finite m) = .finite (r.round (q + -m)) :=
    ieee.add _ _ (apart.trans one_le_range)
  have low : -1 ≤ r.round (q + -m) := by
    have kept := r.whole (-1) (by norm_num)
    push_cast at kept
    rw [← kept]
    exact r.mono (abs_le.mp apart).1
  have high := r.le_one (abs_le.mp apart).2
  have product : r.round (q + -m) * r.round (q + -m) ≤ 1 := by nlinarith
  have inRange : |r.round (q + -m) * r.round (q + -m)| ≤ 2 ^ 1000 := by
    rw [abs_of_nonneg (mul_self_nonneg _)]
    exact product.trans one_le_range
  rw [distance, ieee.mul _ _ inRange]
  exact ⟨_, rfl, r.nonneg (mul_self_nonneg _), r.le_one product⟩

/-- The spread about a mean is never negative. -/
theorem Ieee.variance_nonneg {outcomes : List (Option ItemScore)}
    (unit : ∀ outcome, some outcome ∈ outcomes → InUnit outcome.value)
    (few : outcomes.length ≤ 2 ^ 53) :
    ∃ q, (statsOf float outcomes).variance = .finite q ∧ 0 ≤ q := by
  have scored : outcomes.reduceOption.length ≤ outcomes.length := List.reduceOption_length_le _
  obtain ⟨m, isMean, mUnit⟩ := ieee.mean_inUnit unit few
  -- each square of a deviation is finite and not negative
  obtain ⟨qs, squares, each⟩ := exists_finite
    ((outcomes.reduceOption.map ItemScore.value).map
      (fun v => float.mul (minus float v (.finite m)) (minus float v (.finite m))))
    (by
      intro x listed
      simp only [List.map_map, List.mem_map, Function.comp_apply] at listed
      obtain ⟨outcome, isOutcome, rfl⟩ := listed
      obtain ⟨q, isValue, qUnit⟩ := unit outcome (List.reduceOption_mem_iff.mp isOutcome)
      rw [isValue]
      exact ieee.square qUnit mUnit)
  have length : qs.length = outcomes.reduceOption.length := by
    simpa using (congrArg List.length squares).symm
  obtain ⟨isSum, low, high⟩ := ieee.sumOf_eq qs each (by omega)
  have variance : (statsOf float outcomes).variance =
      if 1 < outcomes.reduceOption.length then
        float.div (sumOf float (qs.map F64.finite))
          (minus float (float.ofInt outcomes.reduceOption.length) (.finite 1))
      else .finite 0 := by
    rw [← squares, ← isMean]
    simp only [statsOf, List.length_map]
  rw [variance]
  split_ifs with several
  · obtain ⟨k, isCount⟩ : ∃ k, outcomes.reduceOption.length = k + 1 :=
      ⟨_, (Nat.sub_add_cancel (by omega)).symm⟩
    have positive : (1 : ℚ) ≤ k := by exact_mod_cast (by omega : 1 ≤ k)
    have count : float.ofInt outcomes.reduceOption.length = .finite ((k : ℚ) + 1) := by
      rw [ieee.ofNat (by omega), r.nat (by omega), isCount]
      push_cast
      rfl
    have isK : (k : ℚ) + 1 + -1 = k := by ring
    have kSmall : (k : ℚ) ≤ 2 ^ 1000 := by
      have small : (k : ℚ) ≤ 2 ^ 53 := by exact_mod_cast (by omega : k ≤ 2 ^ 53)
      exact small.trans (pow_le_pow_right₀ (by norm_num) (by norm_num))
    -- the count less one is exact, so the divisor is positive
    have less : minus float (.finite ((k : ℚ) + 1)) (.finite 1) = .finite k := by
      have rounded := ieee.add ((k : ℚ) + 1) (-1) (by
        rw [isK, abs_of_nonneg (by linarith)]
        exact kSmall)
      rwa [isK, r.nat (by omega)] at rounded
    have share : 0 ≤ r.sum 0 qs / k := div_nonneg low (by linarith)
    have inRange : |r.sum 0 qs / k| ≤ 2 ^ 1000 := by
      have two : r.sum 0 qs / k ≤ 2 := by
        rw [div_le_iff₀ (by linarith)]
        rw [length, isCount] at high
        push_cast at high
        linarith
      rw [abs_of_nonneg share]
      calc r.sum 0 qs / k ≤ 2 ^ 1 := by linarith
        _ ≤ 2 ^ 1000 := pow_le_pow_right₀ (by norm_num) (by norm_num)
    rw [isSum, count, less, ieee.div _ _ (by linarith) inRange]
    exact ⟨_, rfl, r.nonneg share⟩
  · exact ⟨0, rfl, le_refl 0⟩

end Stats

/-! ## The report -/

theorem EvaluatorKind.name_inj {kind kind' : EvaluatorKind} (same : kind.name = kind'.name) :
    kind = kind' := by
  cases kind <;> cases kind' <;> simp [EvaluatorKind.name] at same ⊢

/-- What is promised of the aggregate of an evaluator. -/
structure Sound (dataset : List DatasetItem) (a : EvaluatorAggregate) : Prop where
  mean : InUnit a.mean
  passRate : InUnit a.passRate
  counted : a.scored + a.skipped = dataset.length
  yesNo : ∀ kind : EvaluatorKind, kind.YesNo → a.name = kind.name → a.mean = a.passRate

/-- What is promised of a stored score. -/
structure StoredWell (score : Score) : Prop where
  value : ∃ value, score.numValue = some value ∧ InUnit value
  variance : ∀ stats ∈ score.aggStats, ∃ q, stats.variance = .finite q ∧ 0 ≤ q

section Finalize

variable {float : Floats} {r : Rounding 53} (ieee : Ieee float r)

include ieee

theorem Ieee.finalize_sound (printFixed : Nat → F64 → String) (name runId : String)
    (threshold : Option F64) (ts : Nat) {dataset : List DatasetItem}
    {outcomes : List (Option ItemScore)} (length : outcomes.length = dataset.length)
    (few : dataset.length ≤ 2 ^ 53)
    (unit : ∀ outcome, some outcome ∈ outcomes → InUnit outcome.value) :
    let done := finalizeEvaluator float printFixed name outcomes dataset runId threshold ts
    InUnit done.2.mean ∧ InUnit done.2.passRate ∧
      done.2.scored + done.2.skipped = dataset.length ∧
      ((∀ scored ∈ outcomes, IsVerdict scored) → done.2.mean = done.2.passRate) ∧
      ∀ score ∈ done.1, StoredWell score := by
  have rows : (dataset.zip outcomes).map Prod.snd = outcomes :=
    List.map_snd_zip (by omega)
  have scored : (statsOf float outcomes).n ≤ dataset.length := by
    simp only [statsOf, List.length_map]
    exact (List.reduceOption_length_le _).trans length.le
  have fewOutcomes : outcomes.length ≤ 2 ^ 53 := by omega
  have mean := ieee.mean_inUnit unit fewOutcomes
  simp only [finalizeEvaluator, rows]
  refine ⟨mean, ieee.passRate_inUnit fewOutcomes, by omega,
    fun verdicts => ieee.mean_eq_passRate verdicts fewOutcomes, ?_⟩
  intro score listed
  -- the score of an item holds its value, the one of the run the mean
  cases List.mem_append.mp listed with
  | inl ofItem =>
    obtain ⟨row, isRow, made⟩ := List.mem_filterMap.mp ofItem
    obtain ⟨outcome, isOutcome, attached⟩ := Option.bind_eq_some_iff.mp made
    split_ifs at attached
    cases attached
    refine ⟨⟨outcome.value, rfl, unit outcome ?_⟩, fun stats none => by cases none⟩
    rw [← isOutcome, ← rows]
    exact List.mem_map_of_mem (List.fst_mem_of_mem_zipIdx isRow)
  | inr ofRun =>
    rw [List.mem_singleton.mp ofRun]
    refine ⟨⟨_, rfl, mean⟩, ?_⟩
    rintro stats isStats
    cases isStats
    exact ieee.variance_nonneg unit fewOutcomes

end Finalize

/-- A run that compiles has one aggregate for each configured evaluator, under distinct names.
Means, pass rates and the stored values lie between nought and one, every item is scored or
skipped, and the mean of an evaluator that says yes or no is the share of items it passes. -/
theorem runEvaluators_report {engines : Engines} {r : Rounding 53}
    (ieee : Ieee engines.float r) {specs : List EvaluatorSpec} {dataset : List DatasetItem}
    (fits : Fits specs dataset) {name : Option String} {thresholds : Std.ExtTreeMap String F64}
    {runId : String} {ts : Nat} {report : RunReport} {scores : List Score}
    (done : runEvaluators engines name specs thresholds dataset runId ts = .ok (report, scores)) :
    report.aggregates.map EvaluatorAggregate.name = specs.map EvaluatorSpec.name ∧
      (specs.map EvaluatorSpec.name).Nodup ∧
      (∀ a ∈ report.aggregates, Sound dataset a) ∧
      ∀ score ∈ scores, StoredWell score := by
  unfold runEvaluators at done
  obtain ⟨evaluators, compiled, done⟩ := bind_eq_ok.mp done
  have names := compile_names (mapM_eq_ok.mp compiled)
  -- each evaluator is finalized on its own, so its aggregate is sound on its own
  have each : ∀ ev ∈ evaluators, _ := fun ev listed =>
    ieee.finalize_sound engines.printFixed ev.name runId thresholds[ev.name]? ts
      (List.length_map (ev.score engines)) fits.items
      (by
        intro outcome isOutcome
        obtain ⟨item, isItem, scored⟩ := List.mem_map.mp isOutcome
        obtain ⟨spec, isSpec, here⟩ := mapM_ok_mem compiled listed
        exact score_inUnit ieee fits isSpec here isItem scored)
  split at done
  · cases done
  · next fresh =>
    cases done
    refine ⟨?_, ?_, ?_, ?_⟩
    · rw [← names, List.map_map, List.map_map]
      rfl
    · rw [← names]
      exact (duplicateOf_eq_none [] fresh).1
    · intro a listed
      simp only [List.map_map, List.mem_map, Function.comp_apply] at listed
      obtain ⟨ev, isEvaluator, rfl⟩ := listed
      obtain ⟨mean, passRate, counted, yesNo, -⟩ := each ev isEvaluator
      refine ⟨mean, passRate, counted, fun kind isYesNo sameName => yesNo ?_⟩
      intro scored isScored
      obtain ⟨item, -, rfl⟩ := List.mem_map.mp isScored
      exact score_isVerdict (EvaluatorKind.name_inj sameName ▸ isYesNo)
    · intro score listed
      simp only [List.mem_flatMap, List.mem_map] at listed
      obtain ⟨_, ⟨ev, isEvaluator, rfl⟩, isScore⟩ := listed
      exact (each ev isEvaluator).2.2.2.2 score isScore

/-! ## The run of the evaluators is a run of their outcomes -/

/-- What the evaluator of a name makes of the item with a number. -/
def outcomesOf (engines : Engines) (evaluators : List Evaluator) (dataset : List DatasetItem)
    (name : String) (i : Nat) : Option ItemScore := do
  let ev ← evaluators.find? (fun ev => ev.name = name)
  let item ← dataset[i]?
  ev.score engines item

theorem find?_name {evaluators : List Evaluator} (distinct : (evaluators.map Evaluator.name).Nodup)
    {ev : Evaluator} (listed : ev ∈ evaluators) :
    evaluators.find? (fun other => other.name = ev.name) = some ev := by
  induction evaluators with
  | nil => cases listed
  | cons first rest inductionHypothesis =>
    rw [List.map_cons, List.nodup_cons] at distinct
    rw [List.find?_cons]
    cases List.mem_cons.mp listed with
    | inl here => simp [here]
    | inr later =>
      have other : first.name ≠ ev.name :=
        fun same => distinct.1 (same ▸ List.mem_map_of_mem later)
      simp only [other, decide_false]
      exact inductionHypothesis distinct.2 later

theorem map_outcomesOf {engines : Engines} {evaluators : List Evaluator}
    (distinct : (evaluators.map Evaluator.name).Nodup) {ev : Evaluator}
    (listed : ev ∈ evaluators) (dataset : List DatasetItem) :
    (List.range dataset.length).map (outcomesOf engines evaluators dataset ev.name) =
      dataset.map (ev.score engines) := by
  apply List.ext_getElem (by simp)
  intro i inside inside'
  have isItem : i < dataset.length := by simpa using inside
  simp [outcomesOf, find?_name distinct listed, List.getElem?_eq_getElem isItem]

/-- Once compiled, the evaluators run as their outcomes do. -/
theorem runEvaluators_eq_runEval {engines : Engines} {specs : List EvaluatorSpec}
    {evaluators : List Evaluator}
    (compiled : specs.mapM (EvaluatorSpec.compile engines) = .ok evaluators) (name : Option String)
    (thresholds : Std.ExtTreeMap String F64) (dataset : List DatasetItem) (runId : String)
    (ts : Nat) :
    (runEvaluators engines name specs thresholds dataset runId ts).toOption =
      (runEval engines.float engines.printFixed (outcomesOf engines evaluators dataset)
        { name, evaluators := specs.map EvaluatorSpec.kind, thresholds } dataset runId
        ts).toOption := by
  have names := compile_names (mapM_eq_ok.mp compiled)
  have kinds : (specs.map EvaluatorSpec.kind).map EvaluatorKind.name =
      evaluators.map Evaluator.name := by
    rw [names, List.map_map]
    rfl
  have done : runEvaluators engines name specs thresholds dataset runId ts =
      (specs.mapM (EvaluatorSpec.compile engines) >>= fun evaluators => _) := rfl
  rw [done, compiled, runEval, kinds]
  cases fresh : duplicateOf [] (evaluators.map Evaluator.name) with
  | some name => simp [fresh, bind, Except.bind, Except.toOption]
  | none =>
    have distinct := (duplicateOf_eq_none [] fresh).1
    have same : evaluators.map (fun ev => finalizeEvaluator engines.float engines.printFixed
          ev.name (dataset.map (ev.score engines)) dataset runId thresholds[ev.name]? ts) =
        evaluate engines.float engines.printFixed (outcomesOf engines evaluators dataset)
          (evaluators.map Evaluator.name) dataset thresholds runId ts := by
      unfold evaluate
      rw [List.map_map]
      apply List.map_congr_left
      intro ev listed
      rw [Function.comp_apply, map_outcomesOf distinct listed]
    simp [fresh, bind, Except.bind, Except.toOption, same]

/-! ## A run of two evaluators -/

def noRounding : Rounding 53 := { round := id, mono := monotone_id, whole := fun _ _ => rfl }

theorem ieee_exact : Ieee Floats.exact noRounding where
  ofInt _ _ := rfl
  add _ _ _ := rfl
  mul _ _ _ := rfl
  div _ _ _ _ := rfl

def plainEngines : Engines :=
  { float := Floats.exact
    printFixed := fun _ _ => "0.500"
    debugText := fun s => "\"" ++ s ++ "\""
    readJson := fun _ => none
    regex := fun _ => .error "regex parse error"
    validatorFor := fun _ => .error "schema error" }

theorem runEvaluators_report_two : ∃ report scores,
    runEvaluators plainEngines none [.exactMatch, .levenshtein (.finite 1)] ∅
      [{ output := "yes", expectedOutput := some "yes" },
        { output := "no", expectedOutput := some "yes" }] "run" 5 = .ok (report, scores) ∧
      ∀ a ∈ report.aggregates, a.name = "exact_match" → a.mean = a.passRate := by
  refine ⟨_, _, rfl, ?_⟩
  have fits : Fits [.exactMatch, .levenshtein (.finite 1)]
      [{ output := "yes", expectedOutput := some "yes" },
        { output := "no", expectedOutput := some "yes" }] := by
    constructor <;> simp
  intro a listed isExact
  have sound := (@runEvaluators_report plainEngines _ ieee_exact _ _ fits _ _ _ _ _ _ rfl).2.2.1 a
    listed
  exact sound.yesNo .exactMatch ⟨by decide, by decide⟩ isExact

end Evald.Eval
