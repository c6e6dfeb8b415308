import Evald.EvalCompare

/-! # JUnit reports

A report has one case for each evaluator of a run, or for each row of a comparison.  It is
built beside the verdict that decides the exit code, and the two agree: a case fails exactly
when the gate does (`report_agrees`).
-/

namespace Evald.Junit

open Evald.Lib Evald.Eval
open Evald.Usage (lessThan)

/-- What became of a case. -/
inductive Outcome where
  | pass
  | fail (kind message detail : String)
  /-- The command could not run. -/
  | error (message detail : String)
  /-- Nothing to judge. -/
  | skipped (message : String)
  deriving DecidableEq

def Outcome.isFail : Outcome → Bool
  | .fail .. => true
  | _ => false

def Outcome.isError : Outcome → Bool
  | .error .. => true
  | _ => false

def Outcome.isSkipped : Outcome → Bool
  | .skipped _ => true
  | _ => false

structure Case where
  name : String
  outcome : Outcome
  /-- The numbers behind the verdict. -/
  output : Option String
  deriving DecidableEq

structure Suite where
  name : String
  classname : String
  timeSecs : F64
  properties : List (String × String)
  cases : List Case
  deriving DecidableEq

section Build

variable (float : Floats) (printFixed : Nat → F64 → String)

/-- With its sign, as `{:+.3}` has it. -/
def printSigned (digits : Nat) (x : F64) : String :=
  if x = .nan ∨ startsWith (printFixed digits x) "-" = true then printFixed digits x
  else "+" ++ printFixed digits x

/-! ## A run -/

def thresholdText (a : EvaluatorAggregate) : String :=
  (a.threshold.map (printFixed 3)).getD "none"

def runNumbers (a : EvaluatorAggregate) : String :=
  "mean=" ++ printFixed 3 a.mean ++ " pass_rate=" ++ printFixed 3 a.passRate ++ " scored=" ++
    toString a.scored ++ " skipped=" ++ toString a.skipped ++ " threshold=" ++
    thresholdText printFixed a

def runOutcome (a : EvaluatorAggregate) : Outcome :=
  if a.scored = 0 then .skipped "no items scored (every item was skipped)"
  else if a.thresholdMet = false then
    .fail "ThresholdNotMet"
      (a.name ++ ": mean " ++ printFixed 3 a.mean ++ " is below the threshold " ++
        thresholdText printFixed a)
      (runNumbers printFixed a)
  else .pass

def runCase (a : EvaluatorAggregate) : Case :=
  { name := a.name
    outcome := runOutcome printFixed a
    output := some (runNumbers printFixed a) }

/-- One case for each evaluator, judged against its threshold. -/
def fromRun (report : RunReport) : Suite :=
  { name := "evald eval run " ++ report.name.getD report.runId
    classname := "evald.eval.run"
    timeSecs := .finite 0
    properties := [("run_id", report.runId), ("items", toString report.itemCount)]
    cases := report.aggregates.map (runCase printFixed) }

/-! ## A comparison -/

def cell (v : Option F64) : String := (v.map (printFixed 3)).getD "-"

def statText (alpha : F64) : Option WelchResult → String
  | some s =>
    "p=" ++ printFixed 4 s.pTwoSided ++ " ci=" ++
      printFixed 0 (float.mul (minus float (.finite 1) alpha) (.finite 100)) ++ "%[" ++
      printSigned printFixed 3 s.ciLow ++ "," ++ printSigned printFixed 3 s.ciHigh ++ "] " ++
      (if lessThan s.ciHigh (.finite 0) || lessThan (.finite 0) s.ciLow then "significant"
      else "within noise")
  | none => "no significance test (missing or too-small sample)"

def compareNumbers (alpha : F64) (r : CompareRow) : String :=
  "run_a=" ++ cell printFixed r.a ++ " run_b=" ++ cell printFixed r.b ++ " delta=" ++
    (r.delta.map (printSigned printFixed 3)).getD "-" ++ " n_a=" ++
    (r.nA.map toString).getD "-" ++ " n_b=" ++ (r.nB.map toString).getD "-" ++ " " ++
    statText float printFixed alpha r.signif

/-- The gate fails on a row. -/
def rowGates (opts : CompareOpts) (r : CompareRow) : Bool :=
  opts.failOnRegression &&
    if opts.significance then r.gatesInSignificanceMode opts.tolerance
    else r.isRegression opts.tolerance

def compareOutcome (opts : CompareOpts) (r : CompareRow) : Outcome :=
  match r.a, r.b with
  | none, some _ => .skipped "evaluator only in run B"
  | some _, none => .skipped "evaluator only in run A"
  | _, _ =>
    if rowGates opts r then
      .fail "Regression"
        (r.evaluator ++ ": " ++ cell printFixed r.a ++ " -> " ++ cell printFixed r.b ++ " (delta " ++
          (r.delta.map (printSigned printFixed 3)).getD "" ++ ") is beyond the tolerance " ++
          printFixed 3 opts.tolerance)
        (compareNumbers float printFixed opts.alpha r)
    else .pass

/-- A regression that does not fail the gate is noted. -/
def compareNote (opts : CompareOpts) (r : CompareRow) : String :=
  if r.isRegression opts.tolerance && !rowGates opts r then
    if !opts.failOnRegression then
      "; regressed beyond tolerance, not gated (--fail-on-regression is off)"
    else "; regressed beyond tolerance but proven within sampling noise"
  else ""

def compareCase (opts : CompareOpts) (r : CompareRow) : Case :=
  { name := r.evaluator
    outcome := compareOutcome float printFixed opts r
    output := some (compareNumbers float printFixed opts.alpha r ++ compareNote opts r) }

/-- One case for each row. -/
def fromCompare (report : CompareReport) (opts : CompareOpts) : Suite :=
  { name := "evald eval compare " ++ report.runA ++ " vs " ++ report.runB
    classname := "evald.eval.compare"
    timeSecs := .finite 0
    properties :=
      [("run_a", report.runA), ("run_b", report.runB), ("tolerance", printFixed 3 opts.tolerance),
        ("significance", toString opts.significance), ("alpha", float.display opts.alpha),
        ("fail_on_regression", toString opts.failOnRegression)]
    cases := report.rows.map (compareCase float printFixed opts) }

end Build

/-! ## The verdict -/

section Verdict

variable {float : Floats} {printFixed : Nat → F64 → String}

/-- An evaluator that scored nothing is skipped, and met its threshold. -/
theorem isFail_runOutcome (a : EvaluatorAggregate) :
    (runOutcome printFixed a).isFail = !a.thresholdMet := by
  unfold runOutcome
  split
  · next none => rw [a.unscored none]; rfl
  · split
    · next below => rw [below]; rfl
    · next met =>
      rw [Bool.not_eq_false] at met
      rw [met]
      rfl

theorem rowGates_shared {opts : CompareOpts} {r : CompareRow} (gates : rowGates opts r = true) :
    r.a.isSome = true ∧ r.b.isSome = true := by
  have regression : r.isRegression opts.tolerance = true := by
    unfold rowGates CompareRow.gatesInSignificanceMode at gates
    simp only [Bool.and_eq_true] at gates
    split at gates
    · exact (Bool.and_eq_true_iff.mp gates.2).1
    · exact gates.2
  apply r.shared
  unfold CompareRow.isRegression at regression
  cases delta : r.delta with
  | none => simp [delta] at regression
  | some d => rfl

variable (float printFixed) in
/-- A row of one run only is skipped, and has no difference to fail on. -/
theorem isFail_compareOutcome (opts : CompareOpts) (r : CompareRow) :
    (compareOutcome float printFixed opts r).isFail = rowGates opts r := by
  have oneSided (missing : r.a = none ∨ r.b = none) : rowGates opts r = false := by
    rw [Bool.eq_false_iff]
    intro gates
    obtain ⟨a, b⟩ := rowGates_shared gates
    cases missing with
    | inl none => simp [none] at a
    | inr none => simp [none] at b
  unfold compareOutcome
  split
  · next onlyB _ => exact (oneSided (.inl onlyB)).symm
  · next onlyA => exact (oneSided (.inr onlyA)).symm
  · split
    · next gates => rw [gates]; rfl
    · next passes =>
      rw [Bool.not_eq_true] at passes
      rw [passes]
      rfl

variable (printFixed) in
theorem any_isFail_fromRun (report : RunReport) :
    (fromRun printFixed report).cases.any (fun c => c.outcome.isFail) = !report.passed := by
  have each : report.aggregates.any (fun a => (runOutcome printFixed a).isFail) = !report.passed := by
    simp only [isFail_runOutcome]
    simp [RunReport.passed, List.not_all_eq_any_not]
  show (report.aggregates.map (runCase printFixed)).any _ = _
  rw [List.any_map]
  exact each

variable (float printFixed) in
theorem any_isFail_fromCompare (report : CompareReport) (opts : CompareOpts) :
    (fromCompare float printFixed report opts).cases.any (fun c => c.outcome.isFail) =
      !opts.passes report := by
  have each : report.rows.any (fun r => (compareOutcome float printFixed opts r).isFail) =
      !opts.passes report := by
    rw [funext (isFail_compareOutcome float printFixed opts)]
    unfold CompareOpts.passes CompareOpts.regressed rowGates
    cases opts.failOnRegression <;> cases opts.significance <;>
      simp [CompareReport.hasRegression, CompareReport.hasGatingSignificantRegression]
  show (report.rows.map (compareCase float printFixed opts)).any _ = _
  rw [List.any_map]
  exact each

/-- A case of the report fails if and only if the gate does, for a run and for a comparison. -/
theorem report_agrees :
    (∀ report : RunReport, (∃ c ∈ (fromRun printFixed report).cases, c.outcome.isFail = true) ↔
      report.passed = false) ∧
    ∀ (report : CompareReport) (opts : CompareOpts),
      (∃ c ∈ (fromCompare float printFixed report opts).cases, c.outcome.isFail = true) ↔
        opts.passes report = false := by
  constructor
  · intro report
    rw [← Bool.not_eq_true', ← any_isFail_fromRun printFixed, List.any_eq_true]
  · intro report opts
    rw [← Bool.not_eq_true', ← any_isFail_fromCompare float printFixed, List.any_eq_true]

end Verdict

end Evald.Junit
