import Evald.Judge
import Evald.Usage
import Evald.Store.Scores
import Evald.Lib.Digits

/-! # Evaluation runs

A run scores every item of a dataset with every evaluator and judge.  It stores a score for
each item that names a span or a trace, and one aggregate for each evaluator under the run.
The ids of these scores are joined from the run, a name and a number or a name, and they are
distinct unless a name is spelled like the segment that is kept for the aggregates
(`scores_kept_iff`).
-/

namespace Evald.Eval

open Evald.Lib Evald.Judge Evald.Store
open Evald.Usage (lessThan)

/-! ## The configuration -/

/-- The deterministic evaluators. -/
inductive EvaluatorKind where
  | exactMatch
  | contains
  | regex
  | jsonValid
  | levenshtein
  | nonEmpty
  | containsAll
  | containsAny
  | lengthBounds
  | numericTolerance
  | equalsNumeric
  | jsonSchema
  | latency
  | cost
  deriving DecidableEq

def EvaluatorKind.name : EvaluatorKind → String
  | .exactMatch => "exact_match"
  | .contains => "contains"
  | .regex => "regex"
  | .jsonValid => "json_valid"
  | .levenshtein => "levenshtein"
  | .nonEmpty => "non_empty"
  | .containsAll => "contains_all"
  | .containsAny => "contains_any"
  | .lengthBounds => "length_bounds"
  | .numericTolerance => "numeric_tolerance"
  | .equalsNumeric => "equals_numeric"
  | .jsonSchema => "json_schema"
  | .latency => "latency"
  | .cost => "cost"

structure EvalConfig where
  name : Option String := none
  evaluators : List EvaluatorKind := []
  judges : List JudgeSpec := []
  /-- The smallest mean an evaluator may have. -/
  thresholds : Std.ExtTreeMap String F64 := ∅

/-- Evaluators and judges share one space of names. -/
def EvalConfig.names (config : EvalConfig) : List String :=
  config.evaluators.map EvaluatorKind.name ++ config.judges.map JudgeSpec.evaluatorName

/-- What an evaluator makes of one item. -/
structure ItemScore where
  passed : Bool
  value : F64
  comment : Option String := none

/-! ## Items -/

def notEmpty (id : Option String) : Option String := id.filter (fun s => !s.isEmpty)

/-- The span, else the trace, else the run. -/
def DatasetItem.target (item : DatasetItem) (runId : String) : ScoreTarget :=
  match notEmpty item.spanId with
  | some s => .span s
  | none =>
    match notEmpty item.traceId with
    | some t => .trace t
    | none => .run runId

def DatasetItem.hasSpanOrTrace (item : DatasetItem) : Bool :=
  (notEmpty item.spanId).isSome || (notEmpty item.traceId).isSome

/-! ## Doubles -/

def negate : F64 → F64
  | .finite q => .finite (-q)
  | .infinite negative => .infinite (!negative)
  | .nan => .nan

/-- `a - b` -/
def minus (float : Floats) (a b : F64) : F64 := float.add a (negate b)

/-- `a >= b` -/
def atLeast (a b : F64) : Bool := lessThan b a || (a = b && a ≠ .nan)

section Finalize

variable (float : Floats)
-- a double with some digits behind the point
variable (printFixed : Nat → F64 → String)

def sumOf (values : List F64) : F64 := values.foldl float.add (.finite 0)

/-! ## One evaluator -/

/-- What was scored of the outcomes of an evaluator. -/
def statsOf (outcomes : List (Option ItemScore)) : AggStats :=
  let scored := outcomes.reduceOption
  let values := scored.map ItemScore.value
  let n := values.length
  let mean := if 0 < n then float.div (sumOf float values) (float.ofInt n) else .finite 0
  { n
    passCount := (scored.filter ItemScore.passed).length
    mean
    -- about the mean, in a second pass
    variance :=
      if 1 < n then
        float.div
          (sumOf float (values.map (fun v => float.mul (minus float v mean) (minus float v mean))))
          (minus float (float.ofInt n) (.finite 1))
      else .finite 0 }

/-- The aggregate over the dataset. -/
structure EvaluatorAggregate where
  name : String
  mean : F64
  passRate : F64
  scored : Nat
  skipped : Nat
  threshold : Option F64
  thresholdMet : Bool
  /-- An evaluator that scored nothing cannot have regressed. -/
  unscored : scored = 0 → thresholdMet = true

def itemId (runId name : String) (idx : Nat) : String :=
  runId ++ ":" ++ name ++ ":" ++ toString idx

def aggregateId (runId name : String) : String := runId ++ ":agg:" ++ name

def itemScore (runId name : String) (ts idx : Nat) (item : DatasetItem) (outcome : ItemScore) :
    Score :=
  { id := itemId runId name idx
    target := item.target runId
    name
    numValue := some outcome.value
    source := .eval
    comment := outcome.comment
    configId := some runId
    tsUnixNano := ts }

/-- The scores of the items that can be attached to a span or a trace. -/
def itemScores (runId name : String) (ts : Nat) (rows : List (DatasetItem × Option ItemScore)) :
    List Score :=
  rows.zipIdx.filterMap (fun row =>
    row.1.2.bind (fun outcome =>
      if row.1.1.hasSpanOrTrace then some (itemScore runId name ts row.2 row.1.1 outcome)
      else none))

def passRateOf (stats : AggStats) : F64 :=
  if 0 < stats.n then float.div (float.ofInt stats.passCount) (float.ofInt stats.n) else .finite 0

def aggregateScore (runId name : String) (ts : Nat) (stats : AggStats) : Score :=
  { id := aggregateId runId name
    target := .run runId
    name
    numValue := some stats.mean
    source := .eval
    comment := some ("aggregate mean over " ++ toString stats.n ++ " item(s); pass_rate " ++
      printFixed 3 (passRateOf float stats))
    configId := some runId
    aggStats := some stats
    tsUnixNano := ts }

/-- The scores of an evaluator and its aggregate.  An outcome is missing where the item was
skipped. -/
def finalizeEvaluator (name : String) (outcomes : List (Option ItemScore))
    (dataset : List DatasetItem) (runId : String) (threshold : Option F64) (ts : Nat) :
    List Score × EvaluatorAggregate :=
  let rows := dataset.zip outcomes
  let stats := statsOf float (rows.map Prod.snd)
  (itemScores runId name ts rows ++ [aggregateScore float printFixed runId name ts stats],
    { name
      mean := stats.mean
      passRate := passRateOf float stats
      scored := stats.n
      skipped := dataset.length - stats.n
      threshold
      thresholdMet := stats.n = 0 || threshold.all (fun t => atLeast stats.mean t)
      unscored := fun none => by simp [none] })

/-! ## The run -/

structure RunReport where
  runId : String
  name : Option String
  itemCount : Nat
  aggregates : List EvaluatorAggregate

/-- Every threshold was met. -/
def RunReport.passed (report : RunReport) : Bool :=
  report.aggregates.all EvaluatorAggregate.thresholdMet

inductive EvalError where
  | noItems
  | duplicateName (name : String)
  deriving DecidableEq

/-- The first name that stood before. -/
def duplicateOf : List String → List String → Option String
  | _, [] => none
  | seen, name :: rest => if name ∈ seen then some name else duplicateOf (name :: seen) rest

-- what the evaluator of a name makes of the item with a number
variable (outcomes : String → Nat → Option ItemScore)

/-- One evaluator after the other. -/
def evaluate (names : List String) (dataset : List DatasetItem)
    (thresholds : Std.ExtTreeMap String F64) (runId : String) (ts : Nat) :
    List (List Score × EvaluatorAggregate) :=
  names.map (fun name =>
    finalizeEvaluator float printFixed name ((List.range dataset.length).map (outcomes name))
      dataset runId thresholds[name]? ts)

def runEval (config : EvalConfig) (dataset : List DatasetItem) (runId : String) (ts : Nat) :
    Except EvalError (RunReport × List Score) :=
  match duplicateOf [] (config.evaluators.map EvaluatorKind.name) with
  | some name => .error (.duplicateName name)
  | none =>
    let done := evaluate float printFixed outcomes (config.evaluators.map EvaluatorKind.name) dataset
      config.thresholds runId ts
    .ok
      ({ runId
         name := config.name
         itemCount := dataset.length
         aggregates := done.map Prod.snd },
        done.flatMap Prod.fst)

/-- The report of `eval run` and the scores it stores: the evaluators, then the judges. -/
def runReport (config : EvalConfig) (dataset : List DatasetItem) (runId : String) (ts : Nat) :
    Except EvalError (RunReport × List Score) :=
  if dataset.isEmpty then .error .noItems
  else
    match duplicateOf [] config.names with
    | some name => .error (.duplicateName name)
    | none => do
      let (report, scores) ← runEval float printFixed outcomes config dataset runId ts
      let judged := evaluate float printFixed outcomes (config.judges.map JudgeSpec.evaluatorName)
        dataset config.thresholds runId ts
      pure
        ({ report with aggregates := report.aggregates ++ judged.map Prod.snd },
          scores ++ judged.flatMap Prod.fst)

end Finalize

/-! ## Reading a run back -/

/-- One evaluator of a stored run. -/
structure AggEntry where
  mean : F64
  stats : Option AggStats
  deriving DecidableEq

def aggregatesOf (runId : String) (scores : List Score) : Std.ExtTreeMap String AggEntry :=
  scores.foldl (fun out s =>
    if startsWith s.id (runId ++ ":agg:") then
      match s.numValue with
      | some v => out.insert s.name { mean := v, stats := s.aggStats }
      | none => out
    else out) ∅

/-- The aggregates of a run by the names of their evaluators. -/
def runAggregates (codec : ScoreCodec) (store : ScoreStore) (runId : String) :
    Option (Std.ExtTreeMap String AggEntry) :=
  (store.byTargetKey codec (targetKey (.run runId))).map (aggregatesOf runId)

/-! ## Which ids are equal -/

theorem toDigits_inj {i j : Nat} (same : Nat.toDigits 10 i = Nat.toDigits 10 j) : i = j := by
  rw [← Nat.ofDigitChars_toDigits (b := 10) (n := i) (by decide) (by decide), same,
    Nat.ofDigitChars_toDigits (by decide) (by decide)]

/-- The item of one name has the id of the aggregate of another. -/
def Clashes (n m : String) (i : Nat) : Prop :=
  (n = "agg" ∧ m = toString i) ∨ ∃ x, n = "agg:" ++ x ∧ m = x ++ ":" ++ toString i

theorem itemId_toList (runId name : String) (idx : Nat) : (itemId runId name idx).toList =
    runId.toList ++ ':' :: (name.toList ++ ':' :: Nat.toDigits 10 idx) := by
  simp [itemId]

theorem aggregateId_toList (runId name : String) : (aggregateId runId name).toList =
    runId.toList ++ ':' :: ("agg:".toList ++ name.toList) := by
  simp [aggregateId]

/-- The number is behind the last colon. -/
theorem itemId_inj {runId n m : String} {i j : Nat} (same : itemId runId n i = itemId runId m j) :
    n = m ∧ i = j := by
  have texts := congrArg String.toList same
  rw [itemId_toList, itemId_toList, List.append_cancel_left_eq, List.cons.injEq] at texts
  have digits (k : Nat) : ∀ d ∈ (Nat.toDigits 10 k).reverse, d.isDigit = true := by
    intro d listed
    exact Nat.isDigit_of_mem_toDigits (by decide) (by decide) (List.mem_reverse.mp listed)
  have backwards := congrArg List.reverse texts.2
  simp only [List.reverse_append, List.reverse_cons, List.append_assoc, List.singleton_append]
    at backwards
  obtain ⟨numbers, -, names⟩ := digits_split (digits i) (digits j) rfl rfl backwards
  exact ⟨String.toList_inj.mp (List.reverse_injective names), toDigits_inj (List.reverse_injective numbers)⟩

theorem aggregateId_inj {runId n m : String} (same : aggregateId runId n = aggregateId runId m) :
    n = m := by
  have texts := congrArg String.toList same
  rw [aggregateId_toList, aggregateId_toList, List.append_cancel_left_eq, List.cons.injEq,
    List.append_cancel_left_eq] at texts
  exact String.toList_inj.mp texts.2

theorem itemId_eq_aggregateId_iff {runId n m : String} {i : Nat} :
    itemId runId n i = aggregateId runId m ↔ Clashes n m i := by
  rw [← String.toList_inj, itemId_toList, aggregateId_toList, List.append_cancel_left_eq,
    List.cons.injEq]
  constructor
  · intro ⟨_, texts⟩
    obtain ⟨w, kept, rest⟩ | ⟨w, name, rest⟩ := List.append_eq_append_iff.mp texts
    · -- the name ends within the kept segment, whose one colon is its last character
      cases w with
      | nil =>
        right
        refine ⟨"", ?_, ?_⟩
        · rw [← String.toList_inj, ← List.append_nil n.toList, ← kept]
          simp
        · rw [← String.toList_inj, ← List.nil_append m.toList, ← rest]
          simp
      | cons c w =>
        left
        rw [List.cons_append, List.cons.injEq] at rest
        obtain ⟨rfl, digits⟩ := rest
        have short : n.toList = "agg".toList ∧ w = [] := by
          have kept : ['a', 'g', 'g', ':'] = n.toList ++ ':' :: w := kept
          simp [List.cons_eq_append_iff] at kept
          exact ⟨kept.1, kept.2⟩
        refine ⟨String.toList_inj.mp short.1, ?_⟩
        rw [← String.toList_inj, ← List.nil_append m.toList, ← short.2, ← digits]
        simp
    · right
      refine ⟨String.ofList w, ?_, ?_⟩
      · rw [← String.toList_inj, name]
        simp
      · rw [← String.toList_inj, rest]
        simp
  -- both spellings give the same characters
  · intro clash
    obtain ⟨rfl, rfl⟩ | ⟨x, rfl, rfl⟩ := clash
    · simp
    · simp

/-! ## What a run stores -/

theorem duplicateOf_eq_none {names : List String} (seen : List String)
    (fresh : duplicateOf seen names = none) : names.Nodup ∧ ∀ name ∈ names, name ∉ seen := by
  induction names generalizing seen with
  | nil => simp
  | cons name rest inductionHypothesis =>
    rw [duplicateOf] at fresh
    split at fresh
    · simp at fresh
    · next new =>
      obtain ⟨nodup, apart⟩ := inductionHypothesis _ fresh
      simp only [List.mem_cons, not_or] at apart
      refine ⟨List.nodup_cons.mpr ⟨fun again => (apart name again).1 rfl, nodup⟩, ?_⟩
      intro other listed
      cases List.mem_cons.mp listed with
      | inl same => rwa [same]
      | inr later => exact (apart other later).2

section Stored

variable {float : Floats} {printFixed : Nat → F64 → String} {outcomes : String → Nat → Option ItemScore}

variable (float outcomes) in
/-- The statistics of an evaluator over a dataset. -/
def runStats (dataset : List DatasetItem) (name : String) : AggStats :=
  statsOf float ((List.range dataset.length).map (outcomes name))

variable (outcomes) in
/-- The scores of the items by one evaluator. -/
def runItemScores (dataset : List DatasetItem) (runId : String) (ts : Nat) (name : String) :
    List Score :=
  itemScores runId name ts (dataset.zip ((List.range dataset.length).map (outcomes name)))

variable (float printFixed outcomes) in
/-- The scores of one evaluator: those of the items, and its aggregate. -/
def runScores (dataset : List DatasetItem) (runId : String) (ts : Nat) (name : String) :
    List Score :=
  runItemScores outcomes dataset runId ts name ++
    [aggregateScore float printFixed runId name ts (runStats float outcomes dataset name)]

/-- An evaluator scores an item that can be attached to a span or a trace. -/
def Attached (outcomes : String → Nat → Option ItemScore) (dataset : List DatasetItem)
    (name : String) (i : Nat) : Prop :=
  ∃ item outcome, dataset[i]? = some item ∧ outcomes name i = some outcome ∧
    item.hasSpanOrTrace = true

/-- A run that comes to its end has passed the check of the names. -/
theorem runReport_ok {config : EvalConfig} {dataset : List DatasetItem} {runId : String} {ts : Nat}
    {report : RunReport} {scores : List Score}
    (ran : runReport float printFixed outcomes config dataset runId ts = .ok (report, scores)) :
    config.names.Nodup ∧
      report.aggregates.map (fun a => (a.name, a.mean, a.scored)) = config.names.map (fun name =>
        (name, (runStats float outcomes dataset name).mean, (runStats float outcomes dataset name).n)) ∧
      scores = config.names.flatMap (runScores float printFixed outcomes dataset runId ts) := by
  -- a double name, a bad evaluator or a bad item ends the run with an error
  unfold runReport at ran
  split at ran
  · cases ran
  · split at ran
    · cases ran
    · next fresh =>
      unfold runEval at ran
      split at ran
      · cases ran
      · simp only [bind, Except.bind, pure, Except.pure, Except.ok.injEq, Prod.mk.injEq] at ran
        obtain ⟨rfl, rfl⟩ := ran
        have zipped (name : String) : (dataset.zip ((List.range dataset.length).map (outcomes name))).map
            Prod.snd = (List.range dataset.length).map (outcomes name) := by
          rw [List.map_snd_zip]
          simp
        have shown (names : List String) :
            ((evaluate float printFixed outcomes names dataset config.thresholds runId ts).map
              Prod.snd).map (fun a => (a.name, a.mean, a.scored)) = names.map (fun name =>
              (name, (runStats float outcomes dataset name).mean,
                (runStats float outcomes dataset name).n)) := by
          rw [evaluate, List.map_map, List.map_map]
          apply List.map_congr_left
          intro name _
          simp only [Function.comp_apply, finalizeEvaluator, zipped, runStats]
        have kept (names : List String) :
            (evaluate float printFixed outcomes names dataset config.thresholds runId ts).flatMap
              Prod.fst = names.flatMap (runScores float printFixed outcomes dataset runId ts) := by
          rw [evaluate, List.flatMap_map]
          simp only [finalizeEvaluator, zipped]
          rfl
        refine ⟨(duplicateOf_eq_none [] fresh).1, ?_, ?_⟩
        · rw [List.map_append, shown, shown, EvalConfig.names, List.map_append]
        · rw [kept, kept, EvalConfig.names, List.flatMap_append]

theorem mem_rows {dataset : List DatasetItem} {name : String} {i : Nat} {item : DatasetItem}
    {outcome : Option ItemScore} :
    ((item, outcome), i) ∈ (dataset.zip ((List.range dataset.length).map (outcomes name))).zipIdx ↔
      dataset[i]? = some item ∧ outcomes name i = outcome := by
  rw [List.mem_zipIdx_iff_getElem?, List.getElem?_zip_eq_some, List.getElem?_map]
  constructor
  · intro ⟨here, there⟩
    obtain ⟨j, ranged, scored⟩ := Option.map_eq_some_iff.mp there
    rw [List.getElem?_eq_some_iff] at ranged
    obtain ⟨bound, same⟩ := ranged
    rw [List.getElem_range] at same
    have same : i = j := same
    rw [same] at here ⊢
    exact ⟨here, scored⟩
  · intro ⟨here, scored⟩
    have bound : i < dataset.length := (List.getElem?_eq_some_iff.mp here).1
    exact ⟨here, by rw [List.getElem?_range bound, Option.map_some, scored]⟩

theorem mem_runItemScores {dataset : List DatasetItem} {runId name : String} {ts : Nat} {s : Score} :
    s ∈ runItemScores outcomes dataset runId ts name ↔ ∃ i item outcome, dataset[i]? = some item ∧
      outcomes name i = some outcome ∧ item.hasSpanOrTrace = true ∧
      s = itemScore runId name ts i item outcome := by
  rw [runItemScores, itemScores, List.mem_filterMap]
  constructor
  · intro ⟨⟨⟨item, scored⟩, i⟩, listed, kept⟩
    obtain ⟨here, same⟩ := mem_rows.mp listed
    obtain ⟨outcome, rfl, kept⟩ := Option.bind_eq_some_iff.mp kept
    split at kept
    · next attached => exact ⟨i, item, outcome, here, same, attached, (Option.some.inj kept).symm⟩
    · cases kept
  · intro ⟨i, item, outcome, here, same, attached, made⟩
    refine ⟨((item, some outcome), i), mem_rows.mpr ⟨here, same⟩, ?_⟩
    simp [attached, made]

theorem nodup_runItemScores (dataset : List DatasetItem) (runId name : String) (ts : Nat) :
    ((runItemScores outcomes dataset runId ts name).map Score.id).Nodup := by
  rw [runItemScores, itemScores]
  generalize dataset.zip ((List.range dataset.length).map (outcomes name)) = rows
  have apart : rows.zipIdx.Pairwise (fun a b => a.2 ≠ b.2) := by
    rw [← List.pairwise_map (f := Prod.snd) (R := (· ≠ ·)), List.zipIdx_map_snd]
    exact List.nodup_range'
  rw [List.Nodup, List.pairwise_map, List.pairwise_filterMap]
  apply apart.imp
  intro a b differ s made t made' same
  obtain ⟨outcome, -, made⟩ := Option.bind_eq_some_iff.mp made
  obtain ⟨outcome', -, made'⟩ := Option.bind_eq_some_iff.mp made'
  split at made <;> split at made' <;> simp only [Option.some.injEq, reduceCtorEq] at made made'
  rw [← made, ← made'] at same
  exact differ (itemId_inj same).2

variable {dataset : List DatasetItem} {runId : String} {ts : Nat} {names : List String}

/-- A stored score is the aggregate of its evaluator, or of an item that is attached. -/
theorem mem_runScores {s : Score} {name : String} :
    s ∈ runScores float printFixed outcomes dataset runId ts name ↔
      s ∈ runItemScores outcomes dataset runId ts name ∨
        s = aggregateScore float printFixed runId name ts (runStats float outcomes dataset name) := by
  rw [runScores, List.mem_append, List.mem_singleton]

variable (runId ts) in
theorem exists_runItemScore {name : String} {i : Nat} (attached : Attached outcomes dataset name i) :
    ∃ s ∈ runItemScores outcomes dataset runId ts name, s.id = itemId runId name i ∧
      s.aggStats = none := by
  obtain ⟨item, outcome, here, scored, target⟩ := attached
  exact ⟨_, mem_runItemScores.mpr ⟨i, item, outcome, here, scored, target, rfl⟩, rfl, rfl⟩

variable (float printFixed outcomes dataset runId ts) in
/-- The ids of a run's scores are distinct if and only if no item clashes with an aggregate. -/
theorem nodup_ids_iff (distinct : names.Nodup) :
    ((names.flatMap (runScores float printFixed outcomes dataset runId ts)).map Score.id).Nodup ↔
      ∀ n ∈ names, ∀ m ∈ names, ∀ i, Attached outcomes dataset n i → ¬ Clashes n m i := by
  constructor
  · intro nodup n nListed m mListed i attached clash
    obtain ⟨s, listed, id, none⟩ := exists_runItemScore runId ts attached
    -- equal ids would make an item's score the aggregate, which alone has counts
    have same := List.inj_on_of_nodup_map nodup
      (List.mem_flatMap.mpr ⟨n, nListed, mem_runScores.mpr (.inl listed)⟩)
      (List.mem_flatMap.mpr ⟨m, mListed, mem_runScores.mpr (.inr rfl)⟩)
      (id.trans (itemId_eq_aggregateId_iff.mpr clash))
    rw [same] at none
    cases none
  · intro apart
    -- one name's items and another's aggregate, which may be the same name
    have clashes {n m : String} (nListed : n ∈ names) (mListed : m ∈ names) {s : Score}
        (listed : s ∈ runItemScores outcomes dataset runId ts n) : s.id ≠ aggregateId runId m := by
      obtain ⟨i, item, outcome, here, scored, target, rfl⟩ := mem_runItemScores.mp listed
      exact fun same => apart n nListed m mListed i ⟨item, outcome, here, scored, target⟩
        (itemId_eq_aggregateId_iff.mp same)
    rw [List.map_flatMap, List.nodup_flatMap]
    constructor
    · intro name listed
      rw [runScores, List.map_append, List.nodup_append]
      refine ⟨nodup_runItemScores dataset runId name ts, List.nodup_singleton _, ?_⟩
      intro id ofItem id' ofAggregate
      obtain ⟨s, stored, rfl⟩ := List.mem_map.mp ofItem
      rw [List.map_cons, List.map_nil, List.mem_singleton] at ofAggregate
      rw [ofAggregate]
      exact clashes listed listed stored
    -- scores of two names: two items, two aggregates, or one of each
    · apply distinct.imp_of_mem
      intro n m nListed mListed differ id ofN ofM
      obtain ⟨s, stored, rfl⟩ := List.mem_map.mp ofN
      obtain ⟨t, stored', same⟩ := List.mem_map.mp ofM
      cases mem_runScores.mp stored with
      | inl item =>
        cases mem_runScores.mp stored' with
        | inl item' =>
          obtain ⟨i, _, _, _, _, _, rfl⟩ := mem_runItemScores.mp item
          obtain ⟨j, _, _, _, _, _, rfl⟩ := mem_runItemScores.mp item'
          exact differ (itemId_inj same).1.symm
        | inr aggregate' =>
          rw [aggregate'] at same
          exact clashes nListed mListed item same.symm
      | inr aggregate =>
        rw [aggregate] at same
        cases mem_runScores.mp stored' with
        | inl item' => exact clashes mListed nListed item' same
        | inr aggregate' =>
          rw [aggregate'] at same
          exact differ (aggregateId_inj same).symm

/-! ## What is read back -/

/-- What is read of an aggregate. -/
def entryOf (s : Score) : Option AggEntry :=
  s.numValue.map (fun v => { mean := v, stats := s.aggStats })

/-- What `compare_runs` needs of the text of a score: id, target and time, the name, the count,
and a number for a number.  A number may come back as one next to it, zero as zero. -/
structure ScoreRead (codec : ScoreCodec) (s : Score) : Prop where
  keeps : codec.Keeps s
  name : (codec.readBack s).name = s.name
  count : (codec.readBack s).aggStats.map AggStats.n = s.aggStats.map AggStats.n
  number : ∀ q, s.numValue = some (.finite q) →
    ∃ r, (codec.readBack s).numValue = some (.finite r) ∧ (q = 0 → r = 0)

/-- Of aggregates that differ by name, each name has its own. -/
theorem getElem?_aggregatesOf {found : List Score}
    (marked : ∀ s ∈ found, startsWith s.id (runId ++ ":agg:") = true)
    (named : ∀ s ∈ found, ∀ t ∈ found, s.name = t.name → s = t) (name : String) (entry : AggEntry) :
    (aggregatesOf runId found)[name]? = some entry ↔
      ∃ s ∈ found, s.name = name ∧ entryOf s = some entry := by
  unfold aggregatesOf
  -- on the scores from the last, since a later one replaces the entry
  induction found using List.reverseRecOn with
  | nil => simp
  | append_singleton found last inductionHypothesis =>
    have before := inductionHypothesis (fun s listed => marked s (by simp [listed]))
      (fun s listed t listed' => named s (by simp [listed]) t (by simp [listed']))
    rw [List.foldl_append, List.foldl_cons, List.foldl_nil, if_pos (marked last (by simp))]
    -- an aggregate without a mean leaves the map as it was
    cases numeric : last.numValue with
    | none =>
      have nothing : entryOf last = none := by rw [entryOf, numeric, Option.map_none]
      simp only
      rw [before]
      constructor
      · rintro ⟨s, listed, same, read⟩
        exact ⟨s, by simp [listed], same, read⟩
      · rintro ⟨s, listed, same, read⟩
        cases List.mem_append.mp listed with
        | inl earlier => exact ⟨s, earlier, same, read⟩
        | inr here =>
          rw [List.mem_singleton.mp here, nothing] at read
          cases read
    | some mean =>
      simp only
      rw [getElem?_insert_if]
      by_cases here : name = last.name
      · have only : (∃ s ∈ found ++ [last], s.name = name ∧ entryOf s = some entry) ↔
            entryOf last = some entry := by
          constructor
          · rintro ⟨s, listed, same, read⟩
            rwa [named s listed last (by simp) (same.trans here)] at read
          · intro read
            exact ⟨last, by simp, here.symm, read⟩
        rw [if_pos here, only, entryOf, numeric, Option.map_some]
      · rw [if_neg here, before]
        simp [Ne.symm here]

theorem target_of_item {item : DatasetItem} {runId other : String}
    (attached : item.hasSpanOrTrace = true) : item.target runId ≠ .run other := by
  unfold DatasetItem.hasSpanOrTrace at attached
  unfold DatasetItem.target
  cases span : notEmpty item.spanId with
  | some s => simp
  | none =>
    cases trace : notEmpty item.traceId with
    | some t => simp
    | none => simp [span, trace] at attached

/-- What of a run's scores is under the run: its aggregates. -/
theorem mem_aggregates {scores : List Score}
    (run : scores = names.flatMap (runScores float printFixed outcomes dataset runId ts)) {s : Score} :
    s ∈ scores ∧ s.target = .run runId ↔ ∃ name ∈ names,
      aggregateScore float printFixed runId name ts (runStats float outcomes dataset name) = s := by
  rw [run]
  constructor
  · rintro ⟨listed, target⟩
    obtain ⟨name, named, ofName⟩ := List.mem_flatMap.mp listed
    cases mem_runScores.mp ofName with
    | inl item =>
      obtain ⟨i, item, outcome, -, -, attached, rfl⟩ := mem_runItemScores.mp item
      exact absurd target (target_of_item attached)
    | inr aggregate => exact ⟨name, named, aggregate.symm⟩
  · rintro ⟨name, named, rfl⟩
    exact ⟨List.mem_flatMap.mpr ⟨name, named, mem_runScores.mpr (.inr rfl)⟩, rfl⟩

/-- Every score of a run is found by its id; under the run there are its aggregates, each under
the name of its evaluator, as its text reads back; and an evaluator whose mean is a number is
among them with its count. -/
structure RunRead (codec : ScoreCodec) (tables : ScoreStore) (runId : String) (report : RunReport)
    (scores : List Score) : Prop where
  found : ∀ s ∈ scores, tables.get codec s.id = some (some (codec.readBack s))
  aggregates : ∃ read, runAggregates codec tables runId = some read ∧
    (∀ name entry, read[name]? = some entry ↔ ∃ s ∈ scores, s.target = .run runId ∧
      s.name = name ∧ entryOf (codec.readBack s) = some entry) ∧
    ∀ a ∈ report.aggregates, ∀ q, a.mean = .finite q →
      ∃ entry, read[a.name]? = some entry ∧ entry.stats.map AggStats.n = some a.scored

/-- The scores of a run that is stored under distinct ids are read back. -/
theorem runRead_of_distinct {codec : ScoreCodec} {store tables : ScoreStore}
    {current : ScoreStore.Current} {config : EvalConfig} {report : RunReport} {scores : List Score}
    (held : ScoreStore.Exact codec store current)
    (fresh : ∀ id s, current id = some s → s.target ≠ .run runId)
    (ran : runReport float printFixed outcomes config dataset runId ts = .ok (report, scores))
    (reads : ∀ score ∈ scores, ScoreRead codec score)
    (stored : store.putBatch codec { scores := scores } = some tables)
    (distinct : (scores.map Score.id).Nodup) : RunRead codec tables runId report scores := by
  obtain ⟨-, aggregates, run⟩ := runReport_ok ran
  have after := held.putBatch (fun s listed => (reads s listed).keeps) stored
  have kept {s : Score} (listed : s ∈ scores) :
      scores.foldl ScoreStore.Current.write current s.id = some s :=
    ScoreStore.Current.foldl_write_mem current distinct listed
  obtain ⟨found, read⟩ : ∃ found, tables.byTargetKey codec (targetKey (.run runId)) = some found :=
    ⟨_, after.byTargetKey _⟩
  -- what the store returns for the run are its aggregates
  have under (s : Score) : s ∈ found ↔
      ∃ t ∈ scores, t.target = .run runId ∧ codec.readBack t = s := by
    rw [(after.reads read).1]
    constructor
    · rintro ⟨written, isWritten, target, same⟩
      have target := targetKey_inj target
      -- a score under the run is one of these: none was there before
      by_cases mine : ∃ t ∈ scores, t.id = written.id
      · obtain ⟨t, ofRun, sameId⟩ := mine
        rw [← sameId, kept ofRun] at isWritten
        exact ⟨written, Option.some.inj isWritten ▸ ofRun, target, same⟩
      · rw [ScoreStore.Current.foldl_write_other _ (fun t ofRun same => mine ⟨t, ofRun, same⟩)]
          at isWritten
        exact absurd target (fresh written.id written isWritten)
    · rintro ⟨t, ofRun, target, same⟩
      exact ⟨t, kept ofRun, by rw [target], same⟩
  have entries (name : String) (entry : AggEntry) : (aggregatesOf runId found)[name]? = some entry ↔
      ∃ s ∈ scores, s.target = .run runId ∧ s.name = name ∧
        entryOf (codec.readBack s) = some entry := by
    rw [getElem?_aggregatesOf]
    · constructor
      · rintro ⟨s, ofRun, same, isEntry⟩
        obtain ⟨t, listed, target, rfl⟩ := (under s).mp ofRun
        exact ⟨t, listed, target, (reads t listed).name ▸ same, isEntry⟩
      · rintro ⟨t, listed, target, same, isEntry⟩
        exact ⟨_, (under _).mpr ⟨t, listed, target, rfl⟩, (reads t listed).name.trans same, isEntry⟩
    · intro s ofRun
      obtain ⟨t, listed, target, rfl⟩ := (under s).mp ofRun
      obtain ⟨name, -, rfl⟩ := (mem_aggregates run).mp ⟨listed, target⟩
      rw [(reads _ listed).keeps.readBack.1]
      exact startsWith_append _ _
    · intro s ofRun s' ofRun' same
      obtain ⟨t, listed, target, rfl⟩ := (under s).mp ofRun
      obtain ⟨t', listed', target', rfl⟩ := (under s').mp ofRun'
      rw [(reads t listed).name, (reads t' listed').name] at same
      obtain ⟨name, -, rfl⟩ := (mem_aggregates run).mp ⟨listed, target⟩
      obtain ⟨name', -, rfl⟩ := (mem_aggregates run).mp ⟨listed', target'⟩
      have same : name = name' := same
      rw [same]
  refine ⟨fun s listed => by rw [after.get, kept listed, Option.map_some], aggregatesOf runId found,
    by rw [runAggregates, read, Option.map_some], entries, fun a listed q mean => ?_⟩
  -- the aggregate of the report is one of the scores written
  have fields := List.mem_map_of_mem (f := fun a => (a.name, a.mean, a.scored)) listed
  rw [aggregates] at fields
  obtain ⟨name, named, same⟩ := List.mem_map.mp fields
  simp only [Prod.mk.injEq] at same
  obtain ⟨isName, isMean, isCount⟩ := same
  let aggregate := aggregateScore float printFixed runId name ts (runStats float outcomes dataset name)
  obtain ⟨member, target⟩ := (mem_aggregates (s := aggregate) run).mpr ⟨name, named, rfl⟩
  have scoreRead := reads aggregate member
  obtain ⟨r, number, -⟩ := scoreRead.number q (congrArg some (isMean.trans mean))
  refine ⟨{ mean := .finite r, stats := (codec.readBack aggregate).aggStats }, ?_, ?_⟩
  · rw [entries]
    exact ⟨aggregate, member, target, isName, by rw [entryOf, number, Option.map_some]⟩
  · rw [← isCount]
    exact scoreRead.count

/-- The ids of a run's scores are distinct, and so wherever they are stored all of them are found
and the run's aggregates are read back under their names, if and only if no evaluator scores an
attached item whose id is that of an aggregate. -/
theorem scores_kept_iff {config : EvalConfig} {report : RunReport} {scores : List Score}
    (ran : runReport float printFixed outcomes config dataset runId ts = .ok (report, scores)) :
    ((scores.map Score.id).Nodup ∧
      ∀ (codec : ScoreCodec) (calls : List ScoreStore.PutBatch) (tables : ScoreStore),
        (∀ batch ∈ calls, ∀ score ∈ batch.scores, codec.Keeps score) →
        (∀ id s, (ScoreStore.afterPuts codec calls).2 id = some s → s.target ≠ .run runId) →
        (∀ score ∈ scores, ScoreRead codec score) →
        (ScoreStore.afterPuts codec calls).1.putBatch codec { scores := scores } = some tables →
        RunRead codec tables runId report scores) ↔
    ∀ n ∈ config.names, ∀ m ∈ config.names, ∀ i, Attached outcomes dataset n i →
      ¬ Clashes n m i := by
  obtain ⟨distinct, -, run⟩ := runReport_ok ran
  have ids := nodup_ids_iff float printFixed outcomes dataset runId ts distinct
  rw [← run] at ids
  constructor
  · rintro ⟨nodup, -⟩
    exact ids.mp nodup
  · intro apart
    refine ⟨ids.mpr apart, fun codec calls tables earlier fresh reads stored => ?_⟩
    exact runRead_of_distinct (ScoreStore.exact_afterPuts earlier) fresh ran reads stored
      (ids.mpr apart)

end Stored

/-! ## One item and one evaluator -/

def oneItem : DatasetItem := { output := "yes", spanId := some "s1" }

def allPass (_ : String) (_ : Nat) : Option ItemScore := some { passed := true, value := .finite 1 }

def oneFixed (_ : Nat) (_ : F64) : String := "1.000"

def oneScore : Score := itemScore "r" "exact_match" 7 0 oneItem { passed := true, value := .finite 1 }

def oneAggregate : Score :=
  aggregateScore .exact oneFixed "r" "exact_match" 7 (runStats .exact allPass [oneItem] "exact_match")

def oneScoreText : String :=
  "\x7b\"id\":\"r:exact_match:0\",\"target_type\":\"span\",\"target_id\":\"s1\"," ++
    "\"name\":\"exact_match\",\"num_value\":1.0,\"data_type\":\"numeric\"," ++
    "\"source\":\"eval\",\"config_id\":\"r\",\"ts_unix_nano\":7\x7d"

def oneAggregateText : String :=
  "\x7b\"id\":\"r:agg:exact_match\",\"target_type\":\"run\",\"target_id\":\"r\"," ++
    "\"name\":\"exact_match\",\"num_value\":1.0,\"data_type\":\"numeric\"," ++
    "\"source\":\"eval\",\"comment\":\"aggregate mean over 1 item(s); pass_rate 1.000\"," ++
    "\"config_id\":\"r\",\"agg_stats\":\x7b\"n\":1,\"pass_count\":1,\"mean\":1.0," ++
    "\"variance\":0.0\x7d,\"ts_unix_nano\":7\x7d"

/-- The texts of two scores. -/
def codecOf (s t : Score) (sText tText : String) : ScoreCodec :=
  { write := fun x => if x = s then some sText else if x = t then some tText else none
    parse := fun text => if text = sText then some s else if text = tText then some t else none }

theorem codecOf_readBack {s t : Score} {sText tText : String} (apart : t ≠ s)
    (texts : tText ≠ sText) : ∀ x ∈ [s, t], (codecOf s t sText tText).readBack x = x ∧
      (codecOf s t sText tText).Keeps x := by
  intro x listed
  rw [List.mem_cons, List.mem_singleton] at listed
  unfold ScoreCodec.readBack ScoreCodec.Keeps
  cases listed with
  | inl first => simp [codecOf, first]
  | inr second => simp [codecOf, second, apart, texts]

theorem codecOf_scoreRead {s t : Score} {sText tText : String} (apart : t ≠ s)
    (texts : tText ≠ sText) : ∀ x ∈ [s, t], ScoreRead (codecOf s t sText tText) x := by
  intro x listed
  obtain ⟨same, keeps⟩ := codecOf_readBack apart texts x listed
  exact ⟨keeps, by rw [same], by rw [same], fun q number => ⟨q, by rw [same, number], id⟩⟩

def oneCodec : ScoreCodec := codecOf oneScore oneAggregate oneScoreText oneAggregateText

theorem scores_kept_iff_oneItem : ∃ report scores tables,
    runReport .exact oneFixed allPass { evaluators := [.exactMatch] } [oneItem] "r" 7 =
        .ok (report, scores) ∧
      ({} : ScoreStore).putBatch oneCodec { scores := scores } = some tables ∧
      tables.get oneCodec "r:agg:exact_match" = some (some oneAggregate) := by
  obtain ⟨⟨report, scores⟩, ran⟩ : ∃ done, runReport .exact oneFixed allPass
      { evaluators := [.exactMatch] } [oneItem] "r" 7 = .ok done := ⟨_, rfl⟩
  have run : scores = [oneScore, oneAggregate] := (runReport_ok ran).2.2.trans (by decide +kernel)
  obtain ⟨tables, stored⟩ : ∃ tables,
      ({} : ScoreStore).putBatch oneCodec { scores := scores } = some tables := by
    rw [run]
    exact Option.isSome_iff_exists.mp (by decide +kernel)
  have reads : ∀ score ∈ scores, ScoreRead oneCodec score := by
    rw [run]
    exact codecOf_scoreRead (by decide) (by decide)
  have apart : ∀ n ∈ ["exact_match"], ∀ m ∈ ["exact_match"], ∀ i,
      Attached allPass [oneItem] n i → ¬ Clashes n m i := by
    intro n listed m _ i _ clash
    rw [List.mem_singleton] at listed
    rw [listed] at clash
    obtain ⟨same, -⟩ | ⟨x, same, -⟩ := clash
    · exact absurd same (by decide)
    · simp [← String.toList_inj] at same
  have read := ((scores_kept_iff ran).mpr apart).2 oneCodec [] tables (by simp)
    (by simp [ScoreStore.afterPuts]) reads stored
  have kept := read.found oneAggregate (by simp [run])
  have back : oneCodec.readBack oneAggregate = oneAggregate :=
    (codecOf_readBack (by decide) (by decide) oneAggregate (by simp)).1
  rw [back] at kept
  exact ⟨report, scores, tables, ran, stored, kept⟩

/-- Two judges, one named like the kept segment and one like the number of an item: the score
of the item and an aggregate are stored under one id. -/
theorem judges_clash :
    let judges : List JudgeSpec :=
      [{ name := some "agg", rail := .bias, provider := .openAi, model := "m" },
        { name := some "0", rail := .bias, provider := .openAi, model := "m" }]
    let done := runReport .exact oneFixed allPass { judges } [oneItem] "r" 7
    done.toOption.map (fun done => done.2.map Score.id) =
        some ["r:agg:0", "r:agg:agg", "r:0:0", "r:agg:0"] ∧
      done.toOption.map (fun done => decide (done.2.map Score.id).Nodup) = some false := by
  decide

end Evald.Eval
