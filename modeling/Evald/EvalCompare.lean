import Evald.EvalRun

/-! # Comparing two runs

The means of two stored runs are compared evaluator by evaluator, and a mean that fell by more
than the tolerance fails the gate.  An evaluator that scored nothing is stored with a mean of
zero, and the comparison takes that for a score (`unscored_harmless_iff`).
-/

namespace Evald.Eval

open Evald.Lib Evald.Store
open Evald.Usage (lessThan)

/-! ## Welch's test -/

structure WelchResult where
  t : F64
  df : F64
  pTwoSided : F64
  /-- The confidence interval on the difference of the means. -/
  ciLow : F64
  ciHigh : F64
  deriving DecidableEq

/-- A square root, and Student's distribution with some degrees of freedom. -/
structure Distribution where
  sqrt : F64 → F64
  /-- Of a statistic and the degrees of freedom. -/
  twoSidedP : F64 → F64 → F64
  /-- Of a probability and the degrees of freedom. -/
  quantile : F64 → F64 → F64

/-- `v.max(0.0)` -/
def atLeastZero (v : F64) : F64 := if lessThan (.finite 0) v then v else .finite 0

section Compare

variable (float : Floats) (student : Distribution)

/-- No result for a sample that is too small, nor for two constant ones that differ. -/
def welchTTest (a b : AggStats) (alpha : F64) : Option WelchResult :=
  if a.n < 2 ∨ b.n < 2 then none
  else
    let na := float.ofInt a.n
    let nb := float.ofInt b.n
    let se2a := float.div (atLeastZero a.variance) na
    let se2b := float.div (atLeastZero b.variance) nb
    let se := student.sqrt (float.add se2a se2b)
    let delta := minus float b.mean a.mean
    if se = .finite 0 then
      if delta = .finite 0 then
        some
          { t := .finite 0
            df := minus float (float.add na nb) (.finite 2)
            pTwoSided := .finite 1
            ciLow := .finite 0
            ciHigh := .finite 0 }
      else none
    else
      let square (x : F64) := float.mul x x
      let df := float.div (square (float.add se2a se2b))
        (float.add (float.div (square se2a) (minus float na (.finite 1)))
          (float.div (square se2b) (minus float nb (.finite 1))))
      let t := float.div delta se
      let half := float.mul
        (student.quantile (minus float (.finite 1) (float.div alpha (.finite 2))) df) se
      some
        { t
          df
          pTwoSided := student.twoSidedP t df
          ciLow := minus float delta half
          ciHigh := float.add delta half }

/-! ## Rows -/

/-- An evaluator in one run and in the other. -/
structure CompareRow where
  evaluator : String
  a : Option F64
  b : Option F64
  delta : Option F64
  nA : Option Nat
  nB : Option Nat
  signif : Option WelchResult
  /-- A difference is of two means. -/
  shared : delta.isSome = true → a.isSome = true ∧ b.isSome = true

/-- Worse than before by more than the tolerance. -/
def CompareRow.isRegression (row : CompareRow) (tolerance : F64) : Bool :=
  row.delta.any (fun d => lessThan d (negate tolerance))

/-- The test ran and does not rule out that nothing changed. -/
def CompareRow.provenNoise (row : CompareRow) : Bool :=
  row.signif.any (fun s => atLeast s.ciHigh (.finite 0))

/-- A regression that is not proven to be noise. -/
def CompareRow.gatesInSignificanceMode (row : CompareRow) (tolerance : F64) : Bool :=
  row.isRegression tolerance && !row.provenNoise

structure CompareReport where
  runA : String
  runB : String
  rows : List CompareRow

def CompareReport.hasRegression (report : CompareReport) (tolerance : F64) : Bool :=
  report.rows.any (fun row => row.isRegression tolerance)

def CompareReport.hasGatingSignificantRegression (report : CompareReport) (tolerance : F64) :
    Bool :=
  report.rows.any (fun row => row.gatesInSignificanceMode tolerance)

/-- The difference of two means, where there are two. -/
def deltaOf (a b : Option F64) : Option F64 :=
  match a, b with
  | some a, some b => some (minus float b a)
  | _, _ => none

theorem deltaOf_shared {a b : Option F64} (some : (deltaOf float a b).isSome = true) :
    a.isSome = true ∧ b.isSome = true := by
  cases a <;> cases b <;> simp [deltaOf] at some ⊢

def compareRow (alpha : F64) (name : String) (ea eb : Option AggEntry) : CompareRow :=
  { evaluator := name
    a := ea.map AggEntry.mean
    b := eb.map AggEntry.mean
    delta := deltaOf float (ea.map AggEntry.mean) (eb.map AggEntry.mean)
    nA := (ea.bind AggEntry.stats).map AggStats.n
    nB := (eb.bind AggEntry.stats).map AggStats.n
    signif := (ea.bind AggEntry.stats).bind (fun sa =>
      (eb.bind AggEntry.stats).bind (fun sb => welchTTest float student sa sb alpha))
    shared := deltaOf_shared float }

/-- The rows of two runs, in the order of the names. -/
def compareRows (alpha : F64) (aggA aggB : Std.ExtTreeMap String AggEntry) : List CompareRow :=
  let names : Std.ExtTreeSet String := (aggA.keys ++ aggB.keys).foldl (fun s n => s.insert n) ∅
  names.toList.map (fun name => compareRow float student alpha name aggA[name]? aggB[name]?)

inductive CompareError where
  | store (runId : String)
  /-- No such run, or one whose scores were not stored. -/
  | noAggregates (runId : String)

def compareRuns (codec : ScoreCodec) (store : ScoreStore) (runA runB : String) (alpha : F64) :
    Except CompareError CompareReport :=
  match runAggregates codec store runA, runAggregates codec store runB with
  | none, _ => .error (.store runA)
  | _, none => .error (.store runB)
  | some aggA, some aggB =>
    if aggA.isEmpty then .error (.noAggregates runA)
    else if aggB.isEmpty then .error (.noAggregates runB)
    else .ok { runA, runB, rows := compareRows float student alpha aggA aggB }

/-- How the gate is set. -/
structure CompareOpts where
  failOnRegression : Bool
  tolerance : F64
  significance : Bool
  alpha : F64

def CompareOpts.regressed (opts : CompareOpts) (report : CompareReport) : Bool :=
  if opts.significance then report.hasGatingSignificantRegression opts.tolerance
  else report.hasRegression opts.tolerance

/-- Whether the gate passes. -/
def CompareOpts.passes (opts : CompareOpts) (report : CompareReport) : Bool :=
  !(opts.failOnRegression && opts.regressed report)

/-- The report, and whether the gate passes. -/
def compareReport (codec : ScoreCodec) (store : ScoreStore) (runA runB : String)
    (opts : CompareOpts) : Except CompareError (CompareReport × Bool) :=
  (compareRuns float student codec store runA runB opts.alpha).map (fun report =>
    (report, opts.passes report))

end Compare

/-! ## The runs that are stored -/

section Stored

variable {float : Floats} {printFixed : Nat → F64 → String} {student : Distribution}
  {codec : ScoreCodec}

variable (float printFixed) in
/-- A score as a run writes it for one of its evaluators. -/
def IsAggregate (runId : String) (s : Score) : Prop :=
  ∃ name ts outcomes, s = aggregateScore float printFixed runId name ts (statsOf float outcomes)

variable (codec) in
/-- What is stored for an evaluator of a run, as it is read. -/
def storedEntry (store : ScoreStore) (runId name : String) : Option AggEntry :=
  ((store.get codec (aggregateId runId name)).join.filter (fun s => s.target = .run runId)).bind
    entryOf

/-- What is stored under a run was written by it, and is read. -/
structure RunStored (float : Floats) (printFixed : Nat → F64 → String) (codec : ScoreCodec)
    (store : ScoreStore) (current : ScoreStore.Current) (runId : String) : Prop where
  held : ScoreStore.Exact codec store current
  made : ∀ id s, current id = some s → s.target = .run runId → IsAggregate float printFixed runId s
  read : ∀ id s, current id = some s → s.target = .run runId → ScoreRead codec s

/-- Nothing scored has a mean of zero. -/
theorem mean_of_unscored {outcomes : List (Option ItemScore)}
    (none : (statsOf float outcomes).n = 0) : (statsOf float outcomes).mean = .finite 0 := by
  unfold statsOf at none ⊢
  simp only at none ⊢
  rw [none]
  rfl

theorem RunStored.storedEntry_eq_some {store : ScoreStore} {current : ScoreStore.Current}
    {runId name : String} {entry : AggEntry}
    (run : RunStored float printFixed codec store current runId) :
    storedEntry codec store runId name = some entry ↔ ∃ ts outcomes,
      current (aggregateId runId name) =
        some (aggregateScore float printFixed runId name ts (statsOf float outcomes)) ∧
      entryOf (codec.readBack
        (aggregateScore float printFixed runId name ts (statsOf float outcomes))) = some entry := by
  unfold storedEntry
  rw [run.held.get, Option.join_some]
  constructor
  · intro found
    obtain ⟨s, kept, read⟩ := Option.bind_eq_some_iff.mp found
    obtain ⟨known, target⟩ := Option.filter_eq_some_iff.mp kept
    obtain ⟨written, isWritten, rfl⟩ := Option.map_eq_some_iff.mp known
    have target := of_decide_eq_true target
    rw [(run.held.kept _ written isWritten).readBack.2.1] at target
    obtain ⟨other, ts, outcomes, made⟩ := run.made _ written isWritten target
    have same : other = name := by
      have id := run.held.named _ written isWritten
      rw [made] at id
      exact aggregateId_inj id
    rw [made, same] at read isWritten
    exact ⟨ts, outcomes, isWritten, read⟩
  · rintro ⟨ts, outcomes, known, read⟩
    have target : (codec.readBack (aggregateScore float printFixed runId name ts
        (statsOf float outcomes))).target = .run runId := (run.held.kept _ _ known).readBack.2.1
    rw [known, Option.map_some, Option.filter_some, if_pos (decide_eq_true target), Option.bind_some,
      read]

/-- The entries of a run are what is stored for its evaluators. -/
theorem RunStored.entries {store : ScoreStore} {current : ScoreStore.Current} {runId : String}
    (run : RunStored float printFixed codec store current runId) :
    ∃ read, runAggregates codec store runId = some read ∧ ∀ name entry, read[name]? = some entry ↔
      storedEntry codec store runId name = some entry := by
  obtain ⟨found, read⟩ : ∃ found, store.byTargetKey codec (targetKey (.run runId)) = some found :=
    ⟨_, run.held.byTargetKey _⟩
  have listed := (run.held.reads read).1
  -- each is the aggregate of an evaluator, read back under its name
  have aggregate {s : Score} (member : s ∈ found) : ∃ name ts outcomes,
      current (aggregateId runId name) =
          some (aggregateScore float printFixed runId name ts (statsOf float outcomes)) ∧
        codec.readBack (aggregateScore float printFixed runId name ts (statsOf float outcomes)) = s ∧
        s.id = aggregateId runId name ∧ s.name = name := by
    obtain ⟨written, known, target, rfl⟩ := (listed s).mp member
    have target := targetKey_inj target
    obtain ⟨name, ts, outcomes, rfl⟩ := run.made _ written known target
    have scoreRead := run.read _ _ known target
    exact ⟨name, ts, outcomes, known, rfl, scoreRead.keeps.readBack.1, scoreRead.name⟩
  refine ⟨aggregatesOf runId found, by rw [runAggregates, read, Option.map_some], ?_⟩
  intro name entry
  rw [getElem?_aggregatesOf]
  · rw [run.storedEntry_eq_some]
    constructor
    · rintro ⟨s, member, same, isEntry⟩
      obtain ⟨other, ts, outcomes, known, rfl, -, isName⟩ := aggregate member
      rw [same] at isName
      rw [← isName] at known isEntry
      exact ⟨ts, outcomes, known, isEntry⟩
    · rintro ⟨ts, outcomes, known, isEntry⟩
      have scoreRead := run.read _ _ known rfl
      exact ⟨_, (listed _).mpr ⟨_, known, rfl, rfl⟩, scoreRead.name, isEntry⟩
  · intro s member
    obtain ⟨other, -, -, -, -, id, -⟩ := aggregate member
    rw [id]
    exact startsWith_append _ _
  -- one id for one name, so one score
  · intro s member t member' same
    obtain ⟨n, ts, outcomes, known, rfl, -, isName⟩ := aggregate member
    obtain ⟨m, ts', outcomes', known', rfl, -, isName'⟩ := aggregate member'
    rw [isName, isName'] at same
    subst same
    rw [known, Option.some.injEq] at known'
    rw [known']

/-- Calls that put nothing else under a run leave it as it was written. -/
theorem runStored_of_calls {calls : List ScoreStore.PutBatch} (runId : String)
    (keeps : ∀ batch ∈ calls, ∀ s ∈ batch.scores, codec.Keeps s)
    (made : ∀ batch ∈ calls, ∀ s ∈ batch.scores, s.target = .run runId →
      IsAggregate float printFixed runId s ∧ ScoreRead codec s) :
    RunStored float printFixed codec (ScoreStore.afterPuts codec calls).1
      (ScoreStore.afterPuts codec calls).2 runId where
  held := ScoreStore.exact_afterPuts keeps
  made := by
    intro id s known target
    obtain ⟨batch, listed, member⟩ := ScoreStore.put_of_afterPuts known
    exact (made batch listed s member target).1
  read := by
    intro id s known target
    obtain ⟨batch, listed, member⟩ := ScoreStore.put_of_afterPuts known
    exact (made batch listed s member target).2

/-- An evaluator that scored nothing is read with a mean of zero. -/
theorem RunStored.mean_of_unscored {store : ScoreStore} {current : ScoreStore.Current}
    {runId name : String} {entry : AggEntry}
    (run : RunStored float printFixed codec store current runId)
    (stored : storedEntry codec store runId name = some entry)
    (none : entry.stats.map AggStats.n = some 0) : entry.mean = .finite 0 := by
  obtain ⟨ts, outcomes, known, read⟩ := run.storedEntry_eq_some.mp stored
  have scoreRead := run.read _ _ known rfl
  obtain ⟨v, number, made⟩ := Option.map_eq_some_iff.mp read
  have count := scoreRead.count
  rw [← made] at none
  rw [none] at count
  have unscored : (statsOf float outcomes).n = 0 := (Option.some.inj count).symm
  obtain ⟨r, back, zero⟩ := scoreRead.number 0 (congrArg some (Eval.mean_of_unscored unscored))
  rw [back, Option.some.injEq] at number
  rw [← made, ← number, zero rfl]

/-- A run writes nothing else under a run. -/
theorem aggregate_of_run {outcomes : String → Nat → Option ItemScore} {config : EvalConfig}
    {dataset : List DatasetItem} {written runId : String} {ts : Nat} {report : RunReport}
    {scores : List Score}
    (ran : runReport float printFixed outcomes config dataset written ts = .ok (report, scores))
    {s : Score} (listed : s ∈ scores) (target : s.target = .run runId) :
    IsAggregate float printFixed runId s := by
  rw [(runReport_ok ran).2.2] at listed
  obtain ⟨name, -, member⟩ := List.mem_flatMap.mp listed
  cases mem_runScores.mp member with
  | inl item =>
    obtain ⟨i, scoredItem, outcome, -, -, attached, rfl⟩ := mem_runItemScores.mp item
    exact absurd target (target_of_item attached)
  | inr aggregate =>
    have same : written = runId := by
      rw [aggregate] at target
      exact ScoreTarget.run.inj target
    rw [same] at aggregate
    exact ⟨name, ts, _, aggregate⟩

/-! ## The rows -/

theorem mem_compareRows {alpha : F64} {aggA aggB : Std.ExtTreeMap String AggEntry}
    {row : CompareRow} : row ∈ compareRows float student alpha aggA aggB ↔
      ∃ name, (name ∈ aggA ∨ name ∈ aggB) ∧
        row = compareRow float student alpha name aggA[name]? aggB[name]? := by
  have collected (names : List String) (name : String) (seen : Std.ExtTreeSet String) :
      name ∈ names.foldl (fun s n => s.insert n) seen ↔ name ∈ names ∨ name ∈ seen := by
    induction names generalizing seen with
    | nil => simp
    | cons first rest inductionHypothesis =>
      rw [List.foldl_cons, inductionHypothesis, List.mem_cons, Std.ExtTreeSet.mem_insert,
        Std.LawfulEqOrd.compare_eq_iff_eq]
      tauto
  unfold compareRows
  simp only [List.mem_map, Std.ExtTreeSet.mem_toList, collected, List.mem_append,
    Std.ExtTreeMap.mem_keys, Std.ExtTreeSet.not_mem_empty, or_false]
  constructor
  · intro ⟨name, listed, made⟩
    exact ⟨name, listed, made.symm⟩
  · intro ⟨name, listed, made⟩
    exact ⟨name, listed, made.symm⟩

theorem lessThan_negate (a b : F64) : lessThan (negate a) (negate b) = lessThan b a := by
  cases a <;> cases b <;> simp [negate, lessThan]
  · rename_i a b
    cases a <;> cases b <;> rfl

/-- The row of an evaluator that is stored for both runs. -/
theorem isRegression_compareRow {alpha tolerance : F64} {name : String} {ea eb : AggEntry} :
    (compareRow float student alpha name (some ea) (some eb)).isRegression tolerance =
      lessThan (minus float eb.mean ea.mean) (negate tolerance) := rfl

/-- An evaluator that scored nothing in one of two stored runs fails neither gate, if and only
if, where it scored nothing in the second run, its mean in the first is within the tolerance,
and where it scored nothing in the first, its mean in the second is not below its negative.  The
means are those that the store reads. -/
theorem unscored_harmless_iff {calls : List ScoreStore.PutBatch} {runA runB : String}
    {alpha tolerance : F64} {report : CompareReport}
    (zeroAdd : ∀ x, float.add (.finite 0) x = x) (addZero : ∀ x, float.add x (.finite 0) = x)
    (keeps : ∀ batch ∈ calls, ∀ s ∈ batch.scores, codec.Keeps s)
    (made : ∀ batch ∈ calls, ∀ s ∈ batch.scores, ∀ runId, s.target = .run runId →
      IsAggregate float printFixed runId s ∧ ScoreRead codec s)
    (compared : compareRuns float student codec (ScoreStore.afterPuts codec calls).1 runA runB alpha =
      .ok report) :
    (∀ row ∈ report.rows, row.nA = some 0 ∨ row.nB = some 0 →
      row.isRegression tolerance = false ∧ row.gatesInSignificanceMode tolerance = false) ↔
    ∀ name ea eb, storedEntry codec (ScoreStore.afterPuts codec calls).1 runA name = some ea →
      storedEntry codec (ScoreStore.afterPuts codec calls).1 runB name = some eb →
      (eb.stats.map AggStats.n = some 0 → lessThan tolerance ea.mean = false) ∧
        (ea.stats.map AggStats.n = some 0 → lessThan eb.mean (negate tolerance) = false) := by
  have a := runStored_of_calls runA keeps
    (fun batch listed s member => made batch listed s member runA)
  have b := runStored_of_calls runB keeps
    (fun batch listed s member => made batch listed s member runB)
  generalize (ScoreStore.afterPuts codec calls).1 = store at a b compared ⊢
  obtain ⟨aggA, readA, entriesA⟩ := a.entries
  obtain ⟨aggB, readB, entriesB⟩ := b.entries
  have rows : report.rows = compareRows float student alpha aggA aggB := by
    simp only [compareRuns, readA, readB] at compared
    split at compared
    · cases compared
    · split at compared
      · cases compared
      · cases compared
        rfl
  -- what the difference comes to beside a mean of zero
  have fell {ea eb : AggEntry} (none : eb.mean = .finite 0) :
      lessThan (minus float eb.mean ea.mean) (negate tolerance) = lessThan tolerance ea.mean := by
    rw [none, minus, zeroAdd, lessThan_negate]
  have rose {ea eb : AggEntry} (none : ea.mean = .finite 0) :
      lessThan (minus float eb.mean ea.mean) (negate tolerance) =
        lessThan eb.mean (negate tolerance) := by
    have zero : negate (.finite 0) = .finite 0 := by simp [negate]
    rw [none, minus, zero, addZero]
  rw [rows]
  constructor
  -- a name in both runs has a row of its own
  · intro harmless name ea eb storedA storedB
    have inA := (entriesA name ea).mpr storedA
    have inB := (entriesB name eb).mpr storedB
    have row : compareRow float student alpha name (some ea) (some eb) ∈
        compareRows float student alpha aggA aggB :=
      mem_compareRows.mpr ⟨name, .inl (Std.ExtTreeMap.isSome_getElem?_iff_mem.mp (by rw [inA]; rfl)),
        by rw [inA, inB]⟩
    refine ⟨fun none => ?_, fun none => ?_⟩
    · rw [← fell (b.mean_of_unscored storedB none)]
      exact (harmless _ row (.inr none)).1
    · rw [← rose (a.mean_of_unscored storedA none)]
      exact (harmless _ row (.inl none)).1
  · intro within row listed none
    obtain ⟨name, -, made⟩ := mem_compareRows.mp listed
    have kept : row.isRegression tolerance = false := by
      rw [made] at none ⊢
      cases inA : aggA[name]? with
      | none => simp [compareRow, deltaOf, CompareRow.isRegression]
      | some ea =>
        cases inB : aggB[name]? with
        | none => simp [compareRow, deltaOf, CompareRow.isRegression]
        | some eb =>
          have storedA := (entriesA name ea).mp inA
          have storedB := (entriesB name eb).mp inB
          obtain ⟨below, above⟩ := within name ea eb storedA storedB
          rw [inA, inB] at none
          rw [isRegression_compareRow]
          -- the side without scores has mean zero, and the other side decides
          cases none with
          | inl none =>
            rw [rose (a.mean_of_unscored storedA none)]
            exact above none
          | inr none =>
            rw [fell (b.mean_of_unscored storedB none)]
            exact below none
    exact ⟨kept, by rw [CompareRow.gatesInSignificanceMode, kept, Bool.false_and]⟩

end Stored

/-! ## A run in which every item is skipped -/

/-- Exact doubles to which zero is neutral, the infinite ones among them. -/
def neutralFloats : Floats :=
  { Floats.exact with
    add := fun x y =>
      if x = .finite 0 then y else if y = .finite 0 then x else F64.exactly (· + ·) x y }

/-- Only the two numbers of these runs. -/
def wholeFixed (_ : Nat) (x : F64) : String := if x = .finite 0 then "0.000" else "1.000"

/-- No test runs on samples of one. -/
def untested : Distribution :=
  { sqrt := fun x => x
    twoSidedP := fun _ _ => .nan
    quantile := fun _ _ => .nan }

def noneScored (_ : String) (_ : Nat) : Option ItemScore := none

/-- The aggregate of one evaluator over one item that is on no trace. -/
def plainAggregate (outcomes : String → Nat → Option ItemScore) (runId : String) : Score :=
  aggregateScore neutralFloats wholeFixed runId "exact_match" 7
    (runStats neutralFloats outcomes [{ output := "yes" }] "exact_match")

def plainText (runId n mean : String) : String :=
  "\x7b\"id\":\"" ++ runId ++ ":agg:exact_match\",\"target_type\":\"run\"," ++
    "\"target_id\":\"" ++ runId ++ "\",\"name\":\"exact_match\",\"num_value\":" ++ mean ++
    ",\"data_type\":\"numeric\",\"source\":\"eval\",\"comment\":\"aggregate mean over " ++ n ++
    " item(s); pass_rate " ++ mean ++ "00\",\"config_id\":\"" ++ runId ++
    "\",\"agg_stats\":\x7b\"n\":" ++ n ++ ",\"pass_count\":" ++ n ++ ",\"mean\":" ++ mean ++
    ",\"variance\":0.0\x7d,\"ts_unix_nano\":7\x7d"

def plainCodec : ScoreCodec :=
  codecOf (plainAggregate allPass "a") (plainAggregate noneScored "b") (plainText "a" "1" "1.0")
    (plainText "b" "0" "0.0")

/-- The first run, and then the second. -/
def plainRuns : List ScoreStore.PutBatch :=
  [{ scores := [plainAggregate allPass "a"] }, { scores := [plainAggregate noneScored "b"] }]

/-- These are what the runs store; and the second fails both gates of the comparison. -/
theorem skipped_run_regresses :
    let ran (outcomes : String → Nat → Option ItemScore) (runId : String) :=
      (runReport neutralFloats wholeFixed outcomes { evaluators := [.exactMatch] }
        [{ output := "yes" }] runId 7).toOption.map Prod.snd
    ran allPass "a" = some [plainAggregate allPass "a"] ∧
      ran noneScored "b" = some [plainAggregate noneScored "b"] ∧
      (compareRuns neutralFloats untested plainCodec (ScoreStore.afterPuts plainCodec plainRuns).1 "a"
        "b" (.finite (1 / 20))).toOption.map (fun report =>
          (report.rows.map CompareRow.nB, report.hasRegression (.finite (1 / 20)),
            report.hasGatingSignificantRegression (.finite (1 / 20)))) =
        some ([some 0], true, true) := by
  decide +kernel

theorem unscored_harmless_iff_skipped : ∃ report,
    compareRuns neutralFloats untested plainCodec (ScoreStore.afterPuts plainCodec plainRuns).1 "a" "b"
        (.finite (1 / 20)) = .ok report ∧
      ¬ ∀ row ∈ report.rows, row.nA = some 0 ∨ row.nB = some 0 →
        row.isRegression (.finite (1 / 20)) = false ∧
          row.gatesInSignificanceMode (.finite (1 / 20)) = false := by
  obtain ⟨report, compared⟩ : ∃ report, compareRuns neutralFloats untested plainCodec
      (ScoreStore.afterPuts plainCodec plainRuns).1 "a" "b" (.finite (1 / 20)) = .ok report := by
    have compares : (compareRuns neutralFloats untested plainCodec
      (ScoreStore.afterPuts plainCodec plainRuns).1 "a" "b" (.finite (1 / 20))).isOk = true := by
      decide +kernel
    cases done : compareRuns neutralFloats untested plainCodec
        (ScoreStore.afterPuts plainCodec plainRuns).1 "a" "b" (.finite (1 / 20)) with
    | ok report => exact ⟨report, rfl⟩
    | error e =>
      rw [done] at compares
      cases compares
  have zeroAdd (x : F64) : neutralFloats.add (.finite 0) x = x := by simp [neutralFloats]
  have addZero (x : F64) : neutralFloats.add x (.finite 0) = x := by
    by_cases zero : x = .finite 0 <;> simp [neutralFloats, zero]
  have listed : ∀ batch ∈ plainRuns, ∀ s ∈ batch.scores,
      s ∈ [plainAggregate allPass "a", plainAggregate noneScored "b"] := by
    simp [plainRuns]
  have reads : ∀ batch ∈ plainRuns, ∀ s ∈ batch.scores, ScoreRead plainCodec s :=
    fun batch member s scored => codecOf_scoreRead (by decide) (by decide) s
      (listed batch member s scored)
  have made : ∀ batch ∈ plainRuns, ∀ s ∈ batch.scores, ∀ runId, s.target = .run runId →
      IsAggregate neutralFloats wholeFixed runId s ∧ ScoreRead plainCodec s := by
    intro batch member s scored runId target
    refine ⟨?_, reads batch member s scored⟩
    have which := listed batch member s scored
    rw [List.mem_cons, List.mem_singleton] at which
    cases which with
    | inl first =>
      rw [first] at target ⊢
      cases target
      exact ⟨_, _, _, rfl⟩
    | inr second =>
      rw [second] at target ⊢
      cases target
      exact ⟨_, _, _, rfl⟩
  refine ⟨report, compared, fun harmless => ?_⟩
  have keeps : ∀ batch ∈ plainRuns, ∀ s ∈ batch.scores, plainCodec.Keeps s :=
    fun batch member s scored => (reads batch member s scored).keeps
  let entry (outcomes : String → Nat → Option ItemScore) : AggEntry :=
    let stats := runStats neutralFloats outcomes [{ output := "yes" }] "exact_match"
    { mean := stats.mean, stats := some stats }
  -- against the skipped run the mean of the passing one is a fall
  have within := (unscored_harmless_iff zeroAdd addZero keeps made compared).mp harmless "exact_match"
    (entry allPass) (entry noneScored) (by decide +kernel) (by decide +kernel)
  exact absurd (within.1 rfl) (by decide +kernel)

end Evald.Eval
