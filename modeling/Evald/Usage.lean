import Evald.Lib.Entries
import Evald.LlmSpan

/-! # Usage series

Every committed batch is recorded once: LLM spans into the series of their provider, model
and service, tool spans into the tool counters.  Label values are interned with a cap and
folded into `other` past it.  A batch remembers the labels it interned last; that changes
nothing (`record_eq_foldl`).
-/

namespace Evald.Usage

open Evald.Lib

/-! ## Labels -/

/-- Value `0` is always `other`. -/
structure Interner where
  cap : Nat
  ids : Std.ExtTreeMap String Nat := ∅
  names : List String := ["other"]

/-- The id of a value, and whether it was folded; ids are 32 bits wide. -/
def Interner.intern (i : Interner) (value : String) : Nat × Bool × Interner :=
  match i.ids[value]? with
  | some id => (id, false, i)
  | none =>
    if i.names.length - 1 < i.cap then
      let id := i.names.length % 2 ^ 32
      (id, false, { i with ids := i.ids.insert value id, names := i.names ++ [value] })
    else (0, true, i)

/-! ## Series -/

/-- Observations by bucket; those above the last bound are only in `count`. -/
structure Hist where
  counts : List Nat
  sum : F64 := .finite 0
  count : Nat := 0

/-- In seconds, each bound with the text it is rendered as. -/
def timeBuckets : List (String × F64) :=
  ["0.01", "0.02", "0.04", "0.08", "0.16", "0.32", "0.64", "1.28", "2.56", "5.12", "10.24",
    "20.48", "40.96", "81.92", "163.84", "327.68"].zipIdx.map (fun bound =>
      -- the doubles next to these decimals double from one to the next
      (bound.1, .finite (5764607523034235 * 2 ^ bound.2 / 2 ^ 59)))

def Hist.new : Hist := { counts := timeBuckets.map (fun _ => 0) }

/-- `a < b` on doubles. -/
def lessThan : F64 → F64 → Bool
  | .finite a, .finite b => a < b
  | .finite _, .infinite negative => !negative
  | .infinite negative, .finite _ => negative
  | .infinite negative, .infinite negative' => negative && !negative'
  | _, _ => false

def Hist.observe (float : Floats) (h : Hist) (v : F64) : Hist :=
  let i := (timeBuckets.takeWhile (fun bound => lessThan bound.2 v)).length
  { counts := h.counts.modify i (· + 1)
    sum := float.add h.sum v
    count := h.count + 1 }

/-- Spans are counted one by one; token counts are 64 bits wide and added as reported. -/
structure Series where
  requests : Nat := 0
  errors : Nat := 0
  costUsd : F64 := .finite 0
  withoutCost : Nat := 0
  cacheRead : Nat := 0
  cacheWrite : Nat := 0
  reasoning : Nat := 0
  inputTokens : Nat := 0
  outputTokens : Nat := 0
  duration : Hist := Hist.new
  ttft : Hist := Hist.new

/-- Provider, model and service. -/
abbrev SeriesKey := Nat × Nat × Nat

instance (key : SeriesKey) (keys : List SeriesKey) : Decidable (key ∈ keys) := inferInstance

structure Inner where
  providers : Interner
  models : Interner
  services : Interner
  series : List (SeriesKey × Series) := []
  folded : Nat := 0
  tools : Interner
  /-- Calls and failed calls by service and tool. -/
  toolSeries : List ((Nat × Nat) × Nat × Nat) := []

def maxSeries : Nat := 2048
def providerCap : Nat := 16
def serviceCap : Nat := 32
def toolCap : Nat := 64
def maxToolSeries : Nat := 512

def Inner.new (modelCap : Nat) : Inner :=
  { providers := { cap := providerCap }
    models := { cap := max modelCap 1 }
    services := { cap := serviceCap }
    tools := { cap := toolCap } }

/-! ## Recording -/

def label (value : Option String) : String := value.getD "unknown"

/-- One tool span into the tool counters. -/
def recordTool (inner : Inner) (s : NormalizedSpan) : Inner :=
  let (service, serviceFolded, services) := inner.services.intern (label s.serviceName)
  let (tool, toolFolded, tools) := inner.tools.intern (label (Agent.toolName s))
  -- one slot is reserved for the folded pair
  let full := (service, tool) ∉ inner.toolSeries.map Prod.fst ∧
    maxToolSeries - 1 ≤ inner.toolSeries.length
  let key := if full then (0, 0) else (service, tool)
  { inner with
    services := services
    tools := tools
    folded := inner.folded + if serviceFolded || toolFolded || full then 1 else 0
    toolSeries := upsert key (0, 0)
      (fun e => (e.1 + 1, e.2 + if Agent.failed s then 1 else 0)) inner.toolSeries }

structure Labels where
  provider : String
  model : String
  service : String
  deriving DecidableEq

def labelsOf (s : NormalizedSpan) : Labels :=
  { provider := label s.provider, model := label s.model, service := label s.serviceName }

/-- The ids of three labels, and whether one was folded. -/
def internLabels (inner : Inner) (labels : Labels) : (SeriesKey × Bool) × Inner :=
  let (p, providerFolded, providers) := inner.providers.intern labels.provider
  let (m, modelFolded, models) := inner.models.intern labels.model
  let (sv, serviceFolded, services) := inner.services.intern labels.service
  (((p, m, sv), providerFolded || modelFolded || serviceFolded),
    { inner with providers := providers, models := models, services := services })

/-- The labels a batch interned last. -/
structure LabelMemo where
  labels : Labels
  ids : SeriesKey
  folded : Bool

variable (deps : Deps)

def durationNs (s : NormalizedSpan) : Nat := s.endUnixNano - s.startUnixNano

def Series.add (e : Series) (s : NormalizedSpan) : Series :=
  let (costUsd, withoutCost) :=
    match s.costUsd with
    | some c =>
      if c.isFinite then (deps.float.add e.costUsd c, e.withoutCost)
      else (e.costUsd, e.withoutCost + 1)
    | none => (e.costUsd, e.withoutCost + 1)
  { requests := e.requests + 1
    errors := e.errors + if s.statusCode = 2 then 1 else 0
    costUsd := costUsd
    withoutCost := withoutCost
    cacheRead := wrappingAdd e.cacheRead (s.tokens.cacheRead.getD 0)
    cacheWrite := wrappingAdd e.cacheWrite (s.tokens.cacheWrite.getD 0)
    reasoning := wrappingAdd e.reasoning (s.tokens.reasoning.getD 0)
    inputTokens := wrappingAdd e.inputTokens (s.tokens.prompt.getD 0)
    outputTokens := wrappingAdd e.outputTokens (s.tokens.completion.getD 0)
    duration := e.duration.observe deps.float
      (deps.float.div (deps.float.ofInt (durationNs s)) (.finite (10 ^ 9)))
    ttft :=
      match ttftSeconds deps.float s.rawAttributes with
      | some t => e.ttft.observe deps.float t
      | none => e.ttft }

/-- One span into the series of its labels.  One slot is reserved for the folded ones, so
that there are never more than `maxSeries`. -/
def charge (inner : Inner) (ids : SeriesKey) (folded : Bool) (s : NormalizedSpan) : Inner :=
  let full := ids ∉ inner.series.map Prod.fst ∧ maxSeries - 1 ≤ inner.series.length
  let key := if full then (0, 0, 0) else ids
  { inner with
    folded := inner.folded + if folded || full then 1 else 0
    series := upsert key {} (fun e => e.add deps s) inner.series }

/-- One span of a batch. -/
def recordSpan (state : Inner × Option LabelMemo) (s : NormalizedSpan) :
    Inner × Option LabelMemo :=
  let (inner, memo) := state
  if !isLlmSpan s then
    (if Agent.isKind s "TOOL" then recordTool inner s else inner, memo)
  else
    match memo.filter (fun m => m.labels = labelsOf s) with
    | some m => (charge deps inner m.ids m.folded s, memo)
    | none =>
      let ((ids, folded), inner) := internLabels inner (labelsOf s)
      (charge deps inner ids folded s, some { labels := labelsOf s, ids := ids, folded := folded })

/-- One committed batch. -/
def record (inner : Inner) (spans : List NormalizedSpan) : Inner :=
  (spans.foldl (recordSpan deps) (inner, none)).1

/-! ## What is remembered stays -/

section Interning

variable {i : Interner} {value other : String} {id : Nat} {folded : Bool}

/-- A new value in an interner with room. -/
def Interner.enter (i : Interner) (value : String) : Interner :=
  { i with ids := i.ids.insert value (i.names.length % 2 ^ 32), names := i.names ++ [value] }

/-- A value is known, admitted or folded. -/
theorem Interner.intern_cases (i : Interner) (value : String) :
    (∃ id, i.ids[value]? = some id ∧ i.intern value = (id, false, i)) ∨
      (i.ids[value]? = none ∧ i.names.length - 1 < i.cap ∧
        i.intern value = (i.names.length % 2 ^ 32, false, i.enter value)) ∨
      (i.ids[value]? = none ∧ i.cap ≤ i.names.length - 1 ∧ i.intern value = (0, true, i)) := by
  unfold intern
  cases held : i.ids[value]? with
  | some id => exact .inl ⟨id, rfl, rfl⟩
  | none =>
    by_cases room : i.names.length - 1 < i.cap
    · exact .inr (.inl ⟨rfl, room, if_pos room⟩)
    · exact .inr (.inr ⟨rfl, by omega, if_neg room⟩)

/-- Interning the value once more gives the same and changes nothing. -/
inductive Interner.Settled (i : Interner) (value : String) : Nat → Bool → Prop
  | known {id : Nat} (held : i.ids[value]? = some id) : Settled i value id false
  | folded (absent : i.ids[value]? = none) (full : i.cap ≤ i.names.length - 1) :
      Settled i value 0 true

theorem Interner.Settled.intern_eq (settled : i.Settled value id folded) :
    i.intern value = (id, folded, i) := by
  cases settled with
  | known held => simp [intern, held]
  | folded absent full => simp [intern, absent, full]

theorem Interner.settled_intern (i : Interner) (value : String) :
    (i.intern value).2.2.Settled value (i.intern value).1 (i.intern value).2.1 := by
  obtain ⟨id, held, result⟩ | ⟨-, -, result⟩ | ⟨absent, full, result⟩ := i.intern_cases value
  · rw [result]
    exact .known held
  · rw [result]
    exact .known (by rw [enter, getElem?_insert_if, if_pos rfl])
  · rw [result]
    exact .folded absent full

/-- What has settled stays when other values are interned: an interner that folded one value
is full. -/
theorem Interner.Settled.intern (settled : i.Settled value id folded) (other : String) :
    (i.intern other).2.2.Settled value id folded := by
  obtain ⟨_, -, result⟩ | ⟨absent, room, result⟩ | ⟨-, -, result⟩ := i.intern_cases other
  · rw [result]
    exact settled
  · rw [result]
    cases settled with
    | known held =>
      have different : value ≠ other := by
        intro same
        rw [same, absent] at held
        cases held
      exact .known (by rw [enter, getElem?_insert_if, if_neg different, held])
    | folded _ full => omega
  · rw [result]
    exact settled

end Interning

/-- What is remembered is what interning would give. -/
def LabelMemo.Valid (m : LabelMemo) (inner : Inner) : Prop :=
  ∃ f g h, inner.providers.Settled m.labels.provider m.ids.1 f ∧
    inner.models.Settled m.labels.model m.ids.2.1 g ∧
    inner.services.Settled m.labels.service m.ids.2.2 h ∧ m.folded = (f || g || h)

namespace LabelMemo.Valid

variable {m : LabelMemo} {inner : Inner}

theorem internLabels_eq (valid : m.Valid inner) :
    internLabels inner m.labels = ((m.ids, m.folded), inner) := by
  obtain ⟨f, g, h, providers, models, services, folded⟩ := valid
  unfold internLabels
  simp only [providers.intern_eq, models.intern_eq, services.intern_eq, folded]

/-- Labels that were just interned. -/
theorem of_internLabels (inner : Inner) (labels : Labels) :
    LabelMemo.Valid ⟨labels, (internLabels inner labels).1.1, (internLabels inner labels).1.2⟩
      (internLabels inner labels).2 :=
  ⟨_, _, _, inner.providers.settled_intern _, inner.models.settled_intern _,
    inner.services.settled_intern _, rfl⟩

/-- A tool span may only intern a service. -/
theorem recordTool (valid : m.Valid inner) (s : NormalizedSpan) : m.Valid (recordTool inner s) := by
  obtain ⟨f, g, h, providers, models, services, folded⟩ := valid
  exact ⟨f, g, h, providers, models, services.intern _, folded⟩

theorem charge (valid : m.Valid inner) (ids : SeriesKey) (folded : Bool) (s : NormalizedSpan) :
    m.Valid (charge deps inner ids folded s) := valid

end LabelMemo.Valid

/-- A span recorded alone. -/
def recordOne (inner : Inner) (s : NormalizedSpan) : Inner := record deps inner [s]

theorem recordOne_eq (inner : Inner) (s : NormalizedSpan) :
    recordOne deps inner s =
      if isLlmSpan s then
        charge deps (internLabels inner (labelsOf s)).2 (internLabels inner (labelsOf s)).1.1
          (internLabels inner (labelsOf s)).1.2 s
      else if Agent.isKind s "TOOL" then recordTool inner s
      else inner := by
  simp only [recordOne, record, recordSpan, List.foldl_cons, List.foldl_nil]
  cases isLlmSpan s with
  | true => rfl
  | false => rfl

/-- With a valid memory a span is recorded as it is alone, and the memory stays valid. -/
theorem recordSpan_eq {inner : Inner} {memo : Option LabelMemo}
    (valid : ∀ m, memo = some m → m.Valid inner) (s : NormalizedSpan) :
    (recordSpan deps (inner, memo) s).1 = recordOne deps inner s ∧
      ∀ m, (recordSpan deps (inner, memo) s).2 = some m →
        m.Valid (recordSpan deps (inner, memo) s).1 := by
  rw [recordOne_eq]
  unfold recordSpan
  cases llm : isLlmSpan s with
  | false =>
    simp only [Bool.not_false, if_true, Bool.false_eq_true, if_false, true_and]
    intro m remembered
    split
    · exact (valid m remembered).recordTool s
    · exact valid m remembered
  | true =>
    simp only [Bool.not_true, Bool.false_eq_true, if_false, if_true]
    cases hit : memo.filter (fun m => m.labels = labelsOf s) with
    | some m =>
      obtain ⟨remembered, same⟩ := Option.filter_eq_some_iff.mp hit
      rw [decide_eq_true_eq] at same
      have interned := (valid m remembered).internLabels_eq
      rw [same] at interned
      simp only [interned, true_and]
      exact fun m' remembered' => (valid m' remembered').charge deps m.ids m.folded s
    | none =>
      simp only [true_and]
      intro m remembered
      cases remembered
      exact (LabelMemo.Valid.of_internLabels inner (labelsOf s)).charge deps _ _ s

/-- The memory of a batch changes nothing. -/
theorem record_eq_foldl (inner : Inner) (spans : List NormalizedSpan) :
    record deps inner spans = spans.foldl (recordOne deps) inner := by
  have run (spans : List NormalizedSpan) (inner : Inner) (memo : Option LabelMemo)
      (valid : ∀ m, memo = some m → m.Valid inner) :
      (spans.foldl (recordSpan deps) (inner, memo)).1 = spans.foldl (recordOne deps) inner := by
    induction spans generalizing inner memo with
    | nil => rfl
    | cons s spans inductionHypothesis =>
      obtain ⟨recorded, valid'⟩ := recordSpan_eq deps valid s
      rw [List.foldl_cons, List.foldl_cons, ← recorded]
      exact inductionHypothesis _ _ valid'
  exact run spans inner none (fun _ never => nomatch never)

/-- Batches are recorded as their spans one at a time. -/
theorem foldl_record_eq (inner : Inner) (batches : List (List NormalizedSpan)) :
    batches.foldl (record deps) inner = batches.flatten.foldl (recordOne deps) inner := by
  rw [List.foldl_flatten]
  congr 1
  funext inner spans
  exact record_eq_foldl deps inner spans

/-! ## How many series, and how many requests -/

/-- Only the folded series may take the last slot. -/
def Bounded (inner : Inner) : Prop :=
  inner.series.length < maxSeries ∨
    inner.series.length = maxSeries ∧ (0, 0, 0) ∈ inner.series.map Prod.fst

def requestsOf (inner : Inner) : Nat := (inner.series.map (fun entry => entry.2.requests)).sum

theorem Bounded.charge {inner : Inner} (bounded : Bounded inner) (ids : SeriesKey)
    (folded : Bool) (s : NormalizedSpan) : Bounded (charge deps inner ids folded s) := by
  unfold Usage.charge Bounded at *
  simp only [mem_keys_upsert, length_upsert]
  unfold maxSeries at *
  by_cases full : ids ∉ inner.series.map Prod.fst ∧ 2048 - 1 ≤ inner.series.length
  · rw [if_pos full]
    by_cases held : (0, 0, 0) ∈ inner.series.map Prod.fst
    · rw [if_pos held]
      simpa [held] using bounded
    · rw [if_neg held]
      right
      refine ⟨?_, .inl rfl⟩
      cases bounded with
      | inl below => omega
      | inr whole => exact absurd whole.2 held
  · rw [if_neg full]
    by_cases held : ids ∈ inner.series.map Prod.fst
    · rw [if_pos held]
      cases bounded with
      | inl below => exact .inl below
      | inr whole => exact .inr ⟨whole.1, .inr whole.2⟩
    · rw [if_neg held]
      have room : ¬ 2048 - 1 ≤ inner.series.length := fun few => full ⟨held, few⟩
      left
      omega

/-- What recording one span does to the series. -/
theorem recordOne_series (inner : Inner) (s : NormalizedSpan) :
    (recordOne deps inner s).series = inner.series ∨
      ∃ labelled ids folded, labelled.series = inner.series ∧
        recordOne deps inner s = charge deps labelled ids folded s := by
  rw [recordOne_eq]
  split
  · exact .inr ⟨(internLabels inner (labelsOf s)).2, _, _, rfl, rfl⟩
  · split
    · exact .inl rfl
    · exact .inl rfl

theorem Bounded.recordOne {inner : Inner} (bounded : Bounded inner) (s : NormalizedSpan) :
    Bounded (recordOne deps inner s) := by
  obtain same | ⟨labelled, ids, folded, same, charged⟩ := recordOne_series deps inner s
  · unfold Bounded
    rw [same]
    exact bounded
  · rw [charged]
    apply Bounded.charge
    unfold Bounded
    rw [same]
    exact bounded

theorem requestsOf_recordOne (inner : Inner) (s : NormalizedSpan) :
    requestsOf (recordOne deps inner s) = requestsOf inner + if isLlmSpan s then 1 else 0 := by
  rw [recordOne_eq]
  cases isLlmSpan s with
  | true =>
    simp only [if_true]
    unfold requestsOf charge
    simp only
    rw [sum_upsert (g := Series.requests) rfl (fun _ => rfl)]
    rfl
  | false =>
    simp only [Bool.false_eq_true, if_false, Nat.add_zero]
    split
    · rfl
    · rfl

/-- A batch is recorded as its spans one at a time; the series stay within their bound, and
their requests add up to the LLM spans recorded. -/
theorem record_faithful (modelCap : Nat) (batches : List (List NormalizedSpan)) :
    let inner := batches.foldl (record deps) (Inner.new modelCap)
    inner = batches.flatten.foldl (recordOne deps) (Inner.new modelCap) ∧
      inner.series.length ≤ maxSeries ∧
      requestsOf inner = (batches.flatten.filter isLlmSpan).length := by
  have flat := foldl_record_eq deps (Inner.new modelCap) batches
  intro inner
  refine ⟨flat, ?_⟩
  change (batches.foldl (record deps) (Inner.new modelCap)).series.length ≤ _ ∧
    requestsOf (batches.foldl (record deps) (Inner.new modelCap)) = _
  rw [flat]
  clear flat inner
  have run (spans : List NormalizedSpan) (inner : Inner) (bounded : Bounded inner) :
      Bounded (spans.foldl (recordOne deps) inner) ∧
        requestsOf (spans.foldl (recordOne deps) inner) =
          requestsOf inner + (spans.filter isLlmSpan).length := by
    induction spans generalizing inner with
    | nil => exact ⟨bounded, rfl⟩
    | cons s spans inductionHypothesis =>
      obtain ⟨bounded', requests⟩ := inductionHypothesis _ (bounded.recordOne deps s)
      rw [List.foldl_cons, requests, requestsOf_recordOne, List.filter_cons]
      refine ⟨bounded', ?_⟩
      split
      · rw [List.length_cons]
        omega
      · omega
  obtain ⟨bounded, requests⟩ := run batches.flatten (Inner.new modelCap) (.inl (Nat.zero_lt_succ _))
  refine ⟨?_, requests.trans (Nat.zero_add _)⟩
  cases bounded with
  | inl below => omega
  | inr whole => omega

end Evald.Usage
