import Evald.Model

/-! # A cold block

The rows of a block as columns: one of each field of a span, and the attributes as text.
The columns are written and read by their position, in two places, and a null stands for an
absent field.  `decodeBatch_buildBatch` says that the two places agree.
-/

namespace Evald

/-- The text of the `dialect` column. -/
def Dialect.asStr : Dialect → String
  | .openInference => "open_inference"
  | .genAi => "gen_ai"
  | .mixed => "mixed"
  | .unknown => "unknown"

def Dialect.fromStrLenient (s : String) : Dialect :=
  if s = "open_inference" then .openInference
  else if s = "gen_ai" then .genAi
  else if s = "mixed" then .mixed
  else .unknown

theorem Dialect.fromStrLenient_asStr (dialect : Dialect) :
    Dialect.fromStrLenient dialect.asStr = dialect := by
  cases dialect <;> decide

namespace Store

/-! ## Record batches -/

inductive ColumnType where
  | utf8
  | int32
  | uint64
  | float64
  deriving DecidableEq, Repr

structure Field where
  name : String
  dataType : ColumnType
  nullable : Bool

/-- A column, as its builder stored it. -/
inductive Column where
  | utf8 (values : List (Option String))
  | int32 (values : List (Option ℤ))
  | uint64 (values : List (Option Nat))
  | float64 (values : List (Option F64))

def Column.dataType : Column → ColumnType
  | .utf8 _ => .utf8
  | .int32 _ => .int32
  | .uint64 _ => .uint64
  | .float64 _ => .float64

def Column.length : Column → Nat
  | .utf8 values => values.length
  | .int32 values => values.length
  | .uint64 values => values.length
  | .float64 values => values.length

def Column.hasNulls : Column → Bool
  | .utf8 values => values.any Option.isNone
  | .int32 values => values.any Option.isNone
  | .uint64 values => values.any Option.isNone
  | .float64 values => values.any Option.isNone

/-- A field takes a column of its type, with nulls only where it allows them. -/
def Field.takes (field : Field) (column : Column) : Bool :=
  column.dataType = field.dataType && (field.nullable || !column.hasNulls)

structure RecordBatch where
  schema : List Field
  columns : List Column
  numRows : Nat

/-- Columns of one length, one for each field and each as the field has it. -/
def RecordBatch.tryNew (schema : List Field) (columns : List Column) : Option RecordBatch :=
  match columns with
  | [] => none
  | first :: _ =>
    if columns.length = schema.length && columns.all (fun c => c.length = first.length) &&
        (schema.zip columns).all (fun pair => pair.1.takes pair.2) then
      some { schema := schema, columns := columns, numRows := first.length }
    else none

/-! ## Writing -/

/-- The columns of a block, in order. -/
def schema : List Field :=
  [⟨"dialect", .utf8, false⟩,
    ⟨"trace_id", .utf8, false⟩,
    ⟨"span_id", .utf8, false⟩,
    ⟨"parent_span_id", .utf8, true⟩,
    ⟨"name", .utf8, false⟩,
    ⟨"otel_kind", .int32, false⟩,
    ⟨"oi_kind", .utf8, true⟩,
    ⟨"start_unix_nano", .uint64, false⟩,
    ⟨"end_unix_nano", .uint64, false⟩,
    ⟨"status_code", .int32, false⟩,
    ⟨"status_message", .utf8, true⟩,
    ⟨"model", .utf8, true⟩,
    ⟨"provider", .utf8, true⟩,
    ⟨"prompt_tokens", .uint64, true⟩,
    ⟨"completion_tokens", .uint64, true⟩,
    ⟨"total_tokens", .uint64, true⟩,
    ⟨"cache_read_tokens", .uint64, true⟩,
    ⟨"cache_write_tokens", .uint64, true⟩,
    ⟨"reasoning_tokens", .uint64, true⟩,
    ⟨"cost_usd", .float64, true⟩,
    ⟨"input_value", .utf8, true⟩,
    ⟨"output_value", .utf8, true⟩,
    ⟨"session_id", .utf8, true⟩,
    ⟨"user_id", .utf8, true⟩,
    ⟨"service_name", .utf8, true⟩,
    ⟨"scope_name", .utf8, true⟩,
    ⟨"scope_version", .utf8, true⟩,
    ⟨"raw_attributes_json", .utf8, false⟩]

/-- The text of an attribute map. -/
structure AttributesCodec where
  write : Attributes → Option String
  parse : String → Option Attributes

variable (codec : AttributesCodec)

/-- A builder for each column, with what was stored so far. -/
structure Columns where
  dialect : List (Option String) := []
  traceId : List (Option String) := []
  spanId : List (Option String) := []
  parentSpanId : List (Option String) := []
  name : List (Option String) := []
  otelKind : List (Option ℤ) := []
  oiKind : List (Option String) := []
  start : List (Option Nat) := []
  stop : List (Option Nat) := []
  statusCode : List (Option ℤ) := []
  statusMessage : List (Option String) := []
  model : List (Option String) := []
  provider : List (Option String) := []
  prompt : List (Option Nat) := []
  completion : List (Option Nat) := []
  total : List (Option Nat) := []
  cacheRead : List (Option Nat) := []
  cacheWrite : List (Option Nat) := []
  reasoning : List (Option Nat) := []
  cost : List (Option F64) := []
  inputValue : List (Option String) := []
  outputValue : List (Option String) := []
  sessionId : List (Option String) := []
  userId : List (Option String) := []
  serviceName : List (Option String) := []
  scopeName : List (Option String) := []
  scopeVersion : List (Option String) := []
  rawAttributesJson : List (Option String) := []

/-- One row, stored in every column. -/
def Columns.append (c : Columns) (s : NormalizedSpan) (raw : String) : Columns where
  dialect := c.dialect ++ [some s.dialect.asStr]
  traceId := c.traceId ++ [some s.traceId]
  spanId := c.spanId ++ [some s.spanId]
  parentSpanId := c.parentSpanId ++ [s.parentSpanId]
  name := c.name ++ [some s.name]
  otelKind := c.otelKind ++ [some s.otelKind]
  oiKind := c.oiKind ++ [s.oiKind]
  start := c.start ++ [some s.startUnixNano]
  stop := c.stop ++ [some s.endUnixNano]
  statusCode := c.statusCode ++ [some s.statusCode]
  statusMessage := c.statusMessage ++ [s.statusMessage]
  model := c.model ++ [s.model]
  provider := c.provider ++ [s.provider]
  prompt := c.prompt ++ [s.tokens.prompt]
  completion := c.completion ++ [s.tokens.completion]
  total := c.total ++ [s.tokens.total]
  cacheRead := c.cacheRead ++ [s.tokens.cacheRead]
  cacheWrite := c.cacheWrite ++ [s.tokens.cacheWrite]
  reasoning := c.reasoning ++ [s.tokens.reasoning]
  cost := c.cost ++ [s.costUsd]
  inputValue := c.inputValue ++ [s.inputValue]
  outputValue := c.outputValue ++ [s.outputValue]
  sessionId := c.sessionId ++ [s.sessionId]
  userId := c.userId ++ [s.userId]
  serviceName := c.serviceName ++ [s.serviceName]
  scopeName := c.scopeName ++ [s.scopeName]
  scopeVersion := c.scopeVersion ++ [s.scopeVersion]
  rawAttributesJson := c.rawAttributesJson ++ [some raw]

/-- The arrays, in the order of the schema. -/
def Columns.arrays (c : Columns) : List Column :=
  [.utf8 c.dialect, .utf8 c.traceId, .utf8 c.spanId, .utf8 c.parentSpanId, .utf8 c.name,
    .int32 c.otelKind, .utf8 c.oiKind, .uint64 c.start, .uint64 c.stop, .int32 c.statusCode,
    .utf8 c.statusMessage, .utf8 c.model, .utf8 c.provider, .uint64 c.prompt,
    .uint64 c.completion, .uint64 c.total, .uint64 c.cacheRead, .uint64 c.cacheWrite,
    .uint64 c.reasoning, .float64 c.cost, .utf8 c.inputValue, .utf8 c.outputValue,
    .utf8 c.sessionId, .utf8 c.userId, .utf8 c.serviceName, .utf8 c.scopeName,
    .utf8 c.scopeVersion, .utf8 c.rawAttributesJson]

/-- Only the attributes of a span can fail to be written. -/
def appendSpan (columns : Columns) (s : NormalizedSpan) : Option Columns := do
  let raw ← codec.write s.rawAttributes
  pure (columns.append s raw)

/-- One row per span. -/
def buildBatch (spans : List NormalizedSpan) : Option RecordBatch := do
  let columns ← spans.foldlM (appendSpan codec) {}
  RecordBatch.tryNew schema columns.arrays

/-! ## Reading -/

def strCol (batch : RecordBatch) (idx : Nat) : Option (List (Option String)) :=
  match batch.columns[idx]? with
  | some (.utf8 values) => some values
  | _ => none

def u64Col (batch : RecordBatch) (idx : Nat) : Option (List (Option Nat)) :=
  match batch.columns[idx]? with
  | some (.uint64 values) => some values
  | _ => none

def i32Col (batch : RecordBatch) (idx : Nat) : Option (List (Option ℤ)) :=
  match batch.columns[idx]? with
  | some (.int32 values) => some values
  | _ => none

def f64Col (batch : RecordBatch) (idx : Nat) : Option (List (Option F64)) :=
  match batch.columns[idx]? with
  | some (.float64 values) => some values
  | _ => none

/-- Every column, by its position. -/
def readColumns (batch : RecordBatch) : Option Columns := do
  let dialect ← strCol batch 0
  let traceId ← strCol batch 1
  let spanId ← strCol batch 2
  let parentSpanId ← strCol batch 3
  let name ← strCol batch 4
  let otelKind ← i32Col batch 5
  let oiKind ← strCol batch 6
  let start ← u64Col batch 7
  let stop ← u64Col batch 8
  let statusCode ← i32Col batch 9
  let statusMessage ← strCol batch 10
  let model ← strCol batch 11
  let provider ← strCol batch 12
  let prompt ← u64Col batch 13
  let completion ← u64Col batch 14
  let total ← u64Col batch 15
  let cacheRead ← u64Col batch 16
  let cacheWrite ← u64Col batch 17
  let reasoning ← u64Col batch 18
  let cost ← f64Col batch 19
  let inputValue ← strCol batch 20
  let outputValue ← strCol batch 21
  let sessionId ← strCol batch 22
  let userId ← strCol batch 23
  let serviceName ← strCol batch 24
  let scopeName ← strCol batch 25
  let scopeVersion ← strCol batch 26
  let rawAttributesJson ← strCol batch 27
  pure
    { dialect := dialect
      traceId := traceId
      spanId := spanId
      parentSpanId := parentSpanId
      name := name
      otelKind := otelKind
      oiKind := oiKind
      start := start
      stop := stop
      statusCode := statusCode
      statusMessage := statusMessage
      model := model
      provider := provider
      prompt := prompt
      completion := completion
      total := total
      cacheRead := cacheRead
      cacheWrite := cacheWrite
      reasoning := reasoning
      cost := cost
      inputValue := inputValue
      outputValue := outputValue
      sessionId := sessionId
      userId := userId
      serviceName := serviceName
      scopeName := scopeName
      scopeVersion := scopeVersion
      rawAttributesJson := rawAttributesJson }

/-- A null is read as none. -/
def optAt {α : Type} (values : List (Option α)) (i : Nat) : Option α := values[i]?.join

/-- The slot of a null holds an empty text, or zero. -/
def valueAt {α : Type} [Inhabited α] (values : List (Option α)) (i : Nat) : α :=
  (optAt values i).getD default

/-- The span in a row. -/
def Columns.row (c : Columns) (i : Nat) : Option NormalizedSpan := do
  let rawAttributes ← codec.parse (valueAt c.rawAttributesJson i)
  pure
    { dialect := Dialect.fromStrLenient (valueAt c.dialect i)
      traceId := valueAt c.traceId i
      spanId := valueAt c.spanId i
      parentSpanId := optAt c.parentSpanId i
      name := valueAt c.name i
      otelKind := valueAt c.otelKind i
      oiKind := optAt c.oiKind i
      startUnixNano := valueAt c.start i
      endUnixNano := valueAt c.stop i
      statusCode := valueAt c.statusCode i
      statusMessage := optAt c.statusMessage i
      model := optAt c.model i
      provider := optAt c.provider i
      tokens :=
        { prompt := optAt c.prompt i
          completion := optAt c.completion i
          total := optAt c.total i
          cacheRead := optAt c.cacheRead i
          cacheWrite := optAt c.cacheWrite i
          reasoning := optAt c.reasoning i }
      costUsd := optAt c.cost i
      inputValue := optAt c.inputValue i
      outputValue := optAt c.outputValue i
      sessionId := optAt c.sessionId i
      userId := optAt c.userId i
      serviceName := optAt c.serviceName i
      scopeName := optAt c.scopeName i
      scopeVersion := optAt c.scopeVersion i
      rawAttributes := rawAttributes }

/-- The spans of a batch, behind those that were read before. -/
def decodeBatch (batch : RecordBatch) (out : List NormalizedSpan) :
    Option (List NormalizedSpan) := do
  let columns ← readColumns batch
  let rows ← (List.range batch.numRows).mapM (columns.row codec)
  pure (out ++ rows)

/-! ## The round trip -/

variable {codec}

/-- The attributes are written, and read back from what was written. -/
def AttributesCodec.RoundTrips (codec : AttributesCodec) (attrs : Attributes) : Prop :=
  ∃ text, codec.write attrs = some text ∧ codec.parse text = some attrs

theorem optAt_map {α : Type} (spans : List NormalizedSpan) (field : NormalizedSpan → Option α)
    {i : Nat} (row : i < spans.length) : optAt (spans.map field) i = field spans[i] := by
  rw [optAt, List.getElem?_map, List.getElem?_eq_getElem row]
  rfl

theorem valueAt_map {α : Type} [Inhabited α] (spans : List NormalizedSpan)
    (field : NormalizedSpan → α) {i : Nat} (row : i < spans.length) :
    valueAt (spans.map (fun s => some (field s))) i = field spans[i] := by
  rw [valueAt, optAt_map spans (fun s => some (field s)) row, Option.getD_some]

/-- A loop over the row numbers that gives each row in turn. -/
theorem mapM_range {α : Type} {xs : List α} {row : Nat → Option α}
    (each : ∀ i (small : i < xs.length), row i = some xs[i]) :
    (List.range xs.length).mapM row = some xs := by
  induction xs using List.reverseRecOn with
  | nil => rfl
  | append_singleton xs x inductionHypothesis =>
    have before : (List.range xs.length).mapM row = some xs := by
      apply inductionHypothesis
      intro i small
      rw [each i (by rw [List.length_append]; omega), List.getElem_append_left small]
    have last : row xs.length = some x := by
      rw [each xs.length (by simp), List.getElem_concat_length rfl]
    rw [List.length_append, List.length_singleton, List.range_succ, List.mapM_append, before,
      List.mapM_cons, last]
    rfl

/-- The columns of these spans, with the texts of their attributes. -/
def columnsOf (spans : List NormalizedSpan) (texts : List String) : Columns where
  dialect := spans.map (fun s => some s.dialect.asStr)
  traceId := spans.map (fun s => some s.traceId)
  spanId := spans.map (fun s => some s.spanId)
  parentSpanId := spans.map (fun s => s.parentSpanId)
  name := spans.map (fun s => some s.name)
  otelKind := spans.map (fun s => some s.otelKind)
  oiKind := spans.map (fun s => s.oiKind)
  start := spans.map (fun s => some s.startUnixNano)
  stop := spans.map (fun s => some s.endUnixNano)
  statusCode := spans.map (fun s => some s.statusCode)
  statusMessage := spans.map (fun s => s.statusMessage)
  model := spans.map (fun s => s.model)
  provider := spans.map (fun s => s.provider)
  prompt := spans.map (fun s => s.tokens.prompt)
  completion := spans.map (fun s => s.tokens.completion)
  total := spans.map (fun s => s.tokens.total)
  cacheRead := spans.map (fun s => s.tokens.cacheRead)
  cacheWrite := spans.map (fun s => s.tokens.cacheWrite)
  reasoning := spans.map (fun s => s.tokens.reasoning)
  cost := spans.map (fun s => s.costUsd)
  inputValue := spans.map (fun s => s.inputValue)
  outputValue := spans.map (fun s => s.outputValue)
  sessionId := spans.map (fun s => s.sessionId)
  userId := spans.map (fun s => s.userId)
  serviceName := spans.map (fun s => s.serviceName)
  scopeName := spans.map (fun s => s.scopeName)
  scopeVersion := spans.map (fun s => s.scopeVersion)
  rawAttributesJson := texts.map some

theorem columnsOf_append (spans : List NormalizedSpan) (texts : List String)
    (s : NormalizedSpan) (raw : String) :
    (columnsOf spans texts).append s raw = columnsOf (spans ++ [s]) (texts ++ [raw]) := by
  simp [columnsOf, Columns.append]

/-- The loop stores every row, with a text that reads back as the row's attributes. -/
theorem foldlM_appendSpan (codec : AttributesCodec) {spans : List NormalizedSpan}
    (roundTrips : ∀ s ∈ spans, codec.RoundTrips s.rawAttributes) :
    ∃ texts, spans.foldlM (appendSpan codec) {} = some (columnsOf spans texts) ∧
      texts.length = spans.length ∧ ∀ i (row : i < spans.length),
        codec.parse (valueAt (texts.map some) i) = some spans[i].rawAttributes := by
  induction spans using List.reverseRecOn with
  | nil => exact ⟨[], rfl, rfl, fun i row => absurd row (Nat.not_lt_zero i)⟩
  | append_singleton spans s inductionHypothesis =>
    obtain ⟨texts, ran, length, each⟩ :=
      inductionHypothesis (fun s member => roundTrips s (List.mem_append_left _ member))
    obtain ⟨text, written, parsed⟩ := roundTrips s (by simp)
    refine ⟨texts ++ [text], ?_, by simp [length], fun i row => ?_⟩
    · rw [List.foldlM_append, ran]
      simp [appendSpan, written, columnsOf_append]
    · rw [List.length_append, List.length_singleton] at row
      rw [valueAt, optAt, List.map_append]
      by_cases before : i < spans.length
      · rw [List.getElem?_append_left (by rw [List.length_map]; omega),
          List.getElem_append_left before]
        exact each i before
      · have last : i = texts.length := by omega
        rw [List.getElem?_append_right (by rw [List.length_map]; omega),
          List.getElem_append_right (by omega)]
        simp only [last, List.length_map, Nat.sub_self, length]
        exact parsed

/-- A row of the columns is the span it was stored for. -/
theorem row_columnsOf {spans : List NormalizedSpan} {texts : List String} {i : Nat}
    (row : i < spans.length)
    (parsed : codec.parse (valueAt (texts.map some) i) = some spans[i].rawAttributes) :
    (columnsOf spans texts).row codec i = some spans[i] := by
  rw [Columns.row]
  simp only [columnsOf, parsed, Option.bind_eq_bind, Option.bind_some, valueAt_map spans _ row,
    optAt_map spans _ row, Dialect.fromStrLenient_asStr]
  rfl

/-- The columns are as the schema has them. -/
theorem tryNew_columnsOf {spans : List NormalizedSpan} {texts : List String}
    (length : texts.length = spans.length) :
    RecordBatch.tryNew schema (columnsOf spans texts).arrays =
      some { schema := schema, columns := (columnsOf spans texts).arrays,
             numRows := spans.length } := by
  have lengths : (columnsOf spans texts).arrays.all (fun c => c.length = spans.length) = true := by
    simp [Columns.arrays, columnsOf, Column.length, length]
  have taken : (schema.zip (columnsOf spans texts).arrays).all (fun pair => pair.1.takes pair.2) =
      true := by
    simp [Columns.arrays, columnsOf, schema, Field.takes, Column.dataType, Column.hasNulls]
  have first : (Column.utf8 (columnsOf spans texts).dialect).length = spans.length := by
    simp [columnsOf, Column.length]
  show (if (((columnsOf spans texts).arrays.length = schema.length : Bool) &&
      (columnsOf spans texts).arrays.all (fun c =>
        c.length = (Column.utf8 (columnsOf spans texts).dialect).length) &&
      (schema.zip (columnsOf spans texts).arrays).all (fun pair => pair.1.takes pair.2)) = true
    then some (RecordBatch.mk schema (columnsOf spans texts).arrays
      (Column.utf8 (columnsOf spans texts).dialect).length)
    else none) = _
  rw [first, lengths, taken]
  rfl

theorem readColumns_arrays (c : Columns) (numRows : Nat) :
    readColumns { schema := schema, columns := c.arrays, numRows := numRows } = some c := rfl

/-- What is read of a batch is what was written to it, behind what was read before. -/
theorem decodeBatch_buildBatch (codec : AttributesCodec) (spans out : List NormalizedSpan)
    (roundTrips : ∀ s ∈ spans, codec.RoundTrips s.rawAttributes) :
    (buildBatch codec spans).bind (fun batch => decodeBatch codec batch out) =
      some (out ++ spans) := by
  obtain ⟨texts, ran, length, parsed⟩ := foldlM_appendSpan codec roundTrips
  rw [buildBatch, ran, Option.bind_eq_bind, Option.bind_some, tryNew_columnsOf length,
    Option.bind_some, decodeBatch, readColumns_arrays, Option.bind_eq_bind, Option.bind_some]
  rw [mapM_range (fun i row => row_columnsOf row (parsed i row))]
  rfl

/-- A codec that knows the empty map. -/
def emptyCodec : AttributesCodec where
  write := fun attrs => if attrs.isEmpty then some "\x7b\x7d" else none
  parse := fun text => if text = "\x7b\x7d" then some ∅ else none

def pricedSpan : NormalizedSpan where
  dialect := .genAi
  traceId := "aa"
  spanId := "01"
  parentSpanId := some ""
  startUnixNano := 1700000000000000000
  statusCode := 2
  tokens := { prompt := some 1875, cacheWrite := some 0 }
  costUsd := some .nan

theorem decodeBatch_buildBatch_pair :
    (buildBatch emptyCodec [pricedSpan, { traceId := "aa", spanId := "02", startUnixNano := 1 }]).bind
        (fun batch => decodeBatch emptyCodec batch []) =
      some [pricedSpan, { traceId := "aa", spanId := "02", startUnixNano := 1 }] := by
  refine decodeBatch_buildBatch emptyCodec
    [pricedSpan, { traceId := "aa", spanId := "02", startUnixNano := 1 }] [] ?_
  have empty : emptyCodec.RoundTrips ∅ := ⟨"\x7b\x7d", rfl, rfl⟩
  intro s member
  simp only [List.mem_cons, List.not_mem_nil, or_false] at member
  cases member with
  | inl first =>
    rw [first]
    exact empty
  | inr second =>
    rw [second]
    exact empty

end Store

end Evald
