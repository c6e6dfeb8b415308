import Evald.Model

/-! # OTLP messages

The messages of the export requests that the mapping reads, field for field.  An
`AnyValue` may have no value set, and a key may have no value at all: the two are
different messages.  Ids and bytes values are lists of bytes, the wire's enumerations
are their numbers.
-/

namespace Evald

mutual

inductive AnyValue where
  | unset
  | string (value : String)
  | bool (value : Bool)
  | int (value : ℤ)
  | double (value : F64)
  | array (values : List AnyValue)
  | kvlist (values : List KeyValue)
  | bytes (value : List UInt8)
  /-- An index into a profile's string table. -/
  | stringIndex (value : ℤ)

inductive KeyValue where
  | mk (key : String) (value : Option AnyValue)

end

def KeyValue.key : KeyValue → String
  | .mk key _ => key

def KeyValue.value : KeyValue → Option AnyValue
  | .mk _ value => value

@[simp] theorem KeyValue.key_mk (key : String) (value : Option AnyValue) :
    (KeyValue.mk key value).key = key := rfl

@[simp] theorem KeyValue.value_mk (key : String) (value : Option AnyValue) :
    (KeyValue.mk key value).value = value := rfl

namespace Otlp

structure Resource where
  attributes : List KeyValue := []

structure Scope where
  name : String := ""
  version : String := ""
  attributes : List KeyValue := []

structure Status where
  message : String := ""
  code : ℤ := 0

/-! ## Traces -/

structure Event where
  timeUnixNano : Nat := 0
  name : String := ""
  attributes : List KeyValue := []

structure Link where
  traceId : List UInt8 := []
  spanId : List UInt8 := []
  attributes : List KeyValue := []

structure Span where
  traceId : List UInt8 := []
  spanId : List UInt8 := []
  parentSpanId : List UInt8 := []
  name : String := ""
  kind : ℤ := 0
  startTimeUnixNano : Nat := 0
  endTimeUnixNano : Nat := 0
  attributes : List KeyValue := []
  events : List Event := []
  links : List Link := []
  status : Option Status := none

structure ScopeSpans where
  scope : Option Scope := none
  spans : List Span := []
  schemaUrl : String := ""

structure ResourceSpans where
  resource : Option Resource := none
  scopeSpans : List ScopeSpans := []
  schemaUrl : String := ""

structure ExportTraceServiceRequest where
  resourceSpans : List ResourceSpans := []

/-! ## Logs -/

structure LogRecord where
  timeUnixNano : Nat := 0
  observedTimeUnixNano : Nat := 0
  severityNumber : ℤ := 0
  severityText : String := ""
  body : Option AnyValue := none
  attributes : List KeyValue := []
  droppedAttributesCount : Nat := 0
  flags : Nat := 0
  traceId : List UInt8 := []
  spanId : List UInt8 := []
  eventName : String := ""

structure ScopeLogs where
  scope : Option Scope := none
  logRecords : List LogRecord := []
  schemaUrl : String := ""

structure ResourceLogs where
  resource : Option Resource := none
  scopeLogs : List ScopeLogs := []
  schemaUrl : String := ""

structure ExportLogsServiceRequest where
  resourceLogs : List ResourceLogs := []

end Otlp

end Evald
