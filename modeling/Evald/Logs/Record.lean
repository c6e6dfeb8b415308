import Evald.Normalize

/-! # One log record

What every dialect uses to read a record and to turn it into a span: its event name,
its trace context and time, ids derived from its parts, and the draft that goes
through the same normalization as a received span.
-/

namespace Evald.Logs

open Evald.Lib Evald.Otlp Evald.Normalize

/-- The resource and scope a record arrived under. -/
structure RecordCtx where
  serviceName : Option String := none
  scopeName : Option String := none
  scopeVersion : Option String := none

/-- What a dialect made of one record. -/
inductive Mapping where
  | span (span : NormalizedSpan)
  /-- Recognised, and covered by another record. -/
  | folded
  | notMine

variable (deps : Deps)

def eventName (rec : LogRecord) : Option String :=
  match (attrStr deps rec.attributes "event.name").filter (· ≠ "") with
  | some n => some n
  | none =>
    if rec.eventName ≠ "" then some rec.eventName
    else
      match rec.body with
      | some (.string s) => if s = "" then none else some s
      | _ => none

/-- An id of the right length that is not all zero. -/
def setId (len : Nat) (b : List UInt8) : Option (List UInt8) :=
  if b.length = len && b.any (· ≠ 0) then some b else none

/-- The record's trace and span id. -/
def traceContext (rec : LogRecord) : Option (List UInt8) × Option (List UInt8) :=
  (setId 16 rec.traceId, setId 8 rec.spanId)

/-- When the record happened, else when it was observed. -/
def recordTime (rec : LogRecord) : Nat :=
  if 0 < rec.timeUnixNano then rec.timeUnixNano else rec.observedTimeUnixNano

/-- What is hashed into an id: each part, ended by a zero byte. -/
def idParts (parts : List String) : List UInt8 := parts.flatMap (fun p => utf8 p ++ [0])

/-- A deterministic id of `len` bytes. -/
def deriveId (len : Nat) (parts : List String) : List UInt8 :=
  match (deps.sha256 (idParts parts)).take len with
  | [] => []
  -- an all-zero id would mean an absent one
  | b :: rest => if (b :: rest).all (· = 0) then 1 :: rest else b :: rest

def kvStr (key value : String) : KeyValue := .mk key (some (.string value))
def kvInt (key : String) (value : ℤ) : KeyValue := .mk key (some (.int value))
def kvF64 (key : String) (value : F64) : KeyValue := .mk key (some (.double value))

/-- Add `kv` unless the record already has that key. -/
def add (attrs : List KeyValue) (kv : KeyValue) : List KeyValue :=
  if attrs.any (fun x => x.key = kv.key) then attrs else attrs ++ [kv]

def addSome (attrs : List KeyValue) (kv : Option KeyValue) : List KeyValue :=
  match kv with
  | some kv => add attrs kv
  | none => attrs

/-- An event is logged when its operation ends. -/
def startOf (time : Nat) (a : List KeyValue) : Nat :=
  time - saturatingMul ((attrU64 a "duration_ms").getD 0) 1000000

/-- The span a mapped record becomes, before it is normalized. -/
structure SpanDraft where
  traceId : List UInt8
  spanId : List UInt8
  parentSpanId : List UInt8
  name : String
  startUnixNano : Nat
  endUnixNano : Nat
  /-- `none` is unset, an error carries its message. -/
  status : Option (Except String Unit)
  attributes : List KeyValue

def draftStatus : Except String Unit → Status
  | .ok _ => { code := 1, message := "" }
  | .error message => { code := 2, message := message }

def SpanDraft.toSpan (draft : SpanDraft) : Span :=
  { traceId := draft.traceId
    spanId := draft.spanId
    parentSpanId := draft.parentSpanId
    name := draft.name
    -- the record says nothing about client or server
    kind := 1
    startTimeUnixNano := draft.startUnixNano
    endTimeUnixNano := draft.endUnixNano
    attributes := draft.attributes
    status := draft.status.map draftStatus }

def SpanDraft.finish (draft : SpanDraft) (ctx : RecordCtx) : NormalizedSpan :=
  normalizeSpan deps draft.toSpan ctx.serviceName ctx.scopeName ctx.scopeVersion

end Evald.Logs
