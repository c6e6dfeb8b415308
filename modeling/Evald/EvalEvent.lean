import Evald.Normalize

/-! # Evaluation results

The `gen_ai.evaluation.result` event as a score, from a span event or a log record.
The id is a hash of what names the event, so an event sent again is the same score.
-/

namespace Evald.EvalEvent

open Evald.Lib Evald.Otlp Evald.Normalize

def eventName : String := "gen_ai.evaluation.result"

def nameKey : String := "gen_ai.evaluation.name"
def valueKey : String := "gen_ai.evaluation.score.value"
def labelKey : String := "gen_ai.evaluation.score.label"
def explanationKey : String := "gen_ai.evaluation.explanation"
def errorTypeKey : String := "error.type"

def maxName : Nat := 256
def maxLabel : Nat := 256
def maxExplanation : Nat := 4096
def maxErrorType : Nat := 256

/-- The characters that fit in `max` bytes. -/
def capChars : Nat → List Char → List Char
  | _, [] => []
  | max, c :: rest => if c.utf8Size ≤ max then c :: capChars (max - c.utf8Size) rest else []

def cap (s : String) (max : Nat) : String := String.ofList (capChars max s.toList)

/-- A number of 64 bits, the highest byte first. -/
def beBytes (n : Nat) : List UInt8 := (List.range 8).map (fun i => UInt8.ofNat (n / 256 ^ (7 - i)))

variable (deps : Deps)

def scoreId (traceId spanId name : String) (timeUnixNano : Nat) : String :=
  let hashed := [traceId, spanId, name].flatMap (fun p => utf8 p ++ [0]) ++ beBytes timeUnixNano
  "gaie-" ++ hexEncode ((deps.sha256 hashed).take 16)

/-- The value of a score: a number, else a label, else that the evaluation failed. -/
def scoreValue (value : Option F64) (label errorType : Option String) :
    Option (DataType × Option F64 × Option String) :=
  match value, label, errorType with
  | some v, l, _ => some (.numeric, some v, l)
  | none, some l, _ => some (.categorical, none, some l)
  | none, none, some _ => some (.categorical, none, some "error")
  | none, none, none => none

def scoreComment (explanation errorType : Option String) : Option String :=
  match explanation, errorType with
  | some e, some t => some (e ++ " | error.type=" ++ t)
  | some e, none => some e
  | none, some t => some ("error.type=" ++ t)
  | none, none => none

/-- The span an event names, else its trace, with the span id that is hashed. -/
def scoreTarget (traceId spanId : List UInt8) : Option (ScoreTarget × String) :=
  if spanId.isEmpty then
    if traceId.isEmpty then none else some (.trace (hexEncode traceId), "")
  else some (.span (hexEncode spanId), hexEncode spanId)

/-- A capped text attribute, unless nothing is left of it. -/
def capped (a : List KeyValue) (key : String) (max : Nat) : Option String :=
  ((attrStr deps a key).map (fun s => cap (trim s) max)).filter (· ≠ "")

/-- One evaluation event as a score; `none` when it is malformed or names no target. -/
def scoreFromEvent (traceId spanId : List UInt8) (a : List KeyValue) (idTime ts : Nat) :
    Option Score :=
  match capped deps a nameKey maxName with
  | none => none
  | some name =>
    let value := (attrF64 deps a valueKey).filter F64.isFinite
    let label := capped deps a labelKey maxLabel
    let explanation :=
      ((attrStr deps a explanationKey).map (fun e => cap e maxExplanation)).filter (· ≠ "")
    let errorType := capped deps a errorTypeKey maxErrorType
    match scoreValue value label errorType, scoreTarget traceId spanId with
    | some (dataType, numValue, strValue), some (target, span) =>
      some
        { id := scoreId deps (hexEncode traceId) span name idTime
          target := target
          name := name
          numValue := numValue
          strValue := strValue
          dataType := dataType
          source := .eval
          comment := scoreComment explanation errorType
          tsUnixNano := ts }
    | _, _ => none

end Evald.EvalEvent
