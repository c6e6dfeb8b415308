import Mathlib

/-! # The normalized span and the score

The data every module passes around, field for field as `model.rs` has it: a span
after normalization, its token counts, and the score that may be attached to it.
Ids are strings (lowercase hex where a door wrote them).  An unsigned count is a
`Nat`, with its bound stated where an operation depends on it, and a double is
the number it denotes: every computation on costs below is over the exact value.
-/

namespace Evald

/-- The value of an IEEE double: a finite one by the rational it denotes. -/
inductive F64 where
  | finite (value : ℚ)
  | infinite (negative : Bool)
  | nan
  deriving DecidableEq, Repr

/-- A JSON value.  Numbers keep the spelling class that decides whether they read
as an integer; an object lists its members in key order. -/
inductive Json where
  | null
  | bool (value : Bool)
  | int (value : ℤ)
  | float (value : ℚ)
  | str (value : String)
  | arr (items : List Json)
  | obj (members : List (String × Json))

def Json.asStr : Json → Option String
  | .str value => some value
  | _ => none

def Json.isString : Json → Bool
  | .str _ => true
  | _ => false

/-- A number without a fraction from zero up, below `2 ^ 64`. -/
def Json.asU64 : Json → Option Nat
  | .int value => if 0 ≤ value ∧ value < 2 ^ 64 then some value.toNat else none
  | _ => none

/-- Attribute maps are ordered by key and extensional. -/
abbrev Attributes := Std.ExtTreeMap String Json

inductive Dialect where
  | openInference
  | genAi
  | mixed
  | unknown
  deriving DecidableEq, Repr

structure Tokens where
  prompt : Option Nat := none
  completion : Option Nat := none
  total : Option Nat := none
  cacheRead : Option Nat := none
  cacheWrite : Option Nat := none
  reasoning : Option Nat := none
  deriving DecidableEq, Repr

/-- True when no token field is populated. -/
def Tokens.isEmpty (t : Tokens) : Bool :=
  t.prompt.isNone && t.completion.isNone && t.total.isNone && t.cacheRead.isNone &&
    t.cacheWrite.isNone && t.reasoning.isNone

structure NormalizedSpan where
  dialect : Dialect := .unknown
  traceId : String
  spanId : String
  parentSpanId : Option String := none
  name : String := "span"
  otelKind : ℤ := 0
  oiKind : Option String := none
  startUnixNano : Nat
  endUnixNano : Nat := 0
  statusCode : ℤ := 0
  statusMessage : Option String := none
  model : Option String := none
  provider : Option String := none
  tokens : Tokens := {}
  costUsd : Option F64 := none
  inputValue : Option String := none
  outputValue : Option String := none
  sessionId : Option String := none
  userId : Option String := none
  serviceName : Option String := none
  scopeName : Option String := none
  scopeVersion : Option String := none
  rawAttributes : Attributes := ∅

/-- What a score is attached to. -/
inductive ScoreTarget where
  | trace (id : String)
  | span (id : String)
  | session (id : String)
  | run (id : String)
  deriving DecidableEq, Repr

inductive DataType where
  | numeric
  | categorical
  | boolean
  | text
  deriving DecidableEq, Repr

/-- Who produced a score. -/
inductive ScoreSource where
  | eval
  | human
  | api
  deriving DecidableEq, Repr

/-- What `eval compare` needs of an evaluator's values over one run; only aggregates carry it. -/
structure AggStats where
  n : Nat
  passCount : Nat
  mean : F64
  variance : F64
  deriving DecidableEq, Repr

structure Score where
  id : String
  target : ScoreTarget
  name : String
  numValue : Option F64 := none
  strValue : Option String := none
  dataType : DataType := .numeric
  source : ScoreSource := .api
  comment : Option String := none
  configId : Option String := none
  aggStats : Option AggStats := none
  tsUnixNano : Nat := 0
  deriving DecidableEq, Repr

end Evald
