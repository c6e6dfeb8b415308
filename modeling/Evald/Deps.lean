import Evald.Otlp
import Evald.Lib.Sha256

/-! # What the code calls and does not contain

The arithmetic and the printing of doubles, the hash behind derived ids, the JSON
reader and writer, and the debug form of a message: each a parameter of what is
built on it.
-/

namespace Evald

/-- IEEE doubles. -/
structure Floats where
  add : F64 → F64 → F64
  mul : F64 → F64 → F64
  div : F64 → F64 → F64
  /-- To the nearest whole number, halves away from zero. -/
  round : F64 → F64
  ofInt : ℤ → F64
  display : F64 → String
  parse : String → Option F64

structure Deps where
  float : Floats
  sha256 : List UInt8 → List UInt8
  parseJson : String → Option Json
  renderJson : Json → String
  debugAnyValue : AnyValue → String

/-- A number as a double. -/
def Json.asF64 (float : Floats) : Json → Option F64
  | .int i => some (float.ofInt i)
  | .float q => some (.finite q)
  | _ => none

/-! ## Predicates on doubles that need no arithmetic -/

def F64.isFinite : F64 → Bool
  | .finite _ => true
  | _ => false

/-- `*v >= 0.0`. -/
def F64.nonneg : F64 → Bool
  | .finite q => 0 ≤ q
  | .infinite negative => !negative
  | .nan => false

/-- `*d as u64` of a whole number from zero up, which saturates. -/
def F64.toU64? : F64 → Option Nat
  | .finite q => if 0 ≤ q ∧ q.den = 1 then some (min q.num.toNat (2 ^ 64 - 1)) else none
  -- the fraction of an infinite double is not a number
  | _ => none

/-! ## A host for inputs without doubles and without JSON texts -/

/-- Doubles that are not computed with. -/
def Floats.unused : Floats :=
  { add := fun _ _ => .nan
    mul := fun _ _ => .nan
    div := fun _ _ => .nan
    round := fun _ => .nan
    ofInt := fun i => .finite i
    display := fun _ => ""
    parse := fun _ => none }

/-- An operation on the values of finite doubles. -/
def F64.exactly (op : ℚ → ℚ → ℚ) : F64 → F64 → F64
  | .finite a, .finite b => .finite (op a b)
  | _, _ => .nan

/-- Doubles that never round. -/
def Floats.exact : Floats :=
  { Floats.unused with
    add := F64.exactly (· + ·)
    mul := F64.exactly (· * ·)
    div := F64.exactly (· / ·)
    round := fun
      | .finite q => .finite (if 0 ≤ q then ⌊q + 1 / 2⌋ else ⌈q - 1 / 2⌉)
      | other => other }

def Deps.hashing : Deps :=
  { float := .unused
    sha256 := Lib.sha256
    parseJson := fun _ => none
    renderJson := fun _ => ""
    debugAnyValue := fun _ => "" }

end Evald
