import Evald.Normalize

/-! # Deriving a cost

`apply` fills the cost of a span that has none from a price table.  A reported cost
comes with the attribute it was read from, so a span with a cost and no cost
attribute is one that was priced here.
-/

namespace Evald.Pricing

open Evald.Lib Evald.Normalize

structure Rates where
  input : F64
  output : F64
  cacheRead : Option F64 := none
  cacheWrite : Option F64 := none

/-- Rates that replace the base ones once the input of a request passes `above`. -/
structure Tier where
  above : Nat
  input : Option F64 := none
  output : Option F64 := none
  cacheRead : Option F64 := none
  cacheWrite : Option F64 := none

structure Price where
  base : Rates
  reasoning : Option F64 := none
  /-- Ascending by threshold. -/
  tiers : List Tier := []

def Tier.overlay (rates : Rates) (tier : Tier) : Rates :=
  { input := tier.input.getD rates.input
    output := tier.output.getD rates.output
    cacheRead := tier.cacheRead.or rates.cacheRead
    cacheWrite := tier.cacheWrite.or rates.cacheWrite }

def Price.ratesFor (p : Price) (totalIn : Nat) : Rates :=
  (p.tiers.filter (fun t => t.above < totalIn)).foldl Tier.overlay p.base

structure PriceTable where
  version : String
  models : Std.ExtTreeMap String Price

/-! ## Finding the price of a model -/

/-- The region in front of a cross-region model id is dropped. -/
def stripRegion (name : String) : String :=
  let regions := ["us-gov.", "us.", "eu.", "apac.", "global.", "au.", "jp.", "ca."]
  (regions.findSome? (stripPrefix name)).getD name

def allDigits (s : String) : Bool := s.toList.all Char.isDigit

/-- A trailing segment that names a snapshot rather than a model. -/
def isVersionSegment (segment : String) : Bool :=
  if segment = "latest" then true
  else if 2 ≤ (utf8 segment).length && allDigits segment then true
  else
    match stripPrefix segment "v" with
    | some rest =>
      let (major, minor) := (splitOnce rest ':').getD (rest, "0")
      rest ≠ "" && allDigits major && minor ≠ "" && allDigits minor
    | none => false

def PriceTable.find (table : PriceTable) (name : String) : Option (String × Price) :=
  (table.models[name]?).map (fun price => (name, price))

/-- Trailing version segments are removed one at a time. -/
def PriceTable.lookupStrippingVersions (table : PriceTable) :
    Nat → String → Option (String × Price)
  | 0, _ => none
  | fuel + 1, current =>
    match table.find current with
    | some hit => some hit
    | none =>
      match rsplitOnce current '-' with
      | some (head, segment) =>
        if isVersionSegment segment && head ≠ "" then
          table.lookupStrippingVersions fuel head
        else none
      | none => none

/-- Leading `provider/` segments are dropped one at a time. -/
def PriceTable.lookupDroppingProviders (table : PriceTable) :
    Nat → String → Option (String × Price)
  | 0, _ => none
  | fuel + 1, rest =>
    let base := String.ofList (rest.toList.takeWhile (· ≠ '@'))
    match [base, stripRegion base].findSome? (table.lookupStrippingVersions 5) with
    | some hit => some hit
    | none =>
      match splitOnce rest '/' with
      | some (_, tail) => if tail = "" then none else table.lookupDroppingProviders fuel tail
      | none => none

/-- The price of a model id, with the table's own name for it. -/
def PriceTable.lookup (table : PriceTable) (model : String) : Option (String × Price) :=
  match table.find model with
  | some hit => some hit
  | none =>
    let lower := asciiLowercase model
    table.lookupDroppingProviders (lower.length + 1) lower

/-! ## How the counts relate -/

/-- Both default to `false`: cached tokens are in the input count, reasoning tokens in
the completion. -/
structure Basis where
  cacheExcl : Bool := false
  reasoningAdd : Bool := false
  deriving DecidableEq, Repr

def Basis.stamp (b : Basis) : Option String :=
  match b.cacheExcl, b.reasoningAdd with
  | false, false => none
  | true, false => some "cache_excl"
  | false, true => some "reasoning_add"
  | true, true => some "cache_excl,reasoning_add"

def Basis.fromStamp (s : String) : Basis :=
  { cacheExcl := containsText s "cache_excl"
    reasoningAdd := containsText s "reasoning_add" }

/-- What `total - (prompt + completion)` says, when it says something. -/
def basisOfExtra (extra cache reasoning : Nat) : Option Basis :=
  if extra = 0 then some {}
  else if cache ≠ reasoning && 0 < cache && extra = cache then some { cacheExcl := true }
  else if cache ≠ reasoning && 0 < reasoning && extra = reasoning then
    some { reasoningAdd := true }
  else if 0 < cache && 0 < reasoning && extra = wrappingAdd cache reasoning then
    some { cacheExcl := true, reasoningAdd := true }
  else none

/-- How to read the counts.  `reportedTotal` is the total the instrumentor reported. -/
def detectBasis (t : Tokens) (reportedTotal : Option Nat) : Basis :=
  let p := t.prompt.getD 0
  let c := t.completion.getD 0
  let cache := wrappingAdd (t.cacheRead.getD 0) (t.cacheWrite.getD 0)
  let decided :=
    match reportedTotal with
    | some total =>
      if wrappingAdd p c ≤ total then
        basisOfExtra (total - wrappingAdd p c) cache (t.reasoning.getD 0)
      else none
    | none => none
  decided.getD { cacheExcl := 0 < cache && p < cache }

/-! ## The cost -/

/-- Rounded to `1e-12` USD. -/
def roundUsd (float : Floats) (usd : F64) : F64 :=
  float.div (float.round (float.mul usd (.finite (10 ^ 12)))) (.finite (10 ^ 12))

/-- USD for `t` at price `p`: cached and reasoning tokens are each priced once. -/
def priceTokens (float : Floats) (p : Price) (t : Tokens) (b : Basis) : F64 :=
  let prompt := t.prompt.getD 0
  let comp := t.completion.getD 0
  let cr := t.cacheRead.getD 0
  let cw := t.cacheWrite.getD 0
  let r := t.reasoning.getD 0
  let (uncached, totalIn) :=
    if b.cacheExcl then (prompt, wrappingAdd (wrappingAdd prompt cr) cw)
    else (prompt - wrappingAdd cr cw, prompt)
  let textOut := if b.reasoningAdd then comp else comp - r
  let rates := p.ratesFor totalIn
  let times (count : Nat) (rate : F64) := float.mul (float.ofInt count) rate
  roundUsd float
    (float.add (float.add (float.add (float.add
      (times uncached rates.input)
      (times cr (rates.cacheRead.getD rates.input)))
      (times cw (rates.cacheWrite.getD rates.input)))
      (times textOut rates.output))
      (times r (p.reasoning.getD rates.output)))

/-- A reported cost, readable or not. -/
def hasCostAttribute (span : NormalizedSpan) : Bool :=
  costAttributes.any (fun k => span.rawAttributes.contains k)

def reportedTotal (span : NormalizedSpan) : Option Nat :=
  ["llm.token_count.total", "gen_ai.usage.total_tokens"].findSome? (fun k =>
    (span.rawAttributes[k]?).bind Json.asU64)

structure Derived where
  cost : F64
  model : String
  basis : Basis

/-- Price a span from its stored fields. -/
def derive (float : Floats) (table : PriceTable) (span : NormalizedSpan) : Option Derived :=
  if span.costUsd.isSome then none
  else
    match span.model with
    | none => none
    | some model =>
      if span.tokens.prompt.isNone && span.tokens.completion.isNone then none
      else
        match table.lookup model with
        | none => none
        | some (key, price) =>
          if hasCostAttribute span then none
          else
            let basis := detectBasis span.tokens (reportedTotal span)
            some
              { cost := priceTokens float price span.tokens basis
                model := key
                basis := basis }

def basisKey : String := "evald.cost.basis"

/-- Fill the cost of a span that has none.  A basis the caller sent is dropped. -/
def apply (float : Floats) (table : PriceTable) (span : NormalizedSpan) : NormalizedSpan :=
  match derive float table span with
  | none => span
  | some d =>
    let raw := span.rawAttributes.erase basisKey
    { span with
      costUsd := some d.cost
      rawAttributes :=
        match d.basis.stamp with
        | some s => raw.insert basisKey (.str s)
        | none => raw }

/-- Only the cost and the basis change. -/
theorem apply_spec (float : Floats) (table : PriceTable) (s : NormalizedSpan) :
    ∃ (cost : Option F64) (raw : Attributes),
      (∀ key, key ≠ basisKey → raw[key]? = s.rawAttributes[key]?) ∧
      apply float table s = { s with costUsd := cost, rawAttributes := raw } := by
  unfold apply
  split
  · exact ⟨s.costUsd, s.rawAttributes, fun _ _ => rfl, rfl⟩
  · next d _ =>
    refine ⟨_, _, fun key other => ?_, rfl⟩
    have different : ¬ compare basisKey key = .eq := by
      rw [Std.LawfulEqOrd.compare_eq_iff_eq]
      exact Ne.symm other
    split
    · rw [getElem?_insert_if, if_neg other, Std.ExtTreeMap.getElem?_erase, if_neg different]
    · rw [Std.ExtTreeMap.getElem?_erase, if_neg different]

end Evald.Pricing
