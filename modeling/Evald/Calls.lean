import Evald.Logs.ClaudeCode

/-! # One call, one span

A call that is described on two signals carries one key on both.  The ledger remembers
the keys of stored calls and a second copy is dropped before the append; a span that
only anchors a call registers its key and is never dropped.  `ingestBatch` is what
every door does with its spans: drop the copies, redact, offload, append, remember.
-/

namespace Evald

open Evald.Lib Evald.Logs

/-- The keys of calls recently stored, the oldest first in `order`. -/
structure CallLedger where
  set : Std.ExtTreeSet String := ∅
  order : List String := []

namespace CallLedger

def capacity : Nat := 16384

def keyOf (s : NormalizedSpan) : Option String :=
  (s.rawAttributes[ClaudeCode.callKey]?).bind Json.asStr

def anchorOf (s : NormalizedSpan) : Option String :=
  (s.rawAttributes[ClaudeCode.callAnchor]?).bind Json.asStr

/-- Can any span of a batch carry a call key? -/
def mayCarryKeys (spans : List NormalizedSpan) : Bool :=
  spans.any (fun s => startsWith s.name "claude_code.")

/-- The keys of a batch, each once. -/
def register (keys : List String) (key : String) : List String :=
  if key ∈ keys then keys else keys ++ [key]

/-- The spans of a batch that are kept, and the keys to remember; `keys` are those met so
far in the batch. -/
@[grind =] def filterFrom (ledger : CallLedger) (keys : List String) :
    List NormalizedSpan → List NormalizedSpan × List String
  | [] => ([], keys)
  | s :: rest =>
    match anchorOf s with
    | some anchor =>
      let (kept, keys) := filterFrom ledger (register keys anchor) rest
      (s :: kept, keys)
    | none =>
      match keyOf s with
      | none =>
        let (kept, keys) := filterFrom ledger keys rest
        (s :: kept, keys)
      | some key =>
        if key ∈ ledger.set ∨ key ∈ keys then filterFrom ledger keys rest
        else
          let (kept, keys) := filterFrom ledger (keys ++ [key]) rest
          (s :: kept, keys)

def filter (ledger : CallLedger) (spans : List NormalizedSpan) :
    List NormalizedSpan × List String := filterFrom ledger [] spans

/-- Past the capacity the oldest keys go. -/
def forgetOldest (set : Std.ExtTreeSet String) : List String → CallLedger
  | [] => { set := set, order := [] }
  | old :: rest =>
    if capacity < (old :: rest).length then forgetOldest (set.erase old) rest
    else { set := set, order := old :: rest }

def insertKey (ledger : CallLedger) (key : String) : CallLedger :=
  if key ∈ ledger.set then ledger
  else { set := ledger.set.insert key, order := ledger.order ++ [key] }

/-- Remember keys whose spans are durable. -/
def remember (ledger : CallLedger) (keys : List String) : CallLedger :=
  let ledger' := keys.foldl insertKey ledger
  forgetOldest ledger'.set ledger'.order

end CallLedger

/-! ## On the way to the store -/

/-- The redactor and the blob store of one ingest.  `put` is the reference a text is
stored under; a write can fail. -/
structure Preparation where
  scrub : String → String
  cap : Nat
  put : String → Option String

namespace Preparation

def blobRefPrefix : String := "evald-blob:"
def previewChars : Nat := 256

mutual

/-- Every string of a value is scrubbed, the keys of an object are left alone. -/
def scrubJson (scrub : String → String) : Json → Json
  | .str s => .str (scrub s)
  | .arr items => .arr (scrubItems scrub items)
  | .obj members => .obj (scrubMembers scrub members)
  | .null => .null
  | .bool b => .bool b
  | .int i => .int i
  | .float q => .float q

def scrubItems (scrub : String → String) : List Json → List Json
  | [] => []
  | item :: rest => scrubJson scrub item :: scrubItems scrub rest

def scrubMembers (scrub : String → String) : List (String × Json) → List (String × Json)
  | [] => []
  | (key, value) :: rest => (key, scrubJson scrub value) :: scrubMembers scrub rest

end

variable (p : Preparation)

def scrubSpan (s : NormalizedSpan) : NormalizedSpan :=
  { s with
    inputValue := s.inputValue.map p.scrub
    outputValue := s.outputValue.map p.scrub
    rawAttributes := s.rawAttributes.map (fun _ value => scrubJson p.scrub value) }

def blobMeta (reference value : String) : Json :=
  .obj [("bytes", .int (utf8 value).length),
    ("preview", .str (String.ofList (value.toList.take previewChars))), ("ref", .str reference)]

/-- The reference of a text that is too long to stay. -/
def offloaded (value : String) : Option String :=
  if (utf8 value).length ≤ p.cap then none else p.put value

def offloadInput (s : NormalizedSpan) : NormalizedSpan :=
  match s.inputValue with
  | none => s
  | some value =>
    match p.offloaded value with
    | none => s
    | some reference =>
      { s with
        inputValue := some reference
        rawAttributes := s.rawAttributes.insert "evald.blob.input" (blobMeta reference value) }

def offloadOutput (s : NormalizedSpan) : NormalizedSpan :=
  match s.outputValue with
  | none => s
  | some value =>
    match p.offloaded value with
    | none => s
    | some reference =>
      { s with
        outputValue := some reference
        rawAttributes := s.rawAttributes.insert "evald.blob.output" (blobMeta reference value) }

def offloadAttribute (key : String) (value : Json) : Json :=
  if startsWith key "evald.blob." then value
  else
    match value with
    | .str s =>
      if startsWith s blobRefPrefix then .str s
      else
        match p.offloaded s with
        | some reference => .str reference
        | none => .str s
    | other => other

def offload (s : NormalizedSpan) : NormalizedSpan :=
  if p.cap = 0 then s
  else
    let s := p.offloadOutput (p.offloadInput s)
    { s with rawAttributes := s.rawAttributes.map p.offloadAttribute }

/-- Redact, then offload. -/
def prepare (s : NormalizedSpan) : NormalizedSpan := p.offload (p.scrubSpan s)

end Preparation

/-- What one batch appends, and the ledger after it. -/
def ingestBatch (ledger : CallLedger) (p : Preparation) (spans : List NormalizedSpan) :
    List NormalizedSpan × CallLedger :=
  let (kept, keys) :=
    if CallLedger.mayCarryKeys spans then ledger.filter spans else (spans, [])
  -- with no keys to remember nothing is forgotten either
  (kept.map p.prepare, if keys.isEmpty then ledger else ledger.remember keys)

end Evald
