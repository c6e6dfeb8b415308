import Evald.Model
import Evald.Lib.Text
import Evald.Lib.Multimap

/-! # Agent and tool attributes

The same fact arrives under different names.  The accessors try each spelling, and
`normalize` writes the canonical key onto a tool or agent span that carries only an
alias and sets the usage of an in-process agent aside.
-/

namespace Evald.Agent

open Evald.Lib

def usageKey : String := "evald.usage"
def usageAggregate : String := "aggregate"
def usageCopy : String := "copy"

/-- The OTLP `SpanKind` of a client span. -/
def spanKindClient : ℤ := 3

/-! ## Spellings of each fact, canonical key first -/

def toolNameKeys : List String :=
  ["gen_ai.tool.name", "tool.name", "ai.toolCall.name", "tool_name"]
def toolCallIdKeys : List String :=
  ["gen_ai.tool.call.id", "tool_call.id", "ai.toolCall.id", "tool_use_id"]
def toolArgumentsKeys : List String :=
  ["gen_ai.tool.call.arguments", "ai.toolCall.args", "tool_input", "input.value"]
def agentNameKeys : List String := ["gen_ai.agent.name", "agent.name"]
def agentIdKeys : List String := ["gen_ai.agent.id", "agent.id"]

/-- The string under a key, unless it is empty. -/
def strAt (s : NormalizedSpan) (key : String) : Option String :=
  ((s.rawAttributes[key]?).bind Json.asStr).filter (· ≠ "")

def firstStr (s : NormalizedSpan) (keys : List String) : Option String :=
  keys.findSome? (strAt s)

def isKind (s : NormalizedSpan) (kind : String) : Bool :=
  match s.oiKind with
  | some k => eqIgnoreAsciiCase k kind
  | none => false

def toolName (s : NormalizedSpan) : Option String := firstStr s toolNameKeys

/-- The id of the tool call, shared by every span that reports the same call. -/
def toolCallId (s : NormalizedSpan) : Option String := firstStr s toolCallIdKeys

def agentName (s : NormalizedSpan) : Option String := firstStr s agentNameKeys

/-- The arguments under one key, as sent. -/
def argumentsAt (render : Json → String) (s : NormalizedSpan) (key : String) : Option String :=
  match s.rawAttributes[key]? with
  | none => none
  | some .null => none
  | some (.str value) => if value = "" then none else some value
  | some other => some (render other)

def toolArguments (render : Json → String) (s : NormalizedSpan) : Option String :=
  toolArgumentsKeys.findSome? (argumentsAt render s)

def failed (s : NormalizedSpan) : Bool :=
  s.statusCode = 2 || s.rawAttributes.contains "error.type"

/-! ## The pass over one normalized span -/

/-- The first alias present goes to the canonical key when that key is absent. -/
def canonical (keys : List String) (s : NormalizedSpan) : NormalizedSpan :=
  match keys with
  | [] => s
  | key :: aliases =>
    if s.rawAttributes.contains key then s
    else
      match aliases.findSome? (fun k => (s.rawAttributes[k]?).filter Json.isString) with
      | some v => { s with rawAttributes := s.rawAttributes.insert key v }
      | none => s

/-- Of a span only the attributes change, and of them only the canonical key. -/
theorem canonical_spec (keys : List String) (s : NormalizedSpan) :
    ∃ raw : Attributes, (∀ key, keys.head? ≠ some key → raw[key]? = s.rawAttributes[key]?) ∧
      canonical keys s = { s with rawAttributes := raw } := by
  unfold canonical
  split
  · exact ⟨s.rawAttributes, fun _ _ => rfl, rfl⟩
  · next canonicalKey aliases =>
    split
    · exact ⟨s.rawAttributes, fun _ _ => rfl, rfl⟩
    · split
      · next v found =>
        refine ⟨s.rawAttributes.insert canonicalKey v, fun key other => ?_, rfl⟩
        have different : key ≠ canonicalKey := by
          intro same
          exact other (by rw [same]; rfl)
        rw [getElem?_insert_if, if_neg different]
      · exact ⟨s.rawAttributes, fun _ _ => rfl, rfl⟩

/-- The usage stays only in `rawAttributes`, where it arrived. -/
def setAside (why : String) (s : NormalizedSpan) : NormalizedSpan :=
  { s with
    tokens := {}
    costUsd := none
    oiKind :=
      match s.oiKind with
      | some k => if eqIgnoreAsciiCase k "LLM" then some "CHAIN" else some k
      | none => none
    rawAttributes := s.rawAttributes.insert usageKey (.str why) }

def normalize (s : NormalizedSpan) : NormalizedSpan :=
  match s.oiKind with
  | none => s
  | some kind =>
    if eqIgnoreAsciiCase kind "TOOL" then canonical toolCallIdKeys (canonical toolNameKeys s)
    else if eqIgnoreAsciiCase kind "AGENT" || eqIgnoreAsciiCase kind "CHAIN" then
      let s := canonical agentIdKeys (canonical agentNameKeys s)
      if s.otelKind ≠ spanKindClient && (!s.tokens.isEmpty || s.costUsd.isSome) then
        setAside usageAggregate s
      else s
    else s

/-! ## What the pass does -/

/-- Is the usage of a span set aside? -/
def setsAside (s : NormalizedSpan) : Bool :=
  match s.oiKind with
  | none => false
  | some kind =>
    !eqIgnoreAsciiCase kind "TOOL" &&
      (eqIgnoreAsciiCase kind "AGENT" || eqIgnoreAsciiCase kind "CHAIN") &&
      (s.otelKind ≠ spanKindClient && (!s.tokens.isEmpty || s.costUsd.isSome))

def usageSetAside (s : NormalizedSpan) : NormalizedSpan :=
  if setsAside s then setAside usageAggregate s else s

/-- The keys the pass may write. -/
def writtenKeys : List String :=
  ["gen_ai.tool.name", "gen_ai.tool.call.id", "gen_ai.agent.name", "gen_ai.agent.id", usageKey]

/-- Two canonical keys, one after the other. -/
theorem canonical_canonical (keys keys' : List String) (s : NormalizedSpan) :
    ∃ raw : Attributes,
      (∀ key, keys.head? ≠ some key → keys'.head? ≠ some key →
        raw[key]? = s.rawAttributes[key]?) ∧
      canonical keys (canonical keys' s) = { s with rawAttributes := raw } := by
  obtain ⟨raw, kept, first⟩ := canonical_spec keys' s
  obtain ⟨raw', kept', second⟩ := canonical_spec keys (canonical keys' s)
  refine ⟨raw', fun key other other' => ?_, ?_⟩
  · rw [kept' key other, first]
    exact kept key other'
  · rw [second, first]

/-- Usage may be set aside; otherwise only attributes change, and of them only the written
keys. -/
theorem normalize_spec (s : NormalizedSpan) :
    ∃ raw : Attributes, (∀ key ∉ writtenKeys, raw[key]? = s.rawAttributes[key]?) ∧
      normalize s = { usageSetAside s with rawAttributes := raw } := by
  unfold normalize usageSetAside setsAside
  cases kind : s.oiKind with
  | none => exact ⟨s.rawAttributes, fun _ _ => rfl, rfl⟩
  | some k =>
    by_cases tool : eqIgnoreAsciiCase k "TOOL" = true
    · obtain ⟨raw, kept, frame⟩ := canonical_canonical toolCallIdKeys toolNameKeys s
      refine ⟨raw, fun key other => ?_, ?_⟩
      · simp only [writtenKeys, List.mem_cons, not_or] at other
        exact kept key (by simpa [toolCallIdKeys] using Ne.symm other.2.1)
          (by simpa [toolNameKeys] using Ne.symm other.1)
      · simp only [tool, frame, Bool.not_true, Bool.false_and, if_true, Bool.false_eq_true,
          if_false]
    · by_cases agent : (eqIgnoreAsciiCase k "AGENT" || eqIgnoreAsciiCase k "CHAIN") = true
      · obtain ⟨raw, kept, frame⟩ := canonical_canonical agentIdKeys agentNameKeys s
        simp only [tool, agent, frame, Bool.not_false, Bool.true_and, if_true,
          Bool.false_eq_true, if_false]
        split
        · refine ⟨raw.insert usageKey (.str usageAggregate), fun key other => ?_, rfl⟩
          simp only [writtenKeys, List.mem_cons, not_or] at other
          rw [getElem?_insert_if, if_neg other.2.2.2.2.1]
          exact kept key (by simpa [agentIdKeys] using Ne.symm other.2.2.2.1)
            (by simpa [agentNameKeys] using Ne.symm other.2.2.1)
        · refine ⟨raw, fun key other => ?_, rfl⟩
          simp only [writtenKeys, List.mem_cons, not_or] at other
          exact kept key (by simpa [agentIdKeys] using Ne.symm other.2.2.2.1)
            (by simpa [agentNameKeys] using Ne.symm other.2.2.1)
      · refine ⟨s.rawAttributes, fun _ _ => rfl, ?_⟩
        simp only [tool, agent, Bool.and_false, Bool.false_and, Bool.false_eq_true, if_false]

end Evald.Agent
