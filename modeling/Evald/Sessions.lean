import Evald.Deps
import Evald.Agent

/-! # Sessions

What an agent did, one session at a time.  Tool calls are counted once per call: by
call id when the span carries one, else by the span, unless its parent is a tool span
of the same tool.
-/

namespace Evald.Sessions

open Evald.Lib

/-- One tool call, merged over its copies; the place is the first copy's. -/
structure ToolCall where
  name : String
  named : Bool
  failed : Bool
  traceId : String
  spanId : String
  parentSpanId : Option String
  start : Nat
  arguments : Option String
  /-- Keyed by call id rather than by span. -/
  byId : Bool

structure Acc where
  spanCount : Nat := 0
  traces : Std.ExtTreeSet String := ∅
  cost : Option F64 := none
  tokens : Tokens := {}
  start : Nat := 2 ^ 64 - 1
  stop : Nat := 0
  llmCalls : Nat := 0
  llmErrors : Nat := 0
  tools : Std.ExtTreeMap String ToolCall := ∅
  models : Std.ExtTreeSet String := ∅
  agents : Std.ExtTreeSet String := ∅

def addCount (total v : Option Nat) : Option Nat :=
  match v with
  | some v => some (wrappingAdd (total.getD 0) v)
  | none => total

/-- One span's populated token fields, added to the totals. -/
def addTokens (acc t : Tokens) : Tokens :=
  { prompt := addCount acc.prompt t.prompt
    completion := addCount acc.completion t.completion
    total := addCount acc.total t.total
    cacheRead := addCount acc.cacheRead t.cacheRead
    cacheWrite := addCount acc.cacheWrite t.cacheWrite
    reasoning := addCount acc.reasoning t.reasoning }

/-- What identifies the call of a TOOL span. -/
def callIdentity (s : NormalizedSpan) : String :=
  match Agent.toolCallId s with
  | some id => "id:" ++ id
  | none => "span:" ++ s.traceId ++ ":" ++ s.spanId

variable (deps : Deps)

/-- A call at its first copy. -/
def newCall (s : NormalizedSpan) : ToolCall :=
  { name := s.name
    named := false
    failed := false
    traceId := s.traceId
    spanId := s.spanId
    parentSpanId := s.parentSpanId
    start := s.startUnixNano
    arguments := none
    byId := (Agent.toolCallId s).isSome }

/-- One more copy of a call; a copy that names its tool beats one that does not. -/
def ToolCall.merge (entry : ToolCall) (s : NormalizedSpan) : ToolCall :=
  { entry with
    name := if entry.named then entry.name else (Agent.toolName s).getD entry.name
    named := entry.named || (Agent.toolName s).isSome
    arguments := entry.arguments.or (Agent.toolArguments deps.renderJson s)
    start := min entry.start s.startUnixNano
    failed := entry.failed || Agent.failed s }

def addTool (tools : Std.ExtTreeMap String ToolCall) (s : NormalizedSpan) :
    Std.ExtTreeMap String ToolCall :=
  let call := callIdentity s
  tools.insert call (((tools[call]?).getD (newCall s)).merge deps s)

def Acc.add (acc : Acc) (s : NormalizedSpan) : Acc :=
  let acc :=
    { acc with
      spanCount := acc.spanCount + 1
      traces := acc.traces.insert s.traceId
      cost :=
        match s.costUsd with
        | some c => some (deps.float.add (acc.cost.getD (.finite 0)) c)
        | none => acc.cost
      tokens := addTokens acc.tokens s.tokens
      start := min acc.start s.startUnixNano
      stop := max acc.stop s.endUnixNano
      agents :=
        match Agent.agentName s with
        | some a => acc.agents.insert a
        | none => acc.agents }
  if Agent.isKind s "LLM" then
    { acc with
      llmCalls := acc.llmCalls + 1
      llmErrors := acc.llmErrors + (if s.statusCode = 2 then 1 else 0)
      models :=
        match s.model with
        | some m => acc.models.insert m
        | none => acc.models }
  else if Agent.isKind s "TOOL" then { acc with tools := addTool deps acc.tools s }
  else acc

/-! ## Copies traced at two layers -/

/-- Where a span's call stands in the list: the last one, if there are several. -/
def callAt (calls : List ToolCall) (traceId spanId : String) : Option Nat :=
  (calls.zipIdx.reverse.find? (fun c => c.1.traceId = traceId && c.1.spanId = spanId)).map
    Prod.snd

/-- The call of the parent of call `place`, when it has the name. -/
def namedParent (calls : List ToolCall) (name : String) (place : Nat) : Option Nat :=
  match calls[place]? with
  | none => none
  | some c =>
    (c.parentSpanId.bind (callAt calls c.traceId)).filter (fun p =>
      (calls[p]?).any (fun (q : ToolCall) => q.name = name))

/-- The outermost same-named ancestor of call `i`, from `place` on. -/
def outermost (calls : List ToolCall) (name : String) (i : Nat) : Nat → Nat → Nat
  | 0, place => place
  | fuel + 1, place =>
    match namedParent calls name place with
    | none => place
    | some p => if p = i then place else outermost calls name i fuel p

/-- The call that call `i` is a nested copy of. -/
def mergedInto (calls : List ToolCall) (c : ToolCall) (i : Nat) : Option Nat :=
  if c.byId then none
  else
    let place := outermost calls c.name i calls.length i
    if place = i then none else some place

/-- A tool span without a call id goes into its parent when that is a tool span of the same
tool. -/
def mergeNested (tools : Std.ExtTreeMap String ToolCall) : List ToolCall :=
  let calls := tools.toList.map Prod.snd
  let into := calls.zipIdx.map (fun c => (c.1, mergedInto calls c.1 c.2))
  let failedInto (i : Nat) := into.any (fun c => c.2 = some i && c.1.failed)
  (into.zipIdx.filter (fun c => c.1.2.isNone)).map (fun c =>
    { c.1.1 with failed := c.1.1.failed || failedInto c.2 })

/-! ## The report -/

def loopRun : Nat := 3

/-- Calls in the order they started, trace by trace. -/
def callOrder (a b : ToolCall) : Bool :=
  if a.traceId ≠ b.traceId then a.traceId < b.traceId
  else if a.start ≠ b.start then a.start < b.start
  else a.spanId ≤ b.spanId

/-- The repeats so far, the longest run and the current one; `previous` is the call before. -/
structure Repeats where
  repeated : Nat := 0
  longest : Nat := 0
  run : Nat := 0
  previous : Option ToolCall := none

def Repeats.next (r : Repeats) (c : ToolCall) : Repeats :=
  let same := r.previous.any (fun p =>
    p.traceId = c.traceId && p.name = c.name && c.arguments.isSome && p.arguments = c.arguments)
  let run := if same then r.run + 1 else 1
  { repeated := if same then r.repeated + 1 else r.repeated
    longest := max r.longest (if c.arguments.isSome then run else 0)
    run := run
    previous := some c }

def repeats (calls : List ToolCall) : Repeats :=
  (calls.mergeSort callOrder).foldl Repeats.next {}

structure SessionRollup where
  sessionId : String
  spanCount : Nat
  traceCount : Nat
  costUsd : Option F64
  tokens : Tokens
  startUnixNano : Nat
  endUnixNano : Nat
  llmCalls : Nat
  llmErrors : Nat
  toolCalls : Nat
  toolErrors : Nat
  models : List String
  tools : Std.ExtTreeMap String Nat
  agents : List String
  stepsPerTrace : F64
  toolErrorRate : Option F64
  repeatedToolCalls : Nat
  longestRepeatRun : Nat
  loopSuspected : Bool
  scanned : Nat
  truncated : Bool

def ratio (a b : Nat) : F64 := deps.float.div (deps.float.ofInt a) (deps.float.ofInt b)

def Acc.finish (acc : Acc) (sessionId : String) (scanned : Nat) (truncated : Bool) :
    SessionRollup :=
  let calls := mergeNested acc.tools
  let toolErrors := (calls.filter ToolCall.failed).length
  let repeated := repeats calls
  let traceCount := acc.traces.size
  { sessionId := sessionId
    spanCount := acc.spanCount
    traceCount := traceCount
    costUsd := acc.cost
    tokens := acc.tokens
    startUnixNano := acc.start
    endUnixNano := acc.stop
    llmCalls := acc.llmCalls
    llmErrors := acc.llmErrors
    toolCalls := calls.length
    toolErrors := toolErrors
    models := acc.models.toList
    tools := calls.foldl (fun tools c => tools.insert c.name (tools.getD c.name 0 + 1)) ∅
    agents := acc.agents.toList
    stepsPerTrace := if traceCount = 0 then .finite 0 else ratio deps acc.llmCalls traceCount
    toolErrorRate := if calls.isEmpty then none else some (ratio deps toolErrors calls.length)
    repeatedToolCalls := repeated.repeated
    longestRepeatRun := repeated.longest
    loopSuspected := loopRun ≤ repeated.longest
    scanned := scanned
    truncated := truncated }

/-- One session's rollup, `none` when no span carries its id. -/
def rollup (spans : List NormalizedSpan) (sessionId : String) (truncated : Bool) :
    Option SessionRollup :=
  let acc := (spans.filter (fun s => s.sessionId = some sessionId)).foldl (Acc.add deps) {}
  if 0 < acc.spanCount then some (acc.finish deps sessionId spans.length truncated) else none

/-! ## What is counted -/

/-- A span the tools are counted by. -/
def isToolCall (s : NormalizedSpan) : Bool := !Agent.isKind s "LLM" && Agent.isKind s "TOOL"

theorem Acc.add_counts (acc : Acc) (s : NormalizedSpan) :
    (acc.add deps s).spanCount = acc.spanCount + 1 ∧
      (acc.add deps s).llmCalls = acc.llmCalls + (if Agent.isKind s "LLM" then 1 else 0) ∧
      (acc.add deps s).tools = if isToolCall s then addTool deps acc.tools s else acc.tools := by
  unfold Acc.add isToolCall
  cases llm : Agent.isKind s "LLM" with
  | true => simp
  | false => cases tool : Agent.isKind s "TOOL" <;> simp

theorem foldl_add_counts (spans : List NormalizedSpan) (acc : Acc) :
    (spans.foldl (Acc.add deps) acc).spanCount = acc.spanCount + spans.length ∧
      (spans.foldl (Acc.add deps) acc).llmCalls =
        acc.llmCalls + (spans.filter (Agent.isKind · "LLM")).length ∧
      (spans.foldl (Acc.add deps) acc).tools =
        (spans.filter isToolCall).foldl (addTool deps) acc.tools := by
  induction spans generalizing acc with
  | nil => simp
  | cons s spans inductionHypothesis =>
    obtain ⟨count, llm, tools⟩ := acc.add_counts deps s
    obtain ⟨count', llm', tools'⟩ := inductionHypothesis (acc.add deps s)
    rw [List.foldl_cons, count', llm', tools', count, llm, tools]
    refine ⟨by simp only [List.length_cons]; omega, ?_, ?_⟩
    · cases isLlm : Agent.isKind s "LLM" with
      | true =>
        simp only [List.filter_cons, isLlm, if_true, List.length_cons]
        omega
      | false => simp [isLlm]
    · cases isTool : isToolCall s with
      | true => simp [isTool]
      | false => simp [isTool]

theorem mem_foldl_addTool {spans : List NormalizedSpan} {tools : Std.ExtTreeMap String ToolCall}
    {k : String} : k ∈ spans.foldl (addTool deps) tools ↔
      k ∈ tools ∨ ∃ s ∈ spans, callIdentity s = k := by
  induction spans generalizing tools with
  | nil => simp
  | cons s spans inductionHypothesis =>
    rw [List.foldl_cons, inductionHypothesis, addTool, Std.ExtTreeMap.mem_insert]
    simp only [Std.LawfulEqOrd.compare_eq_iff_eq, List.mem_cons, exists_eq_or_imp]
    tauto

/-- Where every tool span carries a call id, so does every call. -/
theorem byId_foldl_addTool {spans : List NormalizedSpan} {tools : Std.ExtTreeMap String ToolCall}
    (before : ∀ (k : String) (c : ToolCall), tools[k]? = some c → c.byId = true)
    (ids : ∀ s ∈ spans, (Agent.toolCallId s).isSome) (k : String) (c : ToolCall)
    (held : (spans.foldl (addTool deps) tools)[k]? = some c) : c.byId = true := by
  induction spans generalizing tools with
  | nil => exact before k c held
  | cons s spans inductionHypothesis =>
    rw [List.foldl_cons] at held
    apply inductionHypothesis _ (fun x member => ids x (List.mem_cons_of_mem _ member)) held
    intro k c held
    rw [addTool, getElem?_insert_if] at held
    split at held
    · cases held
      cases old : tools[callIdentity s]? with
      | none => exact ids s List.mem_cons_self
      | some c => exact before _ c old
    · exact before k c held

/-- Calls with an id are copies of no other. -/
theorem mergeNested_byId {tools : Std.ExtTreeMap String ToolCall}
    (byId : ∀ (k : String) (c : ToolCall), tools[k]? = some c → c.byId = true) :
    mergeNested tools = tools.toList.map Prod.snd := by
  have apart : ∀ c ∈ tools.toList.map Prod.snd, c.byId = true := by
    intro c member
    obtain ⟨⟨k, c⟩, listed, rfl⟩ := List.mem_map.mp member
    exact byId k c (Std.ExtTreeMap.mem_toList_iff_getElem?_eq_some.mp listed)
  unfold mergeNested
  simp only
  generalize tools.toList.map Prod.snd = calls at apart
  -- no call goes into another
  have alone : calls.zipIdx.map (fun c => (c.1, mergedInto calls c.1 c.2)) =
      calls.map (fun c => (c, none)) := by
    rw [show calls.map (fun c => (c, (none : Option Nat))) =
      (calls.zipIdx.map Prod.fst).map (fun c => (c, none)) by rw [List.zipIdx_map_fst],
      List.map_map]
    apply List.map_congr_left
    intro c member
    simp [mergedInto, apart c.1 (List.fst_mem_of_mem_zipIdx member)]
  have kept : (calls.map (fun c => (c, (none : Option Nat)))).zipIdx.filter
      (fun c => c.1.2.isNone) = (calls.map (fun c => (c, none))).zipIdx := by
    rw [List.filter_eq_self]
    intro c member
    obtain ⟨x, -, made⟩ := List.mem_map.mp (List.fst_mem_of_mem_zipIdx member)
    rw [← made]
    rfl
  rw [alone, kept]
  conv_rhs => rw [← List.map_id calls, ← List.zipIdx_map_fst 0 calls, List.map_map]
  rw [List.zipIdx_map, List.map_map]
  apply List.map_congr_left
  intro c member
  have nothing : (calls.any fun _ => false) = false := List.any_eq_false.mpr (by simp)
  simp [Function.comp_def, nothing]

theorem length_mergeNested {tools : Std.ExtTreeMap String ToolCall}
    (byId : ∀ (k : String) (c : ToolCall), tools[k]? = some c → c.byId = true) :
    (mergeNested tools).length = tools.keys.length := by
  rw [mergeNested_byId byId]
  simp [← Std.ExtTreeMap.map_fst_toList_eq_keys]

/-- A session whose tool spans all carry a call id: the LLM spans are counted one by one, the
tool spans by the call they are about. -/
theorem rollup_counts {spans : List NormalizedSpan} {session : String} {truncated : Bool}
    {report : SessionRollup} (rolled : rollup deps spans session truncated = some report)
    (ids : ∀ s ∈ spans, s.sessionId = some session → isToolCall s = true →
      (Agent.toolCallId s).isSome)
    {identities : List String} (distinct : identities.Nodup)
    (same : ∀ k, k ∈ identities ↔ ∃ s ∈ spans, s.sessionId = some session ∧
      isToolCall s = true ∧ callIdentity s = k) :
    report.llmCalls = ((spans.filter (fun s => s.sessionId = some session)).filter
        (Agent.isKind · "LLM")).length ∧
      report.toolCalls = identities.length := by
  obtain ⟨-, llm, tools⟩ := foldl_add_counts deps
    (spans.filter (fun s => s.sessionId = some session)) {}
  unfold rollup at rolled
  simp only at rolled
  split at rolled
  · cases rolled
    have inSession : ∀ s ∈ (spans.filter (fun s => s.sessionId = some session)).filter isToolCall,
        s ∈ spans ∧ s.sessionId = some session ∧ isToolCall s = true := by
      intro s member
      simp only [List.mem_filter, decide_eq_true_eq] at member
      exact ⟨member.1.1, member.1.2, member.2⟩
    constructor
    · change (List.foldl (Acc.add deps) {} _).llmCalls = _
      rw [llm]
      simp
    -- every call has an id, so none is merged away and the keys are the identities
    · change (mergeNested (List.foldl (Acc.add deps) {} _).tools).length = _
      rw [tools, length_mergeNested]
      · apply List.Perm.length_eq
        rw [List.perm_ext_iff_of_nodup Std.ExtTreeMap.nodup_keys distinct]
        intro k
        rw [Std.ExtTreeMap.mem_keys, mem_foldl_addTool, same]
        constructor
        · intro listed
          cases listed with
          | inl never => exact absurd never Std.ExtTreeMap.not_mem_empty
          | inr listed =>
            obtain ⟨s, member, isIt⟩ := listed
            obtain ⟨stored, session, tool⟩ := inSession s member
            exact ⟨s, stored, session, tool, isIt⟩
        · intro listed
          obtain ⟨s, stored, session, tool, isIt⟩ := listed
          exact .inr ⟨s, by simp [stored, session, tool], isIt⟩
      · apply byId_foldl_addTool
        · intro k c held
          change (∅ : Std.ExtTreeMap String ToolCall)[k]? = some c at held
          simp at held
        · intro s member
          obtain ⟨stored, session, tool⟩ := inSession s member
          exact ids s stored session tool
  · cases rolled

/-- There is a report when a span has the session's id. -/
theorem rollup_isSome {spans : List NormalizedSpan} {session : String} {s : NormalizedSpan}
    (member : s ∈ spans) (inSession : s.sessionId = some session) (truncated : Bool) :
    (rollup deps spans session truncated).isSome = true := by
  obtain ⟨count, -, -⟩ := foldl_add_counts deps
    (spans.filter (fun s => s.sessionId = some session)) {}
  have listed : s ∈ spans.filter (fun s => s.sessionId = some session) := by
    simp [member, inSession]
  have positive := List.length_pos_of_mem listed
  unfold rollup
  simp only [count]
  rw [if_pos (by omega)]
  rfl

end Evald.Sessions
