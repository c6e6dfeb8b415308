import Evald.CallPlaces

/-! # Sessions in any order of their spans

The first copy of a call gives its place, the first one that names its tool the name, the
first one with arguments the arguments.  Where the copies of a call do not contradict each
other the rollup is the same in every order, and in every order of the hash map that holds
the calls (`rolled_perm`); the costs are added up in the order of the spans.
-/

namespace Evald.Sessions

open Evald.Lib

variable (deps : Deps)

/-- `finish`, from the calls in the order in which the hash map returns them. -/
def Acc.finishFrom (acc : Acc) (calls : List ToolCall) (sessionId : String) (scanned : Nat)
    (truncated : Bool) : SessionRollup :=
  let calls := mergeCalls calls
  let toolErrors := (calls.filter ToolCall.failed).length
  let repeated := repeats calls
  let traceCount := acc.traces.size
  { sessionId := sessionId
    spanCount := acc.spanCount
    traceCount := traceCount
    costUsd := acc.cost
    tokens := acc.tokens
    startUnixNano := acc.start
    endUnixNano := acc.stop
    llmCalls := acc.llmCalls
    llmErrors := acc.llmErrors
    toolCalls := calls.length
    toolErrors := toolErrors
    models := acc.models.toList
    tools := countNames calls
    agents := acc.agents.toList
    stepsPerTrace := if traceCount = 0 then .finite 0 else ratio deps acc.llmCalls traceCount
    toolErrorRate := if calls.isEmpty then none else some (ratio deps toolErrors calls.length)
    repeatedToolCalls := repeated.repeated
    longestRepeatRun := repeated.longest
    loopSuspected := loopRun ≤ repeated.longest
    scanned := scanned
    truncated := truncated }

theorem Acc.finish_eq (acc : Acc) (sessionId : String) (scanned : Nat) (truncated : Bool) :
    acc.finish deps sessionId scanned truncated =
      acc.finishFrom deps (acc.tools.toList.map Prod.snd) sessionId scanned truncated := rfl

/-- A report of the session, in some order of the hash map. -/
def Rolled (spans : List NormalizedSpan) (session : String) (truncated : Bool)
    (report : SessionRollup) : Prop :=
  let acc := (spans.filter (fun s => s.sessionId = some session)).foldl (Acc.add deps) {}
  0 < acc.spanCount ∧ ∃ entries : List CallEntry, entries.Perm acc.tools.toList ∧
    report = acc.finishFrom deps (entries.map Prod.snd) session spans.length truncated

theorem rolled_of_rollup {spans : List NormalizedSpan} {session : String} {truncated : Bool}
    {report : SessionRollup} (rolled : rollup deps spans session truncated = some report) :
    Rolled deps spans session truncated report := by
  unfold rollup at rolled
  simp only at rolled
  split at rolled
  · next isNonempty =>
    cases rolled
    exact ⟨isNonempty, _, .refl _, Acc.finish_eq ..⟩
  · cases rolled

/-- The costs, in the order in which they are added up. -/
def summed (costs : List F64) : Option F64 :=
  costs.foldl (fun cost c => some (deps.float.add (cost.getD (.finite 0)) c)) none

/-- One report, but for the order in which the costs are added up. -/
structure SameButCostOrder (r r' : SessionRollup) : Prop where
  rest : { r with costUsd := none } = { r' with costUsd := none }
  cost : ∃ costs costs', List.Perm costs costs' ∧ r.costUsd = summed deps costs ∧
    r'.costUsd = summed deps costs'

/-! ## Spans that do not contradict each other -/

def toolSpans (spans : List NormalizedSpan) (session : String) : List NormalizedSpan :=
  (spans.filter (fun s => s.sessionId = some session)).filter isToolCall

/-- When a call started. -/
def earliest (tools : List NormalizedSpan) (k : String) : Option Nat :=
  ((tools.filter (fun s => callIdentity s = k)).map NormalizedSpan.startUnixNano).min?

/-- Nothing depends on where the call sits: it has an id, no tool span is under a copy of it,
and no other call of its trace started when it did. -/
structure Loose (tools : List NormalizedSpan) (k : String) : Prop where
  byId : ∀ s ∈ tools, callIdentity s = k → (Agent.toolCallId s).isSome = true
  childless : ∀ s ∈ tools, callIdentity s = k → ∀ r ∈ tools, r.traceId = s.traceId →
    r.parentSpanId ≠ some s.spanId
  alone : ∀ s ∈ tools, callIdentity s = k → ∀ r ∈ tools, callIdentity r ≠ k →
    r.traceId = s.traceId → earliest tools (callIdentity r) ≠ earliest tools k

/-- No span is of two calls, and the copies of a call agree about it, each as far as it
reports it; about its place they agree where anything depends on it. -/
structure Consistent (tools : List NormalizedSpan) : Prop where
  apart : ∀ s ∈ tools, ∀ s' ∈ tools, s.traceId = s'.traceId → s.spanId = s'.spanId →
    callIdentity s = callIdentity s'
  traces : ∀ s ∈ tools, ∀ s' ∈ tools, callIdentity s = callIdentity s' → s.traceId = s'.traceId
  toolNames : ∀ s ∈ tools, ∀ s' ∈ tools, callIdentity s = callIdentity s' →
    ∀ n n', Agent.toolName s = some n → Agent.toolName s' = some n' → n = n'
  spanNames : ∀ s ∈ tools, ∀ s' ∈ tools, callIdentity s = callIdentity s' →
    (∀ r ∈ tools, callIdentity r = callIdentity s → Agent.toolName r = none) → s.name = s'.name
  arguments : ∀ s ∈ tools, ∀ s' ∈ tools, callIdentity s = callIdentity s' →
    ∀ a a', Agent.toolArguments deps.renderJson s = some a →
      Agent.toolArguments deps.renderJson s' = some a' → a = a'
  places : ∀ s ∈ tools, Loose tools (callIdentity s) ∨
    ∀ s' ∈ tools, callIdentity s = callIdentity s' →
      s.spanId = s'.spanId ∧ s.parentSpanId = s'.parentSpanId

section Perm

variable {deps} {tools tools' : List NormalizedSpan} {k : String}

theorem earliest_perm (perm : tools.Perm tools') (k : String) :
    earliest tools k = earliest tools' k := by
  have starts := (perm.filter (fun s => callIdentity s = k)).map NormalizedSpan.startUnixNano
  apply Option.ext
  intro start
  unfold earliest
  simp only [List.min?_eq_some_iff, starts.mem_iff]

theorem Loose.perm (loose : Loose tools k) (perm : tools.Perm tools') : Loose tools' k where
  byId s isTool := loose.byId s (perm.mem_iff.mpr isTool)
  childless s isTool identity r isTool' :=
    loose.childless s (perm.mem_iff.mpr isTool) identity r (perm.mem_iff.mpr isTool')
  alone s isTool identity r isTool' differ traces := by
    rw [← earliest_perm perm, ← earliest_perm perm]
    exact loose.alone s (perm.mem_iff.mpr isTool) identity r (perm.mem_iff.mpr isTool') differ traces

theorem Consistent.perm (consistent : Consistent deps tools) (perm : tools.Perm tools') :
    Consistent deps tools' where
  apart s isTool s' isTool' :=
    consistent.apart s (perm.mem_iff.mpr isTool) s' (perm.mem_iff.mpr isTool')
  traces s isTool s' isTool' :=
    consistent.traces s (perm.mem_iff.mpr isTool) s' (perm.mem_iff.mpr isTool')
  toolNames s isTool s' isTool' :=
    consistent.toolNames s (perm.mem_iff.mpr isTool) s' (perm.mem_iff.mpr isTool')
  spanNames s isTool s' isTool' same unnamed :=
    consistent.spanNames s (perm.mem_iff.mpr isTool) s' (perm.mem_iff.mpr isTool') same
      (fun r isTool'' => unnamed r (perm.mem_iff.mp isTool''))
  arguments s isTool s' isTool' :=
    consistent.arguments s (perm.mem_iff.mpr isTool) s' (perm.mem_iff.mpr isTool')
  places s isTool := by
    cases consistent.places s (perm.mem_iff.mpr isTool) with
    | inl loose => exact .inl (loose.perm perm)
    | inr agree => exact .inr (fun s' isTool' => agree s' (perm.mem_iff.mpr isTool'))

end Perm

/-! ## A call and its copies -/

variable {deps}

theorem callIdentity_byId {s s' : NormalizedSpan} (same : callIdentity s = callIdentity s') :
    (Agent.toolCallId s).isSome = (Agent.toolCallId s').isSome := by
  unfold callIdentity at same
  have text := congrArg String.toList same
  cases id : Agent.toolCallId s with
  | none =>
    cases id' : Agent.toolCallId s' with
    | none => rfl
    | some _ => simp [id, id', String.toList_append] at text
  | some _ =>
    cases id' : Agent.toolCallId s' with
    | none => simp [id, id', String.toList_append] at text
    | some _ => rfl

/-- A call as its copies make it. -/
structure CallOf (deps : Deps) (copies : List NormalizedSpan) (c : ToolCall) : Prop where
  first : ∃ s ∈ copies, c.traceId = s.traceId ∧ c.spanId = s.spanId ∧
    c.parentSpanId = s.parentSpanId ∧ c.byId = (Agent.toolCallId s).isSome ∧
      c.name = (copies.findSome? Agent.toolName).getD s.name
  failed : c.failed = copies.any Agent.failed
  start : (copies.map NormalizedSpan.startUnixNano).min? = some c.start
  arguments : c.arguments = copies.findSome? (Agent.toolArguments deps.renderJson)

/-- Merging copies into a call. -/
theorem foldl_merge (copies : List NormalizedSpan) (c : ToolCall) :
    copies.foldl (ToolCall.merge deps) c =
      { c with
        name := if c.named then c.name else (copies.findSome? Agent.toolName).getD c.name
        named := c.named || copies.any (fun s => (Agent.toolName s).isSome)
        arguments :=
          c.arguments.or (copies.findSome? (Agent.toolArguments deps.renderJson))
        start := copies.foldl (fun start s => min start s.startUnixNano) c.start
        failed := c.failed || copies.any Agent.failed } := by
  induction copies generalizing c with
  | nil => simp
  | cons s copies inductionHypothesis =>
    rw [List.foldl_cons, inductionHypothesis]
    cases named : c.named <;> cases name : Agent.toolName s <;> cases args : c.arguments <;>
      cases args' : Agent.toolArguments deps.renderJson s <;>
      simp [ToolCall.merge, named, name, args, args', Bool.or_assoc]

theorem getElem?_foldl_addTool (spans : List NormalizedSpan)
    (tools : Std.ExtTreeMap String ToolCall) (k : String) :
    (spans.foldl (addTool deps) tools)[k]? =
      (spans.filter (fun s => callIdentity s = k)).foldl
        (fun call s => some ((call.getD (newCall s)).merge deps s)) tools[k]? := by
  induction spans generalizing tools with
  | nil => rfl
  | cons s spans inductionHypothesis =>
    rw [List.foldl_cons, inductionHypothesis, addTool, getElem?_insert_if]
    by_cases here : callIdentity s = k
    · rw [List.filter_cons_of_pos (by simpa using here), List.foldl_cons, if_pos here.symm, here]
    · rw [List.filter_cons_of_neg (by simpa using here), if_neg (Ne.symm here)]

/-- The call of an identity is made of all its copies. -/
theorem callOf_held {spans : List NormalizedSpan} {k : String} {c : ToolCall}
    (held : (spans.foldl (addTool deps) ∅)[k]? = some c) :
    CallOf deps (spans.filter (fun s => callIdentity s = k)) c := by
  rw [getElem?_foldl_addTool] at held
  cases copies : spans.filter (fun s => callIdentity s = k) with
  | nil => simp [copies] at held
  | cons s rest =>
    have laterCopies (rest : List NormalizedSpan) (c : ToolCall) :
        rest.foldl (fun call s => some ((call.getD (newCall s)).merge deps s)) (some c) =
          some (rest.foldl (ToolCall.merge deps) c) := by
      induction rest generalizing c with
      | nil => rfl
      | cons s rest inductionHypothesis => exact inductionHypothesis _
    have empty : (∅ : Std.ExtTreeMap String ToolCall)[k]? = none := by simp
    rw [copies, empty, List.foldl_cons, laterCopies, Option.some.injEq, Option.getD_none,
      ← List.foldl_cons (f := ToolCall.merge deps), foldl_merge] at held
    rw [← held]
    refine ⟨⟨s, List.mem_cons_self, rfl, rfl, rfl, rfl, rfl⟩, ?_, ?_, ?_⟩
    · simp [newCall]
    · simp only [newCall, List.map_cons, List.min?_cons', List.foldl_map, List.foldl_cons,
        Nat.min_self]
    · simp [newCall]

/-- What all copies agree on is what the first one that reports it reports. -/
theorem findSome?_agree {α β : Type} {f : α → Option β} {xs ys : List α} (perm : xs.Perm ys)
    (agree : ∀ x ∈ xs, ∀ y ∈ xs, ∀ a b, f x = some a → f y = some b → a = b) :
    xs.findSome? f = ys.findSome? f := by
  cases first : xs.findSome? f with
  | none =>
    rw [List.findSome?_eq_none_iff] at first
    symm
    rw [List.findSome?_eq_none_iff]
    exact fun y listed => first y (perm.mem_iff.mpr listed)
  | some a =>
    obtain ⟨x, isX, reports⟩ := List.exists_of_findSome?_eq_some first
    cases second : ys.findSome? f with
    | none =>
      rw [List.findSome?_eq_none_iff] at second
      rw [second x (perm.mem_iff.mp isX)] at reports
      cases reports
    | some b =>
      obtain ⟨y, isY, reports'⟩ := List.exists_of_findSome?_eq_some second
      rw [agree x isX y (perm.mem_iff.mpr isY) a b reports reports']

section Copies

variable {tools tools' : List NormalizedSpan} {k : String} {c c' : ToolCall}

/-- The copies of a call. -/
theorem mem_copies {s : NormalizedSpan} : s ∈ tools.filter (fun s => callIdentity s = k) ↔
    s ∈ tools ∧ callIdentity s = k := by
  rw [List.mem_filter, decide_eq_true_eq]

/-- In any order the copies make one call. -/
theorem Consistent.alikeCall (consistent : Consistent deps tools) (perm : tools.Perm tools')
    (call : CallOf deps (tools.filter (fun s => callIdentity s = k)) c)
    (call' : CallOf deps (tools'.filter (fun s => callIdentity s = k)) c') : AlikeCall c c' := by
  have copies := perm.filter (fun s => callIdentity s = k)
  obtain ⟨s, isCopy, trace, -, -, byId, name⟩ := call.first
  obtain ⟨s', isCopy', trace', -, -, byId', name'⟩ := call'.first
  obtain ⟨listed, identity⟩ := mem_copies.mp isCopy
  obtain ⟨listed', identity'⟩ := mem_copies.mp (copies.mem_iff.mpr isCopy')
  have same := identity.trans identity'.symm
  -- a field the copies agree on is the same whichever copy comes first
  have agree {β : Type} {f : NormalizedSpan → Option β} (onTools : ∀ s ∈ tools, ∀ s' ∈ tools,
      callIdentity s = callIdentity s' → ∀ a b, f s = some a → f s' = some b → a = b) :
      (tools.filter (fun s => callIdentity s = k)).findSome? f =
        (tools'.filter (fun s => callIdentity s = k)).findSome? f := by
    apply findSome?_agree copies
    intro x isX y isY
    obtain ⟨isX, ofX⟩ := mem_copies.mp isX
    obtain ⟨isY, ofY⟩ := mem_copies.mp isY
    exact onTools x isX y isY (ofX.trans ofY.symm)
  have names := agree consistent.toolNames
  refine ⟨?_, ?_, ?_, ?_, ?_, ?_⟩
  · rw [name, name', names]
    cases named : (tools'.filter (fun s => callIdentity s = k)).findSome? Agent.toolName with
    | some n => rfl
    | none =>
      rw [Option.getD_none, Option.getD_none]
      rw [← names, List.findSome?_eq_none_iff] at named
      apply consistent.spanNames s listed s' listed' same
      intro r isTool ofCall
      exact named r (mem_copies.mpr ⟨isTool, ofCall.trans identity⟩)
  · rw [call.failed, call'.failed]
    exact copies.any_eq
  · rw [trace, trace']
    exact consistent.traces s listed s' listed' same
  · have starts := copies.map NormalizedSpan.startUnixNano
    obtain ⟨isStart, least⟩ := List.min?_eq_some_iff.mp call.start
    obtain ⟨isStart', least'⟩ := List.min?_eq_some_iff.mp call'.start
    exact le_antisymm (least _ (starts.mem_iff.mpr isStart')) (least' _ (starts.mem_iff.mp isStart))
  · rw [call.arguments, call'.arguments]
    exact agree consistent.arguments
  · rw [byId, byId']
    exact callIdentity_byId same

end Copies

/-! ## The calls of a session -/

/-- The calls of tool spans, in any order of the hash map. -/
structure CallsOf (deps : Deps) (tools : List NormalizedSpan) (entries : List CallEntry) :
    Prop where
  distinct : (entries.map Prod.fst).Nodup
  keys : ∀ k, k ∈ entries.map Prod.fst ↔ ∃ s ∈ tools, callIdentity s = k
  call : ∀ k c, (k, c) ∈ entries → CallOf deps (tools.filter (fun s => callIdentity s = k)) c

theorem callsOf_perm {tools : List NormalizedSpan} {entries : List CallEntry}
    (perm : entries.Perm (tools.foldl (addTool deps) ∅).toList) : CallsOf deps tools entries where
  distinct := by
    rw [(perm.map Prod.fst).nodup_iff, Std.ExtTreeMap.map_fst_toList_eq_keys]
    exact Std.ExtTreeMap.nodup_keys
  keys k := by
    rw [(perm.map Prod.fst).mem_iff, Std.ExtTreeMap.map_fst_toList_eq_keys,
      Std.ExtTreeMap.mem_keys, mem_foldl_addTool]
    simp
  call k c listed :=
    callOf_held (Std.ExtTreeMap.mem_toList_iff_getElem?_eq_some.mp (perm.mem_iff.mp listed))

namespace CallsOf

variable {tools tools' : List NormalizedSpan} {entries entries' : List CallEntry}

/-- The copy that gives a call its place. -/
theorem exists_first (calls : CallsOf deps tools entries) {k : String} {c : ToolCall}
    (listed : (k, c) ∈ entries) : ∃ s ∈ tools, callIdentity s = k ∧ c.traceId = s.traceId ∧
      c.spanId = s.spanId ∧ c.parentSpanId = s.parentSpanId ∧
        c.byId = (Agent.toolCallId s).isSome := by
  obtain ⟨s, isCopy, trace, span, parent, byId, -⟩ := (calls.call k c listed).first
  obtain ⟨isTool, identity⟩ := mem_copies.mp isCopy
  exact ⟨s, isTool, identity, trace, span, parent, byId⟩

theorem earliest_eq (calls : CallsOf deps tools entries) {k : String} {c : ToolCall}
    (listed : (k, c) ∈ entries) : earliest tools k = some c.start :=
  (calls.call k c listed).start

theorem apart (calls : CallsOf deps tools entries) (consistent : Consistent deps tools) :
    Apart entries := by
  intro e listed e' listed' traces spans
  obtain ⟨s, isTool, identity, trace, span, -⟩ := calls.exists_first listed
  obtain ⟨s', isTool', identity', trace', span', -⟩ := calls.exists_first listed'
  rw [← identity, ← identity']
  exact consistent.apart s isTool s' isTool' (trace.symm.trans (traces.trans trace'))
    (span.symm.trans (spans.trans span'))

/-- Where a loose call sits does not matter. -/
theorem free (calls : CallsOf deps tools entries) {k : String} (loose : Loose tools k) :
    Free entries k := by
  intro c listed
  obtain ⟨s, isTool, identity, trace, span, -, byId⟩ := calls.exists_first listed
  refine ⟨?_, ?_, ?_⟩
  · rw [byId]
    exact loose.byId s isTool identity
  · intro e listed' traces
    obtain ⟨r, isTool', -, trace', -, parent, -⟩ := calls.exists_first listed'
    rw [parent, span]
    exact loose.childless s isTool identity r isTool' (trace'.symm.trans (traces.trans trace))
  · intro e listed' differ traces starts
    obtain ⟨r, isTool', identity', trace', -⟩ := calls.exists_first listed'
    apply loose.alone s isTool identity r isTool' (by rwa [identity'])
      (trace'.symm.trans (traces.trans trace))
    rw [identity', calls.earliest_eq listed, calls.earliest_eq listed', starts]

theorem alike (calls : CallsOf deps tools entries) (calls' : CallsOf deps tools' entries')
    (perm : tools.Perm tools') (consistent : Consistent deps tools) : Alike entries entries' where
  keys := by
    rw [List.perm_ext_iff_of_nodup calls.distinct calls'.distinct]
    intro k
    rw [calls.keys, calls'.keys]
    simp only [perm.mem_iff]
  distinct := calls.distinct
  apart := calls.apart consistent
  apart' := calls'.apart (consistent.perm perm)
  calls k c c' listed listed' :=
    consistent.alikeCall perm (calls.call k c listed) (calls'.call k c' listed')
  places k c c' listed listed' := by
    obtain ⟨s, isTool, identity, -, span, parent, -⟩ := calls.exists_first listed
    obtain ⟨s', isTool', identity', -, span', parent', -⟩ := calls'.exists_first listed'
    have isTool' := perm.mem_iff.mpr isTool'
    cases consistent.places s isTool with
    | inl loose =>
      right
      rw [identity] at loose
      exact ⟨calls.free loose, calls'.free (loose.perm perm)⟩
    | inr agree =>
      left
      obtain ⟨spans, parents⟩ := agree s' isTool' (identity.trans identity'.symm)
      exact ⟨span.trans (spans.trans span'.symm), parent.trans (parents.trans parent'.symm)⟩

end CallsOf

/-! ## The other totals -/

/-- What is not about costs and calls. -/
def Acc.others (acc : Acc) : Acc := { acc with cost := none, tools := ∅ }

def insertSome (names : Std.ExtTreeSet String) (name : Option String) : Std.ExtTreeSet String :=
  match name with
  | some n => names.insert n
  | none => names

theorem insertSome_comm (names : Std.ExtTreeSet String) (a b : Option String) :
    insertSome (insertSome names a) b = insertSome (insertSome names b) a := by
  cases a with
  | none => rfl
  | some a =>
    cases b with
    | none => rfl
    | some b =>
      apply Std.ExtTreeSet.ext_mem
      intro name
      simp only [insertSome, Std.ExtTreeSet.mem_insert]
      tauto

theorem addCount_comm (total a b : Option Nat) :
    addCount (addCount total a) b = addCount (addCount total b) a := by
  cases a with
  | none => rfl
  | some a =>
    cases b with
    | none => rfl
    | some b =>
      have order (t : Nat) : wrappingAdd (wrappingAdd t a) b = wrappingAdd (wrappingAdd t b) a := by
        unfold wrappingAdd
        omega
      simp [addCount, order]

theorem addTokens_comm (acc a b : Tokens) :
    addTokens (addTokens acc a) b = addTokens (addTokens acc b) a := by
  simp only [addTokens, addCount_comm _ a.prompt, addCount_comm _ a.completion,
    addCount_comm _ a.total, addCount_comm _ a.cacheRead, addCount_comm _ a.cacheWrite,
    addCount_comm _ a.reasoning]

theorem insert_comm (traces : Std.ExtTreeSet String) (a b : String) :
    (traces.insert a).insert b = (traces.insert b).insert a :=
  insertSome_comm traces (some a) (some b)

/-- One span, as a step on the other totals. -/
def Acc.step (acc : Acc) (s : NormalizedSpan) : Acc :=
  { acc with
    spanCount := acc.spanCount + 1
    traces := acc.traces.insert s.traceId
    tokens := addTokens acc.tokens s.tokens
    start := min acc.start s.startUnixNano
    stop := max acc.stop s.endUnixNano
    llmCalls := acc.llmCalls + if Agent.isKind s "LLM" then 1 else 0
    llmErrors := acc.llmErrors + if Agent.isKind s "LLM" && s.statusCode = 2 then 1 else 0
    models := insertSome acc.models (if Agent.isKind s "LLM" then s.model else none)
    agents := insertSome acc.agents (Agent.agentName s) }

theorem Acc.others_add (acc : Acc) (s : NormalizedSpan) :
    (acc.add deps s).others = acc.others.step s := by
  unfold Acc.add Acc.others Acc.step
  cases Agent.isKind s "LLM" with
  | true => cases s.model <;> cases Agent.agentName s <;> simp [insertSome]
  | false => cases Agent.isKind s "TOOL" <;> cases Agent.agentName s <;> simp [insertSome]

theorem Acc.step_comm (acc : Acc) (a b : NormalizedSpan) :
    (acc.step a).step b = (acc.step b).step a := by
  unfold Acc.step
  simp only [Acc.mk.injEq, insert_comm _ a.traceId, addTokens_comm _ a.tokens,
    insertSome_comm _ _ (Agent.agentName b), insertSome_comm _ _ (if Agent.isKind b "LLM" then _ else _),
    true_and, and_true]
  omega

variable (deps) in
theorem others_foldl_perm {spans spans' : List NormalizedSpan} (perm : spans.Perm spans')
    (acc : Acc) : (spans.foldl (Acc.add deps) acc).others =
      (spans'.foldl (Acc.add deps) acc).others := by
  have steps (spans : List NormalizedSpan) (acc : Acc) :
      (spans.foldl (Acc.add deps) acc).others = spans.foldl Acc.step acc.others := by
    induction spans generalizing acc with
    | nil => rfl
    | cons s spans inductionHypothesis =>
      rw [List.foldl_cons, inductionHypothesis, Acc.others_add, List.foldl_cons]
  rw [steps, steps]
  exact perm.foldl_eq' (fun a _ b _ acc => acc.step_comm a b) acc.others

/-- The costs are added up in the order of the spans. -/
theorem cost_foldl (spans : List NormalizedSpan) (acc : Acc) :
    (spans.foldl (Acc.add deps) acc).cost =
      (spans.filterMap NormalizedSpan.costUsd).foldl
        (fun cost c => some (deps.float.add (cost.getD (.finite 0)) c)) acc.cost := by
  induction spans generalizing acc with
  | nil => rfl
  | cons s spans inductionHypothesis =>
    have one : (acc.add deps s).cost = s.costUsd.elim acc.cost
        (fun c => some (deps.float.add (acc.cost.getD (.finite 0)) c)) := by
      unfold Acc.add
      cases cost : s.costUsd with
      | none => cases Agent.isKind s "LLM" <;> cases Agent.isKind s "TOOL" <;> rfl
      | some c => cases Agent.isKind s "LLM" <;> cases Agent.isKind s "TOOL" <;> rfl
    rw [List.foldl_cons, inductionHypothesis, one]
    cases cost : s.costUsd with
    | none => rw [List.filterMap_cons_none cost, Option.elim_none]
    | some c => rw [List.filterMap_cons_some cost, List.foldl_cons, Option.elim_some]

/-! ## The rollup -/

variable (deps) in
/-- The accumulator's calls and costs, by the spans of the session. -/
theorem foldl_add_session (spans : List NormalizedSpan) (session : String) :
    let acc := (spans.filter (fun s => s.sessionId = some session)).foldl (Acc.add deps) {}
    acc.tools = (toolSpans spans session).foldl (addTool deps) ∅ ∧
      acc.cost = summed deps
        ((spans.filter (fun s => s.sessionId = some session)).filterMap
          NormalizedSpan.costUsd) := by
  obtain ⟨-, -, tools⟩ := foldl_add_counts deps
    (spans.filter (fun s => s.sessionId = some session)) {}
  exact ⟨tools, cost_foldl _ _⟩

/-- Where the tool spans of a session do not contradict each other, its rollup is the same in
every order of the spans, but for the order in which the costs are added up. -/
theorem rolled_perm (deps : Deps) {spans spans' : List NormalizedSpan} {session : String}
    (perm : spans.Perm spans') (consistent : Consistent deps (toolSpans spans session))
    (truncated : Bool) :
    (rollup deps spans session truncated).isSome =
        (rollup deps spans' session truncated).isSome ∧
      ∀ r r', Rolled deps spans session truncated r → Rolled deps spans' session truncated r' →
        SameButCostOrder deps r r' := by
  have inSession := perm.filter (fun s => s.sessionId = some session)
  have others := others_foldl_perm deps inSession {}
  constructor
  · have counts := congrArg Acc.spanCount others
    simp only [Acc.others] at counts
    unfold rollup
    simp only [counts]
    split <;> rfl
  · intro r r' ⟨_, entries, order, isR⟩ ⟨_, entries', order', isR'⟩
    obtain ⟨tools, cost⟩ := foldl_add_session deps spans session
    obtain ⟨tools', cost'⟩ := foldl_add_session deps spans' session
    rw [tools] at order
    rw [tools'] at order'
    obtain ⟨length, failures, names, repeated, longest⟩ :=
      ((callsOf_perm order).alike (callsOf_perm order') (inSession.filter _)
        consistent).reported
    have nonempty : (mergeCalls (entries.map Prod.snd)).isEmpty =
        (mergeCalls (entries'.map Prod.snd)).isEmpty := by
      rw [Bool.eq_iff_iff, List.isEmpty_iff_length_eq_zero, List.isEmpty_iff_length_eq_zero, length]
    simp only [Acc.others, Acc.mk.injEq] at others
    obtain ⟨spanCount, traces, -, tokens, start, stop, llmCalls, llmErrors, -, models, agents⟩ :=
      others
    rw [isR, isR']
    refine ⟨?_, _, _, inSession.filterMap _, cost, cost'⟩
    unfold Acc.finishFrom
    simp only [spanCount, traces, tokens, start, stop, llmCalls, llmErrors, models, agents, length,
      failures, names, repeated, longest, nonempty, perm.length_eq]

/-- A copy of one call that names its tool. -/
def copyNamed (spanId tool : String) : NormalizedSpan :=
  { traceId := "t"
    spanId := spanId
    startUnixNano := 1
    oiKind := some "TOOL"
    sessionId := some "s"
    rawAttributes := ((∅ : Attributes).insert "gen_ai.tool.call.id" (.str "c")).insert
      "gen_ai.tool.name" (.str tool) }

theorem copyNamed_id (spanId tool : String) :
    Agent.toolCallId (copyNamed spanId tool) = some "c" := by
  have written : (copyNamed spanId tool).rawAttributes["gen_ai.tool.call.id"]? =
      some (.str "c") := by
    unfold copyNamed
    rw [getElem?_insert_if, if_neg (by decide), getElem?_insert_if, if_pos rfl]
  have held : Agent.strAt (copyNamed spanId tool) "gen_ai.tool.call.id" = some "c" := by
    rw [Agent.strAt, written]
    rfl
  rw [Agent.toolCallId, Agent.firstStr, Agent.toolCallIdKeys, List.findSome?_cons, held]

theorem copyNamed_identity (spanId tool : String) :
    callIdentity (copyNamed spanId tool) = "id:c" := by
  unfold callIdentity
  rw [copyNamed_id]
  rfl

theorem copyNamed_toolName (spanId : String) :
    Agent.toolName (copyNamed spanId "grep") = some "grep" := by
  have written : (copyNamed spanId "grep").rawAttributes["gen_ai.tool.name"]? =
      some (.str "grep") := by
    unfold copyNamed
    rw [getElem?_insert_if, if_pos rfl]
  have held : Agent.strAt (copyNamed spanId "grep") "gen_ai.tool.name" = some "grep" := by
    rw [Agent.strAt, written]
    rfl
  rw [Agent.toolName, Agent.firstStr, Agent.toolNameKeys, List.findSome?_cons, held]

theorem copyNamed_arguments (spanId : String) :
    Agent.toolArguments Deps.hashing.renderJson (copyNamed spanId "grep") = none := by
  unfold Agent.toolArguments
  rw [List.findSome?_eq_none_iff]
  intro key listed
  have absent : (copyNamed spanId "grep").rawAttributes[key]? = none := by
    simp only [Agent.toolArgumentsKeys, List.mem_cons, List.not_mem_nil, or_false] at listed
    obtain rfl | rfl | rfl | rfl := listed
    all_goals simp [copyNamed]
  rw [Agent.argumentsAt, absent]

/-- Two copies on two spans do not contradict each other. -/
theorem consistent_copies :
    Consistent .hashing (toolSpans [copyNamed "a" "grep", copyNamed "b" "grep"] "s") := by
  -- both copies differ by their span id only
  have copy (s) (isTool : s ∈ toolSpans [copyNamed "a" "grep", copyNamed "b" "grep"] "s") :
      ∃ spanId, s = copyNamed spanId "grep" := by
    have listed := (List.mem_filter.mp (List.mem_filter.mp isTool).1).1
    simp only [List.mem_cons, List.not_mem_nil, or_false] at listed
    obtain rfl | rfl := listed
    · exact ⟨"a", rfl⟩
    · exact ⟨"b", rfl⟩
  have identity (s) (isTool : s ∈ toolSpans [copyNamed "a" "grep", copyNamed "b" "grep"] "s") :
      callIdentity s = "id:c" := by
    obtain ⟨spanId, rfl⟩ := copy s isTool
    exact copyNamed_identity spanId "grep"
  constructor
  · intro s isTool s' isTool' _ _
    rw [identity s isTool, identity s' isTool']
  · intro s isTool s' isTool' _
    obtain ⟨spanId, rfl⟩ := copy s isTool
    obtain ⟨spanId', rfl⟩ := copy s' isTool'
    rfl
  · intro s isTool s' isTool' _ n n' names names'
    obtain ⟨spanId, rfl⟩ := copy s isTool
    obtain ⟨spanId', rfl⟩ := copy s' isTool'
    rw [copyNamed_toolName] at names names'
    exact Option.some.inj (names.symm.trans names')
  · intro s isTool s' isTool' _ _
    obtain ⟨spanId, rfl⟩ := copy s isTool
    obtain ⟨spanId', rfl⟩ := copy s' isTool'
    rfl
  · intro s isTool s' isTool' _ arguments arguments' reported
    obtain ⟨spanId, rfl⟩ := copy s isTool
    rw [copyNamed_arguments] at reported
    cases reported
  · intro s isTool
    left
    constructor
    · intro s isTool _
      obtain ⟨spanId, rfl⟩ := copy s isTool
      rw [copyNamed_id]
      rfl
    · intro s _ _ r isTool' _ parent
      obtain ⟨spanId, rfl⟩ := copy r isTool'
      cases parent
    · intro s' _ _ r isTool' differ
      exact absurd ((identity r isTool').trans (identity s isTool).symm) differ

theorem rolled_perm_copies :
    (rollup .hashing [copyNamed "a" "grep", copyNamed "b" "grep"] "s" false).isSome =
        (rollup .hashing [copyNamed "b" "grep", copyNamed "a" "grep"] "s" false).isSome ∧
      ∀ r r', Rolled .hashing [copyNamed "a" "grep", copyNamed "b" "grep"] "s" false r →
        Rolled .hashing [copyNamed "b" "grep", copyNamed "a" "grep"] "s" false r' →
          SameButCostOrder .hashing r r' :=
  rolled_perm .hashing (.swap ..) consistent_copies false

/-- Two copies name two tools: the first one is counted. -/
theorem first_name_counts :
    ∃ r r', Rolled .hashing [copyNamed "a" "grep", copyNamed "b" "find"] "s" false r ∧
      Rolled .hashing [copyNamed "b" "find", copyNamed "a" "grep"] "s" false r' ∧
        ¬ SameButCostOrder .hashing r r' := by
  have first : ((rollup .hashing [copyNamed "a" "grep", copyNamed "b" "find"] "s" false).map
      (fun r => r.tools.toList)) = some [("grep", 1)] := by decide
  have second : ((rollup .hashing [copyNamed "b" "find", copyNamed "a" "grep"] "s" false).map
      (fun r => r.tools.toList)) = some [("find", 1)] := by decide
  obtain ⟨r, rolled, tools⟩ := Option.map_eq_some_iff.mp first
  obtain ⟨r', rolled', tools'⟩ := Option.map_eq_some_iff.mp second
  refine ⟨r, r', rolled_of_rollup .hashing rolled, rolled_of_rollup .hashing rolled', ?_⟩
  intro same
  have names := congrArg SessionRollup.tools same.rest
  rw [show r.tools = r'.tools from names, tools'] at tools
  simp at tools

end Evald.Sessions
