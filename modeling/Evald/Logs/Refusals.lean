import Evald.Lib.Run
import Evald.Logs.Retry

/-! # Refused tool calls

A decision that refuses a Codex tool call is remembered for its conversation until the
call's result is mapped, and the result that finds it takes it.  A request that is mapped
again brings its results again, but not the decisions of the requests before it, so a
refused call is reported as failed in every mapping exactly when every one of them still
finds a refusal, or fails by itself (`refusals_reported_iff`).
-/

namespace Evald.Logs

open Evald.Lib Evald.Otlp Evald.Normalize

/-! ## A session after an update -/

section Memory

variable {T : Type}

/-- The request's copy of a named session is the node's, unless the node has forgotten it. -/
def CoherentOrForgotten (loc : Local T) (recent : Recall T) : Prop :=
  ∀ session v, session ≠ "" → loc[session]? = some v →
    recent.map[session]? = some v ∨ recent.map[session]? = none

theorem forgetOldest_get (map : Std.ExtTreeMap String T) (order : List String)
    (session : String) :
    (forgetOldest map order).map[session]? = map[session]? ∨
      (forgetOldest map order).map[session]? = none := by
  induction order generalizing map with
  | nil => exact .inl rfl
  | cons old rest inductionHypothesis =>
    unfold forgetOldest
    split
    · cases inductionHypothesis (map.erase old) with
      | inl same =>
        rw [same, Std.ExtTreeMap.getElem?_erase]
        split
        · exact .inr rfl
        · exact .inl rfl
      | inr gone => exact .inr gone
    · exact .inl rfl

theorem Recall.remember_get (recent : Recall T) (updated : String) (value : T)
    (session : String) :
    (recent.remember updated value).map[session]? =
        (recent.map.insert updated value)[session]? ∨
      (recent.remember updated value).map[session]? = none := by
  unfold Recall.remember
  split
  · exact .inl rfl
  · exact forgetOldest_get _ _ session

/-- The session that is updated has its new value. -/
theorem Recall.get_update_self [Inhabited T] (recent : Recall T) (loc : Local T) (session : String)
    (f : T → T) :
    (recent.update loc session f).2.get (recent.update loc session f).1 session =
      some (f ((recent.get loc session).getD default)) := by
  by_cases named : session = ""
  · subst named
    have read : (recent.get loc "").getD default = loc.getD "" default := by
      unfold Recall.get
      rw [if_pos rfl, Std.ExtTreeMap.getD_eq_getD_getElem?]
      cases loc[""]? <;> rfl
    rw [read]
    unfold Recall.update Recall.get
    rw [if_pos rfl]
    simp
  · rw [recent.update_of_named loc f named]
    simp [Recall.get]

/-- Any other session is as it was, or forgotten. -/
theorem Recall.get_update_other [Inhabited T] (recent : Recall T) (loc : Local T) {session other : String}
    (f : T → T) (different : other ≠ session) :
    (recent.update loc session f).2.get (recent.update loc session f).1 other =
        recent.get loc other ∨
      (recent.update loc session f).2.get (recent.update loc session f).1 other = none := by
  by_cases named : session = ""
  · subst named
    left
    unfold Recall.update Recall.get
    rw [if_pos rfl]
    simp only
    rw [getElem?_insert_if, if_neg different]
  · rw [recent.update_of_named loc f named]
    unfold Recall.get
    simp only
    rw [getElem?_insert_if, if_neg different]
    cases loc[other]? with
    | some t => exact .inl rfl
    | none =>
      simp only
      by_cases empty : other = ""
      · rw [if_pos empty, if_pos empty]
        exact .inl rfl
      · rw [if_neg empty, if_neg empty]
        have kept := recent.remember_get session (f ((recent.get loc session).getD default)) other
        rw [getElem?_insert_if, if_neg different] at kept
        exact kept

theorem CoherentOrForgotten.update [Inhabited T] {recent : Recall T} {loc : Local T}
    (coherent : CoherentOrForgotten loc recent) (session : String) (f : T → T) :
    CoherentOrForgotten (recent.update loc session f).1 (recent.update loc session f).2 := by
  intro other v named found
  by_cases empty : session = ""
  · subst empty
    unfold Recall.update at found ⊢
    rw [if_pos rfl] at found ⊢
    rw [getElem?_insert_if, if_neg named] at found
    exact coherent other v named found
  · rw [recent.update_of_named loc f empty] at found ⊢
    simp only at found ⊢
    have kept := recent.remember_get session (f ((recent.get loc session).getD default)) other
    rw [getElem?_insert_if] at found kept
    by_cases same : other = session
    · rw [if_pos same] at found kept
      rw [← found]
      exact kept
    · rw [if_neg same] at found kept
      cases kept with
      | inl unchanged =>
        rw [unchanged]
        exact coherent other v named found
      | inr gone => exact .inr gone

/-- What the next request sees of a session is what this one saw, or nothing. -/
theorem CoherentOrForgotten.get_empty {recent : Recall T} {loc : Local T}
    (coherent : CoherentOrForgotten loc recent) (session : String) :
    recent.get ∅ session = recent.get loc session ∨ recent.get ∅ session = none := by
  by_cases empty : session = ""
  · right
    simp [Recall.get, empty]
  · unfold Recall.get
    rw [if_neg empty]
    simp only [Std.ExtTreeMap.getElem?_empty]
    cases found : loc[session]? with
    | none => exact .inl rfl
    | some v => exact coherent session v empty found

end Memory

/-! ## What is outstanding -/

/-- What is mapped: a request begins, and its records follow. -/
inductive MapOp where
  | request
  | record (ctx : RecordCtx) (rec : LogRecord)

/-- A run of the mapper, with what its records say of the calls. -/
structure Refusals where
  state : RequestState := {}
  node : Remembered := {}
  spans : List NormalizedSpan := []
  /-- The calls whose latest decision was no approval. -/
  refused : String → Bool := fun _ => false
  /-- The refusals of each conversation that no result has taken. -/
  outstanding : String → List String := fun _ => []

/-- No more than the newest are kept. -/
def addRefusal (calls : List String) (call : String) : List String :=
  if Codex.refusedKept < (calls ++ [call]).length then (calls ++ [call]).tail
  else calls ++ [call]

section Steps

variable (deps : Deps) (prices : Pricing.PriceTable) (policy : LogsPolicy)

/-- The Codex event a record is mapped as. -/
def codexEvent (ctx : RecordCtx) (rec : LogRecord) : Option String :=
  if policy = .off || !Codex.isMine ctx then none
  else (eventName deps rec).bind (stripPrefix · "codex.")

/-- What is outstanding in a conversation after one of its events. -/
def outstandingAfter (event : String) (a : List KeyValue) (calls : List String) : List String :=
  if event = "tool_decision" then
    match Codex.refusedCall deps a with
    | some (call, _) => addRefusal calls call
    | none => calls
  else if event = "tool_result" then
    match attrStr deps a "call_id" with
    | some call => calls.erase call
    | none => calls
  else calls

/-- A decision is the latest of its call. -/
def refusedAfter (event : String) (a : List KeyValue) (refused : String → Bool) :
    String → Bool :=
  if event = "tool_decision" then
    match attrStr deps a "call_id" with
    | some call => Function.update refused call (Codex.refusedCall deps a).isSome
    | none => refused
  else refused

/-- With a conversation that is forgotten, its refusals are. -/
def Refusals.forget (r : Refusals) : Refusals :=
  { r with
    outstanding := fun conv =>
      if (r.node.codex.get r.state.codex conv).isSome then r.outstanding conv else [] }

def Refusals.step (r : Refusals) : MapOp → Refusals
  | .request => Refusals.forget { r with state := {} }
  | .record ctx rec =>
    let (mapped, state, node) := mapRecord deps prices policy ctx rec r.state r.node
    let r := { r with state := state, node := node, spans := r.spans ++ mapped.spans }
    match codexEvent deps policy ctx rec with
    | none => r.forget
    | some event =>
      let conv := Codex.conversationId deps rec
      Refusals.forget
        { r with
          refused := refusedAfter deps event rec.attributes r.refused
          outstanding := Function.update r.outstanding conv
            (outstandingAfter deps event rec.attributes (r.outstanding conv)) }

def Refusals.run (ops : List MapOp) : Refusals :=
  ops.foldl (Refusals.step deps prices policy) {}

/-- A request as it is mapped. -/
def opsOf (req : ExportLogsServiceRequest) : List MapOp :=
  .request :: (recordsOf deps req).map (fun record => .record record.1 record.2)

end Steps

/-! ## What one event does -/

/-- The calls a conversation is known to have had refused. -/
def callsRefused (seen : Option Codex.Conversation) : List String :=
  (seen.getD default).refused.map Prod.fst

section Events

variable (deps : Deps)

theorem refused_refuse (call why : String) (c : Codex.Conversation) :
    (c.refuse call why).refused.map Prod.fst = addRefusal (c.refused.map Prod.fst) call := by
  unfold Codex.Conversation.refuse addRefusal
  simp only [List.length_append, List.length_map, List.length_singleton]
  split
  · rw [List.map_tail, List.map_append, List.map_singleton]
  · rw [List.map_append, List.map_singleton]

theorem refused_forgetRefusal (call : String) (c : Codex.Conversation) :
    (c.forgetRefusal call).refused.map Prod.fst = (c.refused.map Prod.fst).erase call := by
  unfold Codex.Conversation.forgetRefusal
  simp only
  rw [List.erase_eq_eraseP, List.eraseP_map]
  congr 2
  funext r
  show decide (r.1 = call) = (call == r.1)
  rw [Bool.eq_iff_iff, decide_eq_true_iff, beq_iff_eq]
  exact eq_comm

theorem refusal_eq_none {seen : Option Codex.Conversation} {call : String} :
    Codex.refusal seen (some call) = none ↔ call ∉ callsRefused seen := by
  unfold Codex.refusal callsRefused
  cases seen with
  | none =>
    have empty : (default : Codex.Conversation).refused = [] := rfl
    simp [empty]
  | some c =>
    simp only [Option.map_eq_none_iff, List.find?_eq_none, decide_eq_true_iff, Option.getD_some,
      List.mem_map, not_exists, not_and]

/-- An event does to the refusals of its conversation what it does to those outstanding. -/
theorem eventUse_refused (ctx : RecordCtx) (rec : LogRecord) (event : String)
    (seen : Option Codex.Conversation) :
    ((Codex.eventUse deps ctx rec event seen).2 = none →
        outstandingAfter deps event rec.attributes (callsRefused seen) = callsRefused seen) ∧
      ∀ f, (Codex.eventUse deps ctx rec event seen).2 = some f →
        (f (seen.getD default)).refused.map Prod.fst =
          outstandingAfter deps event rec.attributes (callsRefused seen) := by
  unfold Codex.eventUse outstandingAfter
  by_cases decision : event = "tool_decision"
  · subst decision
    simp only [show ¬ "tool_decision" = "conversation_starts" by decide,
      show ¬ "tool_decision" = "user_prompt" by decide,
      show ¬ "tool_decision" = "api_request" by decide,
      show ¬ "tool_decision" = "websocket_request" by decide,
      show ¬ "tool_decision" = "sse_event" by decide, if_false, if_true, decide_false,
      Bool.false_and, Bool.or_false, Bool.false_eq_true]
    cases Codex.refusedCall deps rec.attributes with
    | none => exact ⟨fun _ => rfl, fun f changes => (by cases changes)⟩
    | some refused =>
      refine ⟨fun kept => (by cases kept), fun f changes => ?_⟩
      rw [← Option.some.inj changes]
      exact refused_refuse _ _ _
  by_cases result : event = "tool_result"
  · subst result
    simp only [show ¬ "tool_result" = "conversation_starts" by decide,
      show ¬ "tool_result" = "user_prompt" by decide,
      show ¬ "tool_result" = "api_request" by decide,
      show ¬ "tool_result" = "websocket_request" by decide,
      show ¬ "tool_result" = "sse_event" by decide,
      show ¬ "tool_result" = "tool_decision" by decide, if_false, if_true, decide_false,
      Bool.false_and, Bool.or_false, Bool.false_eq_true]
    cases attrStr deps rec.attributes "call_id" with
    | none => exact ⟨fun _ => rfl, fun f changes => (by cases changes)⟩
    | some call =>
      simp only [Option.bind_some]
      cases known : Codex.refusal seen (some call) with
      | none =>
        have absent := refusal_eq_none.mp known
        exact ⟨fun _ => List.erase_of_not_mem absent, fun f changes => (by cases changes)⟩
      | some why =>
        refine ⟨fun kept => (by cases kept), fun f changes => ?_⟩
        rw [← Option.some.inj changes]
        exact refused_forgetRefusal call _
  -- no other event has to do with refusals
  rw [if_neg decision, if_neg result]
  refine ⟨fun _ => rfl, fun f changes => ?_⟩
  simp only [if_neg decision, if_neg result] at changes
  split_ifs at changes
  · cases named : (attrStr deps rec.attributes "provider_name").filter (· ≠ "") with
    | none =>
      rw [named] at changes
      cases changes
    | some p =>
      rw [named] at changes
      rw [← Option.some.inj changes]
      rfl
  · rw [← Option.some.inj changes]
    rfl
  · cases failed : Codex.requestError deps event rec.attributes with
    | some message =>
      rw [failed] at changes
      cases changes
    | none =>
      rw [failed] at changes
      rw [← Option.some.inj changes]
      rfl
  · cases reported : Codex.sseCall deps rec.attributes with
    | some error =>
      rw [reported] at changes
      cases changes
    | none =>
      rw [reported] at changes
      cases changes

end Events

/-! ## What one record does -/

section Records

variable (deps : Deps) (prices : Pricing.PriceTable) (policy : LogsPolicy)

/-- Whatever dialect takes a record, what is remembered of Codex is what Codex makes of it. -/
theorem mapDialect_codex {ctx : RecordCtx} {rec : LogRecord} {name : Option String}
    {state : RequestState} {node : Remembered}
    (unclaimed : ClaudeCode.mapLog deps ctx rec name = .notMine) :
    ((mapDialect deps ctx rec name node state).2.1.codex,
        (mapDialect deps ctx rec name node state).2.2.codex) =
      (Codex.mapLog deps ctx rec name node.codex state.codex).2 := by
  unfold mapDialect
  simp only [unclaimed]
  obtain ⟨answer, loc, recent⟩ := Codex.mapLog deps ctx rec name node.codex state.codex
  cases answer <;> rfl

theorem mapDialect_codex_kept {ctx : RecordCtx} {rec : LogRecord} {name : Option String}
    {state : RequestState} {node : Remembered}
    (notMine : Codex.mapLog deps ctx rec name node.codex state.codex =
      (.notMine, state.codex, node.codex)) :
    (mapDialect deps ctx rec name node state).2.1.codex = state.codex ∧
      (mapDialect deps ctx rec name node state).2.2.codex = node.codex := by
  cases claude : ClaudeCode.mapLog deps ctx rec name with
  | notMine =>
    have pair := @mapDialect_codex deps ctx rec name state node claude
    rw [notMine, Prod.mk.injEq] at pair
    exact pair
  | span s =>
    unfold mapDialect
    simp only [claude, and_self]
  | folded =>
    unfold mapDialect
    simp only [claude, and_self]

/-- A record that is no event of Codex leaves what is remembered of Codex. -/
theorem mapRecord_codex_of_none {ctx : RecordCtx} {rec : LogRecord} {state : RequestState}
    {node : Remembered} (other : codexEvent deps policy ctx rec = none) :
    (mapRecord deps prices policy ctx rec state node).2.1.codex = state.codex ∧
      (mapRecord deps prices policy ctx rec state node).2.2.codex = node.codex := by
  unfold mapRecord
  by_cases off : policy = .off
  · rw [if_pos off]
    exact ⟨rfl, rfl⟩
  rw [if_neg off]
  by_cases evaluation : eventName deps rec = some EvalEvent.eventName
  · simp only [if_pos evaluation, and_self]
  · simp only [if_neg evaluation]
    apply mapDialect_codex_kept
    unfold codexEvent at other
    unfold Codex.mapLog
    by_cases mine : Codex.isMine ctx = true
    · simp only [off, decide_false, mine, Bool.not_true, Bool.or_false, Bool.false_eq_true,
        if_false] at other
      simp only [mine, Bool.not_true, Bool.false_eq_true, if_false, other]
    · simp [mine]

/-- What an event of Codex is mapped by. -/
structure IsEvent (ctx : RecordCtx) (rec : LogRecord) (event : String) : Prop where
  on : policy ≠ .off
  mine : Codex.isMine ctx = true
  named : (eventName deps rec).bind (stripPrefix · "codex.") = some event
  prefixed : eventName deps rec = some ("codex." ++ event)

theorem isEvent_of_codexEvent {ctx : RecordCtx} {rec : LogRecord} {event : String}
    (isEvent : codexEvent deps policy ctx rec = some event) :
    IsEvent deps policy ctx rec event := by
  unfold codexEvent at isEvent
  split at isEvent
  · cases isEvent
  · next passes =>
    rw [Bool.or_eq_true, not_or, decide_eq_true_iff, Bool.not_eq_true', Bool.not_eq_false]
      at passes
    obtain ⟨name, isName, stripped⟩ := Option.bind_eq_some_iff.mp isEvent
    rw [stripPrefix_eq_some] at stripped
    exact
      { on := passes.1
        mine := passes.2
        named := isEvent
        prefixed := by rw [isName, stripped] }

variable {policy} in
theorem IsEvent.mapRecord {ctx : RecordCtx} {rec : LogRecord} {event : String}
    (isEvent : IsEvent deps policy ctx rec event) (state : RequestState) (node : Remembered) :
    Logs.mapRecord deps prices policy ctx rec state node =
        (let mapped := mapDialect deps ctx rec (eventName deps rec) node state
        (settle deps prices policy ctx rec (eventName deps rec) mapped.1, mapped.2)) ∧
      ClaudeCode.mapLog deps ctx rec (eventName deps rec) = .notMine ∧
      Codex.mapLog deps ctx rec (eventName deps rec) node.codex state.codex =
        Codex.mapEvent deps ctx rec event node.codex state.codex := by
  have other : eventName deps rec ≠ some EvalEvent.eventName := by
    intro same
    have prefixed := isEvent.prefixed
    rw [same, Option.some.injEq] at prefixed
    have starts := startsWith_append "codex." event
    rw [← prefixed] at starts
    exact absurd starts (by decide)
  refine ⟨?_, ?_, ?_⟩
  · unfold Logs.mapRecord
    rw [if_neg isEvent.on]
    simp only [if_neg other]
  · rw [isEvent.prefixed]
    exact claude_not_mine deps (.inl (startsWith_append "codex." event))
  · unfold Codex.mapLog
    simp only [isEvent.mine, Bool.not_true, Bool.false_eq_true, if_false, isEvent.named]

variable {policy} in
/-- An event of Codex changes what is remembered of its conversation. -/
theorem IsEvent.codex {ctx : RecordCtx} {rec : LogRecord} {event : String}
    (isEvent : IsEvent deps policy ctx rec event) (state : RequestState) (node : Remembered) :
    ((Logs.mapRecord deps prices policy ctx rec state node).2.1.codex,
        (Logs.mapRecord deps prices policy ctx rec state node).2.2.codex) =
      match (Codex.eventUse deps ctx rec event
        (node.codex.get state.codex (Codex.conversationId deps rec))).2 with
      | none => (state.codex, node.codex)
      | some f => node.codex.update state.codex (Codex.conversationId deps rec) f := by
  obtain ⟨mapped, unclaimed, asEvent⟩ := isEvent.mapRecord deps prices state node
  have pair := @mapDialect_codex deps ctx rec (eventName deps rec) state node unclaimed
  rw [asEvent, Codex.mapEvent_eq] at pair
  rw [mapped]
  exact pair

variable {policy} in
/-- A result is mapped to the span of its call. -/
theorem IsEvent.result {ctx : RecordCtx} {rec : LogRecord}
    (isEvent : IsEvent deps policy ctx rec "tool_result") (state : RequestState)
    (node : Remembered) :
    (Logs.mapRecord deps prices policy ctx rec state node).1 =
      .span (Pricing.apply deps.float prices
        (Codex.toolSpan deps ctx rec (Codex.conversationId deps rec)
          (node.codex.get state.codex (Codex.conversationId deps rec)))) := by
  obtain ⟨mapped, unclaimed, asEvent⟩ := isEvent.mapRecord deps prices state node
  rw [mapped]
  simp only
  unfold mapDialect
  simp only [unclaimed]
  rw [asEvent, Codex.mapEvent_eq]
  simp only [Codex.eventUse, show ¬ "tool_result" = "conversation_starts" by decide,
    show ¬ "tool_result" = "user_prompt" by decide,
    show ¬ "tool_result" = "api_request" by decide,
    show ¬ "tool_result" = "websocket_request" by decide,
    show ¬ "tool_result" = "sse_event" by decide,
    show ¬ "tool_result" = "tool_decision" by decide, if_false, if_true, decide_false,
    Bool.false_and, Bool.or_false, Bool.false_eq_true, settle]

end Records

/-! ## The status of a call -/

section Status

variable (deps : Deps)

/-- The result itself reports that its call failed. -/
def FailsItself (a : List KeyValue) : Prop :=
  attrStr deps a "success" = some "false" ∨ Codex.exitCode deps a ≠ none

theorem statusCode_normalize (s : NormalizedSpan) :
    (Agent.normalize s).statusCode = s.statusCode := by
  obtain ⟨raw, -, normalized⟩ := Agent.normalize_spec s
  rw [normalized]
  show (Agent.usageSetAside s).statusCode = s.statusCode
  unfold Agent.usageSetAside
  split <;> rfl

theorem statusCode_apply (float : Floats) (prices : Pricing.PriceTable) (s : NormalizedSpan) :
    (Pricing.apply float prices s).statusCode = s.statusCode := by
  obtain ⟨cost, raw, -, priced⟩ := Pricing.apply_spec float prices s
  rw [priced]

theorem toolStatus_cases (a : List KeyValue) (refused : Option String) :
    (∃ message, Codex.toolStatus deps a refused = some (.error message)) ∧
        (refused ≠ none ∨ FailsItself deps a) ∨
      Codex.toolStatus deps a refused = none ∧ refused = none ∧ ¬ FailsItself deps a := by
  unfold Codex.toolStatus FailsItself
  cases refused with
  | some why => exact .inl ⟨⟨why, rfl⟩, .inl (by simp)⟩
  | none =>
    simp only
    by_cases failed : attrStr deps a "success" = some "false"
    · rw [if_pos failed]
      exact .inl ⟨⟨_, rfl⟩, .inr (.inl failed)⟩
    · rw [if_neg failed]
      cases exited : Codex.exitCode deps a with
      | some code => exact .inl ⟨⟨_, rfl⟩, .inr (.inr (by simp))⟩
      | none =>
        refine .inr ⟨by rw [Option.map_none], trivial, ?_⟩
        rintro (said | code)
        · exact failed said
        · exact code rfl

/-- A call is reported as failed if a refusal of it is known or its result reports a failure. -/
theorem statusCode_toolSpan (ctx : RecordCtx) (rec : LogRecord) (conv : String)
    (seen : Option Codex.Conversation) :
    (Codex.toolSpan deps ctx rec conv seen).statusCode = 2 ↔
      Codex.refusal seen (attrStr deps rec.attributes "call_id") ≠ none ∨
        FailsItself deps rec.attributes := by
  unfold Codex.toolSpan
  show (normalizeSpan deps _ _ _ _).statusCode = 2 ↔ _
  rw [normalizeSpan, statusCode_normalize]
  simp only [readSpan, SpanDraft.toSpan]
  cases toolStatus_cases deps rec.attributes
      (Codex.refusal seen (attrStr deps rec.attributes "call_id")) with
  | inl failed =>
    obtain ⟨⟨message, status⟩, why⟩ := failed
    simp only [status, Option.map_some, draftStatus, Option.getD_some, true_iff]
    exact why
  | inr passed =>
    obtain ⟨status, known, itself⟩ := passed
    rw [status]
    simp [known, itself]

end Status

/-! ## Runs -/

/-- The memory of every conversation holds the refusals outstanding in it. -/
structure Refusals.Tracks (r : Refusals) : Prop where
  calls : ∀ conv, callsRefused (r.node.codex.get r.state.codex conv) = r.outstanding conv
  coherent : CoherentOrForgotten r.state.codex r.node.codex

theorem Refusals.tracks_forget {r : Refusals}
    (coherent : CoherentOrForgotten r.state.codex r.node.codex)
    (calls : ∀ conv c, r.node.codex.get r.state.codex conv = some c →
      c.refused.map Prod.fst = r.outstanding conv) : r.forget.Tracks where
  coherent := coherent
  calls := by
    intro conv
    show callsRefused (r.node.codex.get r.state.codex conv) =
      if (r.node.codex.get r.state.codex conv).isSome then r.outstanding conv else []
    cases known : r.node.codex.get r.state.codex conv with
    | none => rfl
    | some c => exact calls conv c known

theorem Refusals.Tracks.of_some {r : Refusals} (tracks : r.Tracks) {conv : String}
    {c : Codex.Conversation} (known : r.node.codex.get r.state.codex conv = some c) :
    c.refused.map Prod.fst = r.outstanding conv := by
  have calls := tracks.calls conv
  rw [known] at calls
  exact calls

section Steps

variable {deps : Deps} {prices : Pricing.PriceTable} {policy : LogsPolicy}

/-- An event moves the refusals of its conversation, and no other. -/
theorem Refusals.Tracks.event {r : Refusals} (tracks : r.Tracks) {ctx : RecordCtx}
    {rec : LogRecord} {event : String} (isEvent : codexEvent deps policy ctx rec = some event) :
    (r.step deps prices policy (.record ctx rec)).Tracks := by
  have changed := (isEvent_of_codexEvent deps policy isEvent).codex deps prices r.state r.node
  have effect := eventUse_refused deps ctx rec event
    (r.node.codex.get r.state.codex (Codex.conversationId deps rec))
  rw [tracks.calls] at effect
  unfold Refusals.step
  simp only [isEvent]
  generalize mapRecord deps prices policy ctx rec r.state r.node = mapped at changed ⊢
  generalize Codex.conversationId deps rec = conv at changed effect ⊢
  -- an event that changes nothing, or one that changes its own conversation
  cases change : (Codex.eventUse deps ctx rec event (r.node.codex.get r.state.codex conv)).2 with
  | none =>
    rw [change, Prod.mk.injEq] at changed
    apply Refusals.tracks_forget
    · show CoherentOrForgotten mapped.2.1.codex mapped.2.2.codex
      rw [changed.1, changed.2]
      exact tracks.coherent
    · intro other c known
      simp only [changed.1, changed.2] at known
      simp only
      rw [effect.1 change, Function.update_eq_self]
      exact tracks.of_some known
  | some f =>
    rw [change] at changed
    have loc : mapped.2.1.codex = (r.node.codex.update r.state.codex conv f).1 :=
      congrArg Prod.fst changed
    have recent : mapped.2.2.codex = (r.node.codex.update r.state.codex conv f).2 :=
      congrArg Prod.snd changed
    apply Refusals.tracks_forget
    · show CoherentOrForgotten mapped.2.1.codex mapped.2.2.codex
      rw [loc, recent]
      exact tracks.coherent.update conv f
    · intro other c known
      simp only [loc, recent] at known
      simp only
      by_cases same : other = conv
      · subst same
        rw [Recall.get_update_self, Option.some.injEq] at known
        rw [Function.update_self, ← effect.2 f change, known]
      · rw [Function.update_of_ne same]
        -- another conversation is as it was, or forgotten
        cases r.node.codex.get_update_other r.state.codex f same with
        | inl kept => exact tracks.of_some (kept ▸ known)
        | inr gone =>
          rw [gone] at known
          cases known

theorem Refusals.Tracks.step {r : Refusals} (tracks : r.Tracks) (op : MapOp) :
    (r.step deps prices policy op).Tracks := by
  cases op with
  | request =>
    apply Refusals.tracks_forget
    · intro session v named found
      simp at found
    · intro conv c known
      cases tracks.coherent.get_empty conv with
      | inl same => exact tracks.of_some (same ▸ known)
      | inr gone =>
        rw [gone] at known
        cases known
  | record ctx rec =>
    cases isEvent : codexEvent deps policy ctx rec with
    | some event => exact tracks.event isEvent
    | none =>
      have kept := @mapRecord_codex_of_none deps prices policy ctx rec r.state r.node isEvent
      unfold Refusals.step
      simp only [isEvent]
      apply Refusals.tracks_forget
      · simp only [kept.1, kept.2]
        exact tracks.coherent
      · intro conv c known
        simp only [kept.1, kept.2] at known
        exact tracks.of_some known

/-- At the start nothing is remembered. -/
theorem Refusals.tracks_start : Refusals.Tracks {} where
  calls := fun conv => by
    have empty : Recall.get ({} : Recall Codex.Conversation) ∅ conv = none := by
      simp [Recall.get]
    show callsRefused (Recall.get ({} : Recall Codex.Conversation) ∅ conv) = []
    rw [empty]
    rfl
  coherent := fun session v _ found => by simp at found

theorem Refusals.tracks_run (ops : List MapOp) : (Refusals.run deps prices policy ops).Tracks := by
  induction ops using List.reverseRecOn with
  | nil => exact Refusals.tracks_start
  | append_singleton ops op inductionHypothesis =>
    rw [Refusals.run, List.foldl_append]
    exact inductionHypothesis.step op

/-! ## Requests -/

theorem Refusals.step_record (r : Refusals) (ctx : RecordCtx) (rec : LogRecord) :
    let mapped := mapRecord deps prices policy ctx rec r.state r.node
    let r' := r.step deps prices policy (.record ctx rec)
    r'.state = mapped.2.1 ∧ r'.node = mapped.2.2 ∧ r'.spans = r.spans ++ mapped.1.spans := by
  unfold Refusals.step
  simp only
  cases codexEvent deps policy ctx rec <;> exact ⟨rfl, rfl, rfl⟩

theorem Refusals.foldl_records (records : List (RecordCtx × LogRecord)) {r : Refusals}
    {before : List NormalizedSpan} {batch : LogsBatch} (spans : r.spans = before ++ batch.spans) :
    let mapped := records.foldl (mapNext deps prices policy) (batch, r.state, r.node)
    let r' := (records.map (fun record => MapOp.record record.1 record.2)).foldl
      (Refusals.step deps prices policy) r
    r'.node = mapped.2.2 ∧ r'.spans = before ++ mapped.1.spans := by
  induction records generalizing r batch with
  | nil => exact ⟨rfl, spans⟩
  | cons record records inductionHypothesis =>
    obtain ⟨state, node, added⟩ :=
      @Refusals.step_record deps prices policy r record.1 record.2
    simp only [List.map_cons, List.foldl_cons]
    have next := @inductionHypothesis (r.step deps prices policy (.record record.1 record.2))
      (batch.note (mapRecord deps prices policy record.1 record.2 r.state r.node).1) (by
        rw [added, spans, List.append_assoc]
        rfl)
    rw [state, node] at next
    exact next

/-- A run over requests maps them as the door does. -/
theorem Refusals.run_requests (reqs : List ExportLogsServiceRequest) :
    (Refusals.run deps prices policy (reqs.flatMap (opsOf deps))).node =
        (mapRequests deps prices policy {} reqs).2 ∧
      (Refusals.run deps prices policy (reqs.flatMap (opsOf deps))).spans =
        (mapRequests deps prices policy {} reqs).1.spans := by
  induction reqs using List.reverseRecOn with
  | nil => exact ⟨rfl, rfl⟩
  | append_singleton reqs req inductionHypothesis =>
    obtain ⟨node, spans⟩ := inductionHypothesis
    have more : mapRequests deps prices policy {} (reqs ++ [req]) =
        let earlier := mapRequests deps prices policy {} reqs
        let next := normalizeLogs deps prices policy earlier.2 req
        (earlier.1.append next.1, next.2) := by
      unfold mapRequests
      rw [List.foldl_append]
      rfl
    rw [more]
    unfold Refusals.run at node spans ⊢
    rw [List.flatMap_append, List.flatMap_singleton, List.foldl_append]
    generalize (reqs.flatMap (opsOf deps)).foldl (Refusals.step deps prices policy) {} = r at *
    generalize mapRequests deps prices policy {} reqs = earlier at *
    have records := @Refusals.foldl_records deps prices policy (recordsOf deps req)
      (Refusals.forget { r with state := {} }) earlier.1.spans {} (by
        rw [← spans, List.append_nil]
        rfl)
    have found : (Refusals.forget { r with state := {} }).node = earlier.2 := node
    rw [found] at records
    exact records

end Steps

/-! ## What is reported -/

section Reports

variable (deps : Deps) (prices : Pricing.PriceTable) (policy : LogsPolicy)

/-- The result of a call whose latest decision was no approval. -/
structure Refusals.ResultOf (r : Refusals) (ctx : RecordCtx) (rec : LogRecord) (call : String) :
    Prop where
  isResult : codexEvent deps policy ctx rec = some "tool_result"
  isCall : attrStr deps rec.attributes "call_id" = some call
  refused : r.refused call = true

/-- Every mapping of the result of a refused call reports an error. -/
def RefusalsReported (ops : List MapOp) : Prop :=
  ∀ front ctx rec after call, ops = front ++ .record ctx rec :: after →
    (Refusals.run deps prices policy front).ResultOf deps policy ctx rec call →
      ∀ s ∈ (mapRecord deps prices policy ctx rec (Refusals.run deps prices policy front).state
        (Refusals.run deps prices policy front).node).1.spans, s.statusCode = 2

/-- Every one of them still finds a refusal of its call outstanding, or fails by itself. -/
def RefusalsFound (ops : List MapOp) : Prop :=
  ∀ front ctx rec after call, ops = front ++ .record ctx rec :: after →
    (Refusals.run deps prices policy front).ResultOf deps policy ctx rec call →
      call ∈ (Refusals.run deps prices policy front).outstanding
          (Codex.conversationId deps rec) ∨
        FailsItself deps rec.attributes

theorem Refusals.reported_iff {r : Refusals} (tracks : r.Tracks) {ctx : RecordCtx}
    {rec : LogRecord} {call : String} (result : r.ResultOf deps policy ctx rec call) :
    (∀ s ∈ (mapRecord deps prices policy ctx rec r.state r.node).1.spans, s.statusCode = 2) ↔
      call ∈ r.outstanding (Codex.conversationId deps rec) ∨
        FailsItself deps rec.attributes := by
  have mapped :=
    (isEvent_of_codexEvent deps policy result.isResult).result deps prices r.state r.node
  rw [mapped, ← tracks.calls]
  simp only [Mapped.spans, List.mem_singleton, forall_eq]
  rw [statusCode_apply, statusCode_toolSpan, result.isCall, ne_eq, refusal_eq_none, not_not]

/-- Every refused call is reported as failed, in every mapping of its result, exactly when
every mapping still finds a refusal of the call outstanding or fails by itself. -/
theorem refusals_reported_iff (ops : List MapOp) :
    RefusalsReported deps prices policy ops ↔ RefusalsFound deps prices policy ops := by
  have each (front : List MapOp) := @Refusals.tracks_run deps prices policy front
  constructor
  · intro reported front ctx rec after call split result
    exact (Refusals.reported_iff deps prices policy (each front) result).mp
      (reported front ctx rec after call split result)
  · intro found front ctx rec after call split result
    exact (Refusals.reported_iff deps prices policy (each front) result).mpr
      (found front ctx rec after call split result)

end Reports

/-! ## A result mapped again -/

def codexDecision (time : Nat) : LogRecord :=
  { timeUnixNano := time
    attributes := [kvStr "event.name" "codex.tool_decision", kvStr "conversation.id" "c1",
      kvStr "call_id" "call_1", kvStr "decision" "denied"] }

def codexResult (time : Nat) : LogRecord :=
  { timeUnixNano := time
    attributes := [kvStr "event.name" "codex.tool_result", kvStr "conversation.id" "c1",
      kvStr "call_id" "call_1"] }

def eventsScope : RecordCtx := { scopeName := some "codex_otel.events" }

/-- The decision is in a request before the one that is mapped twice: the second mapping of
the result reports no error. -/
theorem refusal_lost :
    (mapRequests .hashing noPrices .genai {}
        [codexRequest [codexDecision 1000], codexRequest [codexResult 2000],
          codexRequest [codexResult 2000]]).1.spans.map NormalizedSpan.statusCode = [2, 0] ∧
      ¬ RefusalsReported .hashing noPrices .genai
        ([codexRequest [codexDecision 1000], codexRequest [codexResult 2000],
          codexRequest [codexResult 2000]].flatMap (opsOf .hashing)) := by
  refine ⟨by decide, fun reported => ?_⟩
  have again := reported
    [.request, .record eventsScope (codexDecision 1000),
      .request, .record eventsScope (codexResult 2000), .request]
    eventsScope (codexResult 2000) [] "call_1" rfl
    { isResult := by decide
      isCall := by decide
      refused := by decide }
  have code : (mapRecord .hashing noPrices .genai eventsScope (codexResult 2000)
      (Refusals.run .hashing noPrices .genai
        [.request, .record eventsScope (codexDecision 1000),
          .request, .record eventsScope (codexResult 2000), .request]).state
      (Refusals.run .hashing noPrices .genai
        [.request, .record eventsScope (codexDecision 1000),
          .request, .record eventsScope (codexResult 2000), .request]).node).1.spans.map
        NormalizedSpan.statusCode = [0] := by
    decide
  obtain ⟨s, member, unset⟩ := List.mem_map.mp (code ▸ List.mem_singleton_self (0 : ℤ))
  have error := again s member
  omega

end Evald.Logs
