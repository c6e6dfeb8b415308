import Evald.Logs.Facts
import Evald.Logs.Splitting

/-! # The turn a span lands in

Of all that is remembered only the trace of the turn in progress decides what a span is
counted as.  A record starts a turn, is placed by one, or does neither (`Role`); a use
that follows its role changes the remembered traces as the role says and is counted the
same wherever it is placed in the same trace (`Use.Tracks`).
-/

namespace Evald.Logs

open Evald.Lib Evald.Otlp Evald.Normalize

/-- The trace of the turn in progress, by session. -/
abbrev Turns := String → Option (List UInt8)

/-- What a record has to do with turns. -/
inductive Role where
  /-- Starts a turn of a session, in this trace. -/
  | prompt (session : String) (trace : List UInt8)
  /-- Is placed in the turn of a session, or without one in a trace of its own. -/
  | call (session : String) (own : List UInt8)
  | other
  deriving DecidableEq

def Role.next (turns : Turns) : Role → Turns
  | .prompt session trace => Function.update turns session (some trace)
  | _ => turns

/-- The turn a record starts in a session. -/
def Role.startedIn (session : String) : Role → Option (List UInt8)
  | .prompt s trace => if s = session then some trace else none
  | _ => none

theorem Role.next_apply (role : Role) (turns : Turns) (session : String) :
    role.next turns session = (role.startedIn session).or (turns session) := by
  cases role with
  | prompt s trace =>
    by_cases here : session = s
    · simp [Role.next, Role.startedIn, here]
    · simp [Role.next, Role.startedIn, here, Ne.symm here]
  | call s own => rfl
  | other => rfl

/-- The last turn a list of records starts in a session. -/
def lastPrompt (session : String) : List Role → Option (List UInt8)
  | [] => none
  | role :: rest => (lastPrompt session rest).or (role.startedIn session)

theorem foldl_next (roles : List Role) (turns : Turns) (session : String) :
    roles.foldl Role.next turns session = (lastPrompt session roles).or (turns session) := by
  induction roles generalizing turns with
  | nil => rfl
  | cons role roles inductionHypothesis =>
    rw [List.foldl_cons, inductionHypothesis, lastPrompt, Option.or_assoc, Role.next_apply]

/-! ## Mappings that are counted the same -/

/-- Two answers that settle to spans with the same facts. -/
inductive Alike (deps : Deps) (prices : Pricing.PriceTable) : Mapping → Mapping → Prop where
  | span {s s' : NormalizedSpan} :
      factsOf (Pricing.apply deps.float prices s) = factsOf (Pricing.apply deps.float prices s') →
      Alike deps prices (.span s) (.span s')
  | folded : Alike deps prices .folded .folded
  | notMine : Alike deps prices .notMine .notMine

theorem Alike.refl {deps : Deps} {prices : Pricing.PriceTable} (m : Mapping) :
    Alike deps prices m m := by
  cases m with
  | span s => exact .span rfl
  | folded => exact .folded
  | notMine => exact .notMine

/-! ## Uses that follow their role -/

section Tracks

variable {T : Type} [Inhabited T] (deps : Deps) (prices : Pricing.PriceTable)

/-- The trace a call is placed in, of what is remembered of its session. -/
def traceOr (trace : T → Option (List UInt8)) (own : List UInt8) (seen : Option T) : List UInt8 :=
  (seen.bind trace).getD own

/-- A change that leaves the turn alone. -/
def Use.KeepsTurn (use : Use T Mapping) (trace : T → Option (List UInt8)) : Prop :=
  ∀ seen f, use.change seen = some f → ∀ t, trace (f t) = trace t

def Use.Tracks (use : Use T Mapping) (trace : T → Option (List UInt8)) : Role → Prop
  | .prompt session turn =>
    use.session = session ∧ (∀ seen seen', Alike deps prices (use.answer seen) (use.answer seen')) ∧
      ∀ seen, ∃ f, use.change seen = some f ∧ ∀ t, trace (f t) = some turn
  | .call session own =>
    use.session = session ∧
      (∀ seen seen', traceOr trace own seen = traceOr trace own seen' →
        Alike deps prices (use.answer seen) (use.answer seen')) ∧
      use.KeepsTurn trace
  | .other =>
    (∀ seen seen', Alike deps prices (use.answer seen) (use.answer seen')) ∧ use.KeepsTurn trace

/-- The turns a memory holds. -/
def turnsIn (trace : T → Option (List UInt8)) (memory : Memory T) : Turns :=
  fun session => (memory session).bind trace

variable {deps prices}

omit [Inhabited T] in
/-- Answers from memories that place a call in the same trace. -/
theorem Use.Tracks.alike {use : Use T Mapping} {trace : T → Option (List UInt8)} {role : Role}
    (tracks : use.Tracks deps prices trace role) {memory memory' : Memory T}
    (placed : ∀ session own, role = .call session own →
      (turnsIn trace memory session).getD own = (turnsIn trace memory' session).getD own) :
    Alike deps prices (use.answer (memory use.session)) (use.answer (memory' use.session)) := by
  cases role with
  | prompt session turn => exact tracks.2.1 _ _
  | call session own =>
    obtain ⟨rfl, same, -⟩ := tracks
    exact same _ _ (placed _ own rfl)
  | other => exact tracks.1 _ _

/-- What a use does to the turns. -/
theorem Use.Tracks.next {use : Use T Mapping} {trace : T → Option (List UInt8)} {role : Role}
    (blank : trace default = none) (tracks : use.Tracks deps prices trace role)
    (memory : Memory T) :
    turnsIn trace (use.step memory).2 = role.next (turnsIn trace memory) := by
  have kept (keeps : use.KeepsTurn trace) :
      turnsIn trace (use.step memory).2 = turnsIn trace memory := by
    unfold Use.step turnsIn
    simp only
    cases changed : use.change (memory use.session) with
    | none => rfl
    | some f =>
      funext session
      simp only [Function.update_apply]
      by_cases here : session = use.session
      · rw [if_pos here, here, Option.bind_some, keeps _ f changed]
        cases memory use.session with
        | none => exact blank
        | some t => rfl
      · rw [if_neg here]
  cases role with
  | prompt session turn =>
    obtain ⟨rfl, -, starts⟩ := tracks
    obtain ⟨f, changed, started⟩ := starts (memory use.session)
    funext session
    simp only [Use.step, turnsIn, changed, Role.next, Function.update_apply]
    split
    · rw [Option.bind_some, started]
    · rfl
  | call session own => exact kept tracks.2.2
  | other => exact kept tracks.2

end Tracks

/-! ## Codex -/

section Codex

variable (deps : Deps) (prices : Pricing.PriceTable)

def Codex.turnTrace (c : Codex.Conversation) : Option (List UInt8) := c.turn.map Prod.fst

/-- Does an event report a model call or a tool call? -/
def Codex.isCall (rec : LogRecord) (event : String) : Bool :=
  let a := rec.attributes
  if event = "api_request" && Codex.otherEndpoint deps a then false
  else if event = "api_request" || event = "websocket_request" then
    (Codex.requestError deps event a).isSome
  else if event = "sse_event" then (Codex.sseCall deps a).isSome
  else event = "tool_result"

def Codex.eventRole (rec : LogRecord) (event : String) : Role :=
  let conv := Codex.conversationId deps rec
  if event = "user_prompt" then .prompt conv (Codex.promptTurn deps rec conv).1
  else if Codex.isCall deps rec event then .call conv (Codex.ownTrace deps conv)
  else .other

def Codex.role (ctx : RecordCtx) (rec : LogRecord) (name : Option String) : Role :=
  if !Codex.isMine ctx then .other
  else
    match name.bind (stripPrefix · "codex.") with
    | none => .other
    | some event => Codex.eventRole deps rec event

theorem Codex.placement_fst (seen : Option Codex.Conversation) (conv : String) :
    (Codex.placement deps seen conv).1 =
      traceOr Codex.turnTrace (Codex.ownTrace deps conv) seen := by
  unfold Codex.placement traceOr
  cases seen with
  | none => rfl
  | some c =>
    rw [Option.bind_some, Option.bind_some, Codex.turnTrace]
    cases c.turn <;> rfl

theorem tracks_constant {T : Type} {trace : T → Option (List UInt8)} (m : Mapping) :
    (Use.constant m : Use T Mapping).Tracks deps prices trace .other :=
  ⟨fun _ _ => .refl _, fun _ _ changed => by cases changed⟩

/-- An event changes the turn only when it is a prompt. -/
theorem codex_event_tracks (ctx : RecordCtx) (rec : LogRecord) (event : String) :
    Use.Tracks deps prices
      { session := Codex.conversationId deps rec
        answer := fun seen => (Codex.eventUse deps ctx rec event seen).1
        change := fun seen => (Codex.eventUse deps ctx rec event seen).2 }
      Codex.turnTrace (Codex.eventRole deps rec event) := by
  -- event by event: only a prompt starts a turn, only a call or a tool asks for it
  unfold Codex.eventUse Codex.eventRole Codex.isCall
  by_cases starts : event = "conversation_starts"
  · subst starts
    simp only [if_true, show ("conversation_starts" = "user_prompt") = False by decide,
      show ("conversation_starts" = "api_request") = False by decide,
      show ("conversation_starts" = "websocket_request") = False by decide,
      show ("conversation_starts" = "sse_event") = False by decide,
      show ("conversation_starts" = "tool_result") = False by decide,
      if_false, decide_false, Bool.false_and, Bool.false_or, Bool.false_eq_true]
    refine ⟨fun _ _ => .refl _, fun seen f changed c => ?_⟩
    obtain ⟨p, -, rfl⟩ := Option.map_eq_some_iff.mp changed
    rfl
  by_cases prompt : event = "user_prompt"
  · simp only [if_neg starts, if_pos prompt]
    exact ⟨rfl, fun _ _ => .refl _, fun _ => ⟨_, rfl, fun _ => rfl⟩⟩
  simp only [if_neg starts, if_neg prompt]
  by_cases other : (event = "api_request" && Codex.otherEndpoint deps rec.attributes) = true
  · simp only [if_pos other, Bool.false_eq_true, if_false]
    exact ⟨fun _ _ => .refl _, fun _ _ changed => by cases changed⟩
  simp only [if_neg other]
  by_cases request : (event = "api_request" || event = "websocket_request") = true
  · simp only [if_pos request]
    cases Codex.requestError deps event rec.attributes with
    | some msg =>
      simp only [Option.isSome_some, if_true]
      refine ⟨rfl, fun seen seen' same => .span ?_, fun _ _ changed => by cases changed⟩
      apply codex_llm_facts
      rw [Codex.placement_fst, Codex.placement_fst, same]
    | none =>
      simp only [Option.isSome_none, Bool.false_eq_true, if_false]
      refine ⟨fun _ _ => .refl _, fun _ f changed c => ?_⟩
      cases changed
      rfl
  simp only [if_neg request]
  by_cases sse : event = "sse_event"
  · simp only [if_pos sse]
    cases Codex.sseCall deps rec.attributes with
    | some error =>
      simp only [Option.isSome_some, if_true]
      refine ⟨rfl, fun seen seen' same => .span ?_, fun _ _ changed => by cases changed⟩
      apply codex_llm_facts
      rw [Codex.placement_fst, Codex.placement_fst, same]
    | none =>
      simp only [Option.isSome_none, Bool.false_eq_true, if_false]
      exact ⟨fun _ _ => .refl _, fun _ _ changed => by cases changed⟩
  simp only [if_neg sse]
  by_cases decision : event = "tool_decision"
  · subst decision
    simp only [if_true, show ("tool_decision" = "tool_result") = False by decide, decide_false,
      Bool.false_eq_true, if_false]
    refine ⟨fun _ _ => .refl _, fun seen f changed c => ?_⟩
    obtain ⟨r, -, rfl⟩ := Option.map_eq_some_iff.mp changed
    rfl
  simp only [if_neg decision]
  by_cases result : event = "tool_result"
  · simp only [result, decide_true, if_true]
    refine ⟨rfl, fun seen seen' same => .span ?_, fun seen f changed c => ?_⟩
    · apply codex_tool_facts
      rw [Codex.placement_fst, Codex.placement_fst, same]
    · obtain ⟨id, -, changed⟩ := Option.bind_eq_some_iff.mp changed
      obtain ⟨why, -, rfl⟩ := Option.map_eq_some_iff.mp changed
      rfl
  · simp only [decide_false, Bool.false_eq_true, if_false, result]
    exact ⟨fun _ _ => .refl _, fun _ _ changed => by cases changed⟩

theorem codex_tracks (ctx : RecordCtx) (rec : LogRecord) (name : Option String) :
    (Codex.use deps ctx rec name).Tracks deps prices Codex.turnTrace
      (Codex.role deps ctx rec name) := by
  unfold Codex.use Codex.role
  by_cases mine : (!Codex.isMine ctx) = true
  · rw [if_pos mine, if_pos mine]
    exact tracks_constant deps prices _
  rw [if_neg mine, if_neg mine]
  cases name.bind (stripPrefix · "codex.") with
  | none => exact tracks_constant deps prices _
  | some event => exact codex_event_tracks deps prices ctx rec event

end Codex

/-! ## Gemini CLI -/

section GeminiCli

variable (deps : Deps) (prices : Pricing.PriceTable)

def GeminiCli.turnTrace (s : GeminiCli.Session) : Option (List UInt8) :=
  s.turn.map GeminiCli.Turn.traceId

/-- Does an event report a model call or a tool call? -/
def GeminiCli.isCall (name : String) : Bool :=
  name = "gemini_cli.api_response" || name = "gemini_cli.api_error" || name = "gemini_cli.tool_call"

def GeminiCli.eventRole (rec : LogRecord) (name : String) : Role :=
  let session := GeminiCli.sessionId deps rec
  if name = "gemini_cli.user_prompt" then
    .prompt session (GeminiCli.promptTurn deps rec session).traceId
  else if GeminiCli.isCall name then .call session (GeminiCli.ownTrace deps rec session)
  else .other

def GeminiCli.role (ctx : RecordCtx) (rec : LogRecord) (name : Option String) : Role :=
  if !GeminiCli.isMine ctx then .other
  else
    match name with
    | none => .other
    | some name => GeminiCli.eventRole deps rec name

theorem GeminiCli.placement_fst (rec : LogRecord) (seen : Option GeminiCli.Session)
    (session : String) :
    (GeminiCli.placement deps rec session seen).1 =
      traceOr GeminiCli.turnTrace (GeminiCli.ownTrace deps rec session) seen := by
  unfold GeminiCli.placement traceOr
  cases seen with
  | none => rfl
  | some s =>
    rw [Option.bind_some, Option.bind_some, GeminiCli.turnTrace]
    cases s.turn <;> rfl

/-- Only a prompt changes the turn. -/
theorem gemini_event_tracks (ctx : RecordCtx) (rec : LogRecord) (name : String) :
    Use.Tracks deps prices
      { session := GeminiCli.sessionId deps rec
        answer := fun seen => (GeminiCli.eventUse deps ctx rec name seen).1
        change := fun seen => (GeminiCli.eventUse deps ctx rec name seen).2 }
      GeminiCli.turnTrace (GeminiCli.eventRole deps rec name) := by
  -- event by event: only a prompt starts a turn, a response, an error and a tool ask for it
  unfold GeminiCli.eventUse GeminiCli.eventRole GeminiCli.isCall
  by_cases prompt : name = "gemini_cli.user_prompt"
  · simp only [if_pos prompt]
    exact ⟨rfl, fun _ _ => .refl _, fun _ => ⟨_, rfl, fun _ => rfl⟩⟩
  simp only [if_neg prompt]
  by_cases response : name = "gemini_cli.api_response"
  · simp only [response, decide_true, Bool.true_or, if_true]
    refine ⟨rfl, fun seen seen' same => .span ?_, fun _ _ changed => by cases changed⟩
    apply gemini_llm_facts
    rw [GeminiCli.placement_fst, GeminiCli.placement_fst, same]
  by_cases error : name = "gemini_cli.api_error"
  · simp only [error, decide_true, Bool.true_or, Bool.or_true, if_true]
    refine ⟨rfl, fun seen seen' same => .span ?_, fun _ _ changed => by cases changed⟩
    apply gemini_llm_facts
    rw [GeminiCli.placement_fst, GeminiCli.placement_fst, same]
  by_cases call : name = "gemini_cli.tool_call"
  · simp only [call, decide_true, Bool.or_true, if_true]
    refine ⟨rfl, fun seen seen' same => .span ?_, fun _ _ changed => by cases changed⟩
    apply gemini_tool_facts
    rw [GeminiCli.placement_fst, GeminiCli.placement_fst, same]
  simp only [response, error, call, if_false, decide_false, Bool.or_false, Bool.false_eq_true]
  by_cases request : name = "gemini_cli.api_request"
  · simp only [if_pos request]
    refine ⟨fun _ _ => .refl _, fun _ f changed s => ?_⟩
    obtain ⟨own, -, rfl⟩ := Option.map_eq_some_iff.mp changed
    rfl
  simp only [if_neg request]
  by_cases details : name = "gen_ai.client.inference.operation.details"
  · simp only [if_pos details]
    exact ⟨fun _ _ => .refl _, fun _ _ changed => by cases changed⟩
  · simp only [if_neg details]
    exact ⟨fun _ _ => .refl _, fun _ _ changed => by cases changed⟩

theorem gemini_tracks (ctx : RecordCtx) (rec : LogRecord) (name : Option String) :
    (GeminiCli.use deps ctx rec name).Tracks deps prices GeminiCli.turnTrace
      (GeminiCli.role deps ctx rec name) := by
  unfold GeminiCli.use GeminiCli.role
  by_cases mine : (!GeminiCli.isMine ctx) = true
  · rw [if_pos mine, if_pos mine]
    exact tracks_constant deps prices _
  rw [if_neg mine, if_neg mine]
  cases name with
  | none => exact tracks_constant deps prices _
  | some name => exact gemini_event_tracks deps prices ctx rec name

end GeminiCli

end Evald.Logs
