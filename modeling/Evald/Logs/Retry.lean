import Evald.Logs.Turns

/-! # A retried export

A request whose reply was lost is mapped and ingested again.  Mapping it advanced the
memory, so the second time its records are placed from another state; what is placed
elsewhere is exactly the calls in front of the first prompt of their session, when the
request starts a turn in another trace (`placedAlike_again`).
-/

namespace Evald.Logs

open Evald.Lib Evald.Otlp Evald.Normalize

/-! ## Placing a request again -/

/-- From both turns every call is placed in the same trace. -/
def PlacedAlike (turns turns' : Turns) (roles : List Role) : Prop :=
  ∀ before session own after, roles = before ++ .call session own :: after →
    (before.foldl Role.next turns session).getD own =
      (before.foldl Role.next turns' session).getD own

theorem PlacedAlike.head {turns turns' : Turns} {role : Role} {roles : List Role}
    (placed : PlacedAlike turns turns' (role :: roles)) {session : String} {own : List UInt8}
    (isCall : role = .call session own) :
    (turns session).getD own = (turns' session).getD own :=
  placed [] session own roles (by rw [isCall, List.nil_append])

theorem PlacedAlike.tail {turns turns' : Turns} {role : Role} {roles : List Role}
    (placed : PlacedAlike turns turns' (role :: roles)) :
    PlacedAlike (role.next turns) (role.next turns') roles := by
  intro before session own after split
  have whole := placed (role :: before) session own after (by rw [split, List.cons_append])
  simpa only [List.foldl_cons] using whole

/-- What outlives a request. -/
def Turns.named (turns : Turns) : Turns := Function.update turns "" none

/-- Where a call stands in front of every prompt of its session, the turn its session has
when the request arrives is the one the request leaves it in. -/
def CallsSettled (turns : Turns) (roles : List Role) : Prop :=
  ∀ before session own after, roles = before ++ .call session own :: after →
    session ≠ "" → lastPrompt session before = none →
    ∀ trace, lastPrompt session roles = some trace → (turns session).getD own = trace

/-- Mapped again, a request whose early calls are settled is placed where it was. -/
theorem placedAlike_again {turns : Turns} {roles : List Role} (unnamed : turns "" = none)
    (settled : CallsSettled turns roles) :
    PlacedAlike turns (Turns.named (roles.foldl Role.next turns)) roles := by
  intro before session own after split
  rw [foldl_next, foldl_next]
  cases prompted : lastPrompt session before with
  | some trace => rfl
  | none =>
    rw [Option.none_or, Option.none_or]
    unfold Turns.named
    rw [Function.update_apply]
    by_cases empty : session = ""
    · rw [if_pos empty, empty, unnamed]
    · rw [if_neg empty, foldl_next]
      cases last : lastPrompt session roles with
      | none => rw [Option.none_or]
      | some trace =>
        rw [Option.some_or, Option.getD_some]
        exact settled before session own after split empty prompted trace last

/-- The second mapping leaves the turns as the first did. -/
theorem named_foldl_again (turns : Turns) (roles : List Role) :
    Turns.named (roles.foldl Role.next (Turns.named (roles.foldl Role.next turns))) =
      Turns.named (roles.foldl Role.next turns) := by
  funext session
  unfold Turns.named
  rw [Function.update_apply, Function.update_apply]
  by_cases empty : session = ""
  · rw [if_pos empty, if_pos empty]
  · rw [if_neg empty, if_neg empty, foldl_next, Function.update_apply, if_neg empty, foldl_next]
    cases lastPrompt session roles <;> simp

/-! ## The records of a dialect -/

section Names

variable (deps : Deps)

theorem codex_use_of_name {ctx : RecordCtx} {rec : LogRecord} {name : Option String}
    (other : name.any (startsWith · "codex.") = false) :
    Codex.use deps ctx rec name = .constant .notMine ∧ Codex.role deps ctx rec name = .other := by
  have stripped : name.bind (stripPrefix · "codex.") = none := by
    cases name with
    | none => rfl
    | some n =>
      cases found : stripPrefix n "codex." with
      | none => exact found
      | some rest =>
        rw [stripPrefix_eq_some] at found
        simp [found, startsWith_append] at other
  unfold Codex.use Codex.role
  rw [stripped]
  constructor
  · split <;> rfl
  · split <;> rfl

theorem gemini_role_of_name {ctx : RecordCtx} {rec : LogRecord} {name : Option String}
    (other : name.any (startsWith · "gemini_cli.") = false) :
    GeminiCli.role deps ctx rec name = .other := by
  unfold GeminiCli.role
  split
  · rfl
  · cases name with
    | none => rfl
    | some n =>
      have isNot (event : String) (isGemini : startsWith event "gemini_cli." = true) :
          n ≠ event := by
        intro same
        rw [same, Option.any_some, isGemini] at other
        cases other
      simp only [GeminiCli.eventRole, GeminiCli.isCall,
        isNot "gemini_cli.user_prompt" (by decide), isNot "gemini_cli.api_response" (by decide),
        isNot "gemini_cli.api_error" (by decide), isNot "gemini_cli.tool_call" (by decide),
        decide_false, Bool.or_false, Bool.false_eq_true, if_false]

theorem claude_not_mine {ctx : RecordCtx} {rec : LogRecord} {name : String}
    (other : startsWith name "codex." = true ∨ startsWith name "gemini_cli." = true) :
    ClaudeCode.mapLog deps ctx rec (some name) = .notMine := by
  have unprefixed : stripPrefix name "claude_code." = none := by
    cases found : stripPrefix name "claude_code." with
    | none => rfl
    | some rest =>
      rw [stripPrefix_eq_some] at found
      subst found
      have apart : startsWith ("claude_code." ++ rest) "codex." = false ∧
          startsWith ("claude_code." ++ rest) "gemini_cli." = false := by
        unfold startsWith
        rw [String.toList_append]
        exact ⟨rfl, rfl⟩
      simp [apart] at other
  have isNot (event : String) (isCodex : startsWith event "codex." = false)
      (isGemini : startsWith event "gemini_cli." = false) : name ≠ event := by
    intro same
    simp [same, isCodex, isGemini] at other
  unfold ClaudeCode.mapLog
  split
  · rfl
  · simp only [unprefixed, Option.getD_none, ClaudeCode.mapEvent,
      isNot "api_request" (by decide) (by decide), isNot "api_error" (by decide) (by decide),
      isNot "tool_result" (by decide) (by decide), isNot "tool_decision" (by decide) (by decide),
      isNot "user_prompt" (by decide) (by decide),
      isNot "assistant_response" (by decide) (by decide),
      isNot "api_refusal" (by decide) (by decide), if_false, decide_false, Bool.or_false,
      Bool.false_eq_true]

theorem codex_of_claude {ctx : RecordCtx} {rec : LogRecord} {name : Option String}
    (taken : ClaudeCode.mapLog deps ctx rec name ≠ .notMine) :
    name.any (startsWith · "codex.") = false ∧ name.any (startsWith · "gemini_cli.") = false := by
  cases name with
  | none => exact ⟨rfl, rfl⟩
  | some name =>
    rw [Option.any_some, Option.any_some]
    constructor
    · by_contra isCodex
      exact taken (claude_not_mine deps (.inl (by simpa using isCodex)))
    · by_contra isGemini
      exact taken (claude_not_mine deps (.inr (by simpa using isGemini)))

/-- No name is both dialects'. -/
theorem gemini_of_codex {name : Option String} (isCodex : name.any (startsWith · "codex.") = true) :
    name.any (startsWith · "gemini_cli.") = false := by
  cases name with
  | none => cases isCodex
  | some name =>
    rw [Option.any_some] at isCodex ⊢
    unfold startsWith at isCodex ⊢
    obtain ⟨rest, split⟩ := List.isPrefixOf_iff_prefix.mp isCodex
    rw [← split]
    rfl

end Names

/-! ## One record -/

/-- The turns Codex conversations are in, while a request is mapped. -/
def codexTurns (state : RequestState) (node : Remembered) : Turns :=
  turnsIn Codex.turnTrace (node.codex.get state.codex)

def geminiTurns (state : RequestState) (node : Remembered) : Turns :=
  turnsIn GeminiCli.turnTrace (node.gemini.get state.gemini)

section Record

variable (deps : Deps) (prices : Pricing.PriceTable) (policy : LogsPolicy)

/-- What a record has to do with Codex's turns. -/
def codexRole (record : RecordCtx × LogRecord) : Role :=
  if policy = .off then .other
  else Codex.role deps record.1 record.2 (eventName deps record.2)

def geminiRole (record : RecordCtx × LogRecord) : Role :=
  if policy = .off then .other
  else GeminiCli.role deps record.1 record.2 (eventName deps record.2)

theorem mapDialect_turns {ctx : RecordCtx} {rec : LogRecord} {name : Option String}
    {state : RequestState} {node : Remembered} (coherent : state.Coherent node)
    (fits : (mapDialect deps ctx rec name node state).2.2.Fits) :
    codexTurns (mapDialect deps ctx rec name node state).2.1
        (mapDialect deps ctx rec name node state).2.2 =
      (Codex.role deps ctx rec name).next (codexTurns state node) ∧
    geminiTurns (mapDialect deps ctx rec name node state).2.1
        (mapDialect deps ctx rec name node state).2.2 =
      (GeminiCli.role deps ctx rec name).next (geminiTurns state node) := by
  unfold mapDialect at fits ⊢
  rw [Codex.mapLog_eq_run, GeminiCli.mapLog_eq_run] at fits ⊢
  have codexNext (fits : ((Codex.use deps ctx rec name).run node.codex state.codex).2.2.order.length
      < recallCapacity) :
      turnsIn Codex.turnTrace (((Codex.use deps ctx rec name).run node.codex state.codex).2.2.get
          ((Codex.use deps ctx rec name).run node.codex state.codex).2.1) =
        (Codex.role deps ctx rec name).next (codexTurns state node) := by
    rw [(Use.run_eq coherent.codex fits).2.1]
    exact (codex_tracks deps noPrices ctx rec name).next rfl _
  have geminiNext
      (fits : ((GeminiCli.use deps ctx rec name).run node.gemini state.gemini).2.2.order.length
        < recallCapacity) :
      turnsIn GeminiCli.turnTrace
          (((GeminiCli.use deps ctx rec name).run node.gemini state.gemini).2.2.get
            ((GeminiCli.use deps ctx rec name).run node.gemini state.gemini).2.1) =
        (GeminiCli.role deps ctx rec name).next (geminiTurns state node) := by
    rw [(Use.run_eq coherent.gemini fits).2.1]
    exact (gemini_tracks deps noPrices ctx rec name).next rfl _
  cases claude : ClaudeCode.mapLog deps ctx rec name with
  | span s =>
    have taken : ClaudeCode.mapLog deps ctx rec name ≠ .notMine := by simp [claude]
    obtain ⟨notCodex, notGemini⟩ := codex_of_claude deps taken
    rw [(codex_use_of_name deps notCodex).2, gemini_role_of_name deps notGemini]
    exact ⟨rfl, rfl⟩
  | folded =>
    have taken : ClaudeCode.mapLog deps ctx rec name ≠ .notMine := by simp [claude]
    obtain ⟨notCodex, notGemini⟩ := codex_of_claude deps taken
    rw [(codex_use_of_name deps notCodex).2, gemini_role_of_name deps notGemini]
    exact ⟨rfl, rfl⟩
  | notMine =>
    simp only [claude] at fits
    -- a record that Codex takes is none of Gemini CLI's
    have taken (answers : ((Codex.use deps ctx rec name).run node.codex state.codex).1 ≠ .notMine) :
        GeminiCli.role deps ctx rec name = .other := by
      apply gemini_role_of_name
      apply gemini_of_codex
      by_contra notCodex
      rw [(codex_use_of_name deps (by simpa using notCodex)).1] at answers
      exact answers rfl
    generalize (Codex.use deps ctx rec name).run node.codex state.codex = codex at *
    generalize (GeminiCli.use deps ctx rec name).run node.gemini state.gemini = gemini at *
    obtain ⟨answer, loc, recent⟩ := codex
    cases answer with
    | span s =>
      rw [taken (by simp)]
      exact ⟨codexNext fits.codex, rfl⟩
    | folded =>
      rw [taken (by simp)]
      exact ⟨codexNext fits.codex, rfl⟩
    | notMine => exact ⟨codexNext fits.codex, geminiNext fits.gemini⟩

/-- Two memories that place a record's call in the same trace. -/
structure PlacesAlike (codex gemini : Role) (state : RequestState) (node : Remembered)
    (state' : RequestState) (node' : Remembered) : Prop where
  codex : ∀ session own, codex = .call session own →
    (codexTurns state node session).getD own = (codexTurns state' node' session).getD own
  gemini : ∀ session own, gemini = .call session own →
    (geminiTurns state node session).getD own = (geminiTurns state' node' session).getD own

theorem mapDialect_alike {ctx : RecordCtx} {rec : LogRecord} {name : Option String}
    {state state' : RequestState} {node node' : Remembered}
    (placed : PlacesAlike (Codex.role deps ctx rec name) (GeminiCli.role deps ctx rec name)
      state node state' node') :
    Alike deps prices (mapDialect deps ctx rec name node state).1
      (mapDialect deps ctx rec name node' state').1 := by
  have codexAlike := (codex_tracks deps prices ctx rec name).alike placed.codex
  have geminiAlike := (gemini_tracks deps prices ctx rec name).alike placed.gemini
  unfold mapDialect
  rw [Codex.mapLog_eq_run, Codex.mapLog_eq_run, GeminiCli.mapLog_eq_run,
    GeminiCli.mapLog_eq_run]
  simp only [Use.run]
  cases ClaudeCode.mapLog deps ctx rec name with
  | span s => exact .refl _
  | folded => exact .refl _
  | notMine =>
    generalize (Codex.use deps ctx rec name).answer
      (node.codex.get state.codex (Codex.use deps ctx rec name).session) = answer at codexAlike
    generalize (Codex.use deps ctx rec name).answer
      (node'.codex.get state'.codex (Codex.use deps ctx rec name).session) = answer' at codexAlike
    cases codexAlike with
    | span same => exact .span same
    | folded => exact .folded
    | notMine => exact geminiAlike

theorem mapRecord_turns {record : RecordCtx × LogRecord} {state : RequestState}
    {node : Remembered} (coherent : state.Coherent node)
    (fits : (mapRecord deps prices policy record.1 record.2 state node).2.2.Fits) :
    let mapped := mapRecord deps prices policy record.1 record.2 state node
    codexTurns mapped.2.1 mapped.2.2 =
        (codexRole deps policy record).next (codexTurns state node) ∧
      geminiTurns mapped.2.1 mapped.2.2 =
        (geminiRole deps policy record).next (geminiTurns state node) := by
  unfold mapRecord codexRole geminiRole at *
  by_cases off : policy = .off
  · simp only [if_pos off]
    exact ⟨rfl, rfl⟩
  simp only [if_neg off] at fits ⊢
  by_cases evaluation : eventName deps record.2 = some EvalEvent.eventName
  · simp only [if_pos evaluation]
    rw [evaluation, (codex_use_of_name deps (by decide)).2, gemini_role_of_name deps (by decide)]
    exact ⟨rfl, rfl⟩
  · simp only [if_neg evaluation] at fits ⊢
    exact mapDialect_turns deps coherent fits

theorem mapRecord_alike {record : RecordCtx × LogRecord} {state state' : RequestState}
    {node node' : Remembered}
    (placed : PlacesAlike (codexRole deps policy record) (geminiRole deps policy record)
      state node state' node') :
    (mapRecord deps prices policy record.1 record.2 state node).1.spans.map factsOf =
      (mapRecord deps prices policy record.1 record.2 state' node').1.spans.map factsOf := by
  unfold mapRecord codexRole geminiRole at *
  by_cases off : policy = .off
  · simp only [if_pos off]
  simp only [if_neg off] at placed ⊢
  by_cases evaluation : eventName deps record.2 = some EvalEvent.eventName
  · simp only [if_pos evaluation]
  · simp only [if_neg evaluation]
    have alike := mapDialect_alike deps prices placed
    generalize (mapDialect deps record.1 record.2 (eventName deps record.2) node state).1 = m
      at alike ⊢
    generalize (mapDialect deps record.1 record.2 (eventName deps record.2) node' state').1 = m'
      at alike ⊢
    cases alike with
    | span same => simp only [settle, Mapped.spans, List.map_cons, List.map_nil, same]
    | folded => rfl
    | notMine => rfl

/-! ## One request -/

/-- What mapping records does to the turns. -/
theorem foldl_mapNext_turns {records : List (RecordCtx × LogRecord)} {batch : LogsBatch}
    {state : RequestState} {node : Remembered} (coherent : state.Coherent node)
    (fits : (records.foldl (mapNext deps prices policy) (batch, state, node)).2.2.Fits) :
    let mapped := (records.foldl (mapNext deps prices policy) (batch, state, node)).2
    mapped.1.Coherent mapped.2 ∧
      codexTurns mapped.1 mapped.2 =
        (records.map (codexRole deps policy)).foldl Role.next (codexTurns state node) ∧
      geminiTurns mapped.1 mapped.2 =
        (records.map (geminiRole deps policy)).foldl Role.next (geminiTurns state node) := by
  induction records generalizing batch state node with
  | nil => exact ⟨coherent, rfl, rfl⟩
  | cons record records inductionHypothesis =>
    rw [List.foldl_cons] at fits
    have next := fits_of_foldl_mapNext deps prices policy fits
    obtain ⟨codex, gemini⟩ := mapRecord_turns deps prices policy coherent next
    simp only [List.foldl_cons, List.map_cons, ← codex, ← gemini]
    exact inductionHypothesis (mapRecord_coherent deps prices policy coherent next) fits

/-- Records placed alike are counted alike. -/
theorem foldl_mapNext_alike {records : List (RecordCtx × LogRecord)} {batch batch' : LogsBatch}
    {state state' : RequestState} {node node' : Remembered}
    (before : batch.spans.map factsOf = batch'.spans.map factsOf)
    (coherent : state.Coherent node) (coherent' : state'.Coherent node')
    (fits : (records.foldl (mapNext deps prices policy) (batch, state, node)).2.2.Fits)
    (fits' : (records.foldl (mapNext deps prices policy) (batch', state', node')).2.2.Fits)
    (codex : PlacedAlike (codexTurns state node) (codexTurns state' node')
      (records.map (codexRole deps policy)))
    (gemini : PlacedAlike (geminiTurns state node) (geminiTurns state' node')
      (records.map (geminiRole deps policy))) :
    (records.foldl (mapNext deps prices policy) (batch, state, node)).1.spans.map factsOf =
      (records.foldl (mapNext deps prices policy) (batch', state', node')).1.spans.map factsOf := by
  -- record by record from two memories that place every call alike
  induction records generalizing batch batch' state state' node node' with
  | nil => exact before
  | cons record records inductionHypothesis =>
    rw [List.foldl_cons] at fits fits' ⊢
    rw [List.foldl_cons]
    rw [List.map_cons] at codex gemini
    have next := fits_of_foldl_mapNext deps prices policy fits
    have next' := fits_of_foldl_mapNext deps prices policy fits'
    have turns := mapRecord_turns deps prices policy coherent next
    have turns' := mapRecord_turns deps prices policy coherent' next'
    have placed : PlacesAlike (codexRole deps policy record) (geminiRole deps policy record)
        state node state' node' :=
      { codex := fun session own isCall => codex.head isCall
        gemini := fun session own isCall => gemini.head isCall }
    have spans := mapRecord_alike deps prices policy placed
    have after : (batch.note (mapRecord deps prices policy record.1 record.2 state node).1).spans.map
          factsOf =
        (batch'.note (mapRecord deps prices policy record.1 record.2 state' node').1).spans.map
          factsOf := by
      simp only [LogsBatch.note, List.map_append, before, spans]
    apply inductionHypothesis after (mapRecord_coherent deps prices policy coherent next)
      (mapRecord_coherent deps prices policy coherent' next') fits fits'
    · rw [turns.1, turns'.1]
      exact codex.tail
    · rw [turns.2, turns'.2]
      exact gemini.tail

/-- The turns a request finds. -/
def Remembered.codexTurns (node : Remembered) : Turns := Logs.codexTurns {} node

def Remembered.geminiTurns (node : Remembered) : Turns := Logs.geminiTurns {} node

/-- The roles of a request's records. -/
def codexRoles (req : ExportLogsServiceRequest) : List Role :=
  (recordsOf deps req).map (codexRole deps policy)

def geminiRoles (req : ExportLogsServiceRequest) : List Role :=
  (recordsOf deps req).map (geminiRole deps policy)

theorem turnsIn_named {T : Type} (trace : T → Option (List UInt8)) (memory : Memory T) :
    turnsIn trace memory.named = Turns.named (turnsIn trace memory) := by
  funext session
  unfold turnsIn Turns.named Memory.named
  rw [Function.update_apply, Function.update_apply]
  by_cases empty : session = ""
  · rw [if_pos empty, if_pos empty]
    rfl
  · rw [if_neg empty, if_neg empty]

/-- No turn outlives its request without a session to remember it by. -/
theorem codexTurns_unnamed (node : Remembered) : node.codexTurns "" = none := by
  simp [Remembered.codexTurns, codexTurns, turnsIn, Recall.get]

theorem geminiTurns_unnamed (node : Remembered) : node.geminiTurns "" = none := by
  simp [Remembered.geminiTurns, geminiTurns, turnsIn, Recall.get]

/-- The turns a request leaves. -/
theorem normalizeLogs_turns {node : Remembered} {req : ExportLogsServiceRequest}
    (fits : (normalizeLogs deps prices policy node req).2.Fits) :
    (normalizeLogs deps prices policy node req).2.codexTurns =
        Turns.named ((codexRoles deps policy req).foldl Role.next node.codexTurns) ∧
      (normalizeLogs deps prices policy node req).2.geminiTurns =
        Turns.named ((geminiRoles deps policy req).foldl Role.next node.geminiTurns) := by
  obtain ⟨coherent, codex, gemini⟩ :=
    foldl_mapNext_turns deps prices policy (coherent_start node) fits
  constructor
  · rw [codexRoles, Remembered.codexTurns, Remembered.codexTurns, ← codex, codexTurns, codexTurns,
      ← turnsIn_named, ← Recall.get_empty coherent.codex]
    rfl
  · rw [geminiRoles, Remembered.geminiTurns, Remembered.geminiTurns, ← gemini, geminiTurns,
      geminiTurns, ← turnsIn_named, ← Recall.get_empty coherent.gemini]
    rfl

/-- A request is counted by the turns it finds. -/
theorem normalizeLogs_alike {node node' : Remembered} {req : ExportLogsServiceRequest}
    (fits : (normalizeLogs deps prices policy node req).2.Fits)
    (fits' : (normalizeLogs deps prices policy node' req).2.Fits)
    (codex : PlacedAlike node.codexTurns node'.codexTurns (codexRoles deps policy req))
    (gemini : PlacedAlike node.geminiTurns node'.geminiTurns (geminiRoles deps policy req)) :
    (normalizeLogs deps prices policy node req).1.spans.map factsOf =
      (normalizeLogs deps prices policy node' req).1.spans.map factsOf :=
  foldl_mapNext_alike deps prices policy rfl (coherent_start node) (coherent_start node')
    fits fits' codex gemini

/-- Where a retry of a request is placed as the request was. -/
structure RetrySettled (node : Remembered) (req : ExportLogsServiceRequest) : Prop where
  codex : CallsSettled node.codexTurns (codexRoles deps policy req)
  gemini : CallsSettled node.geminiTurns (geminiRoles deps policy req)

/-- The second mapping of a request whose early calls are settled. -/
theorem normalizeLogs_again {node : Remembered} {req : ExportLogsServiceRequest}
    (settled : RetrySettled deps policy node req)
    (fits : (normalizeLogs deps prices policy node req).2.Fits)
    (fits' : (normalizeLogs deps prices policy
      (normalizeLogs deps prices policy node req).2 req).2.Fits) :
    (normalizeLogs deps prices policy node req).1.spans.map factsOf =
      (normalizeLogs deps prices policy
        (normalizeLogs deps prices policy node req).2 req).1.spans.map factsOf := by
  obtain ⟨codex, gemini⟩ := normalizeLogs_turns deps prices policy fits
  apply normalizeLogs_alike deps prices policy fits fits'
  · rw [codex]
    exact placedAlike_again (codexTurns_unnamed node) settled.codex
  · rw [gemini]
    exact placedAlike_again (geminiTurns_unnamed node) settled.gemini

end Record

end Evald.Logs
