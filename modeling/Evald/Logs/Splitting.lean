import Evald.Lib.Run
import Evald.Logs.Door

/-! # How a session is cut into requests

Within a request a dialect reads the request's own layer, across requests only the
node's.  As long as every record names its session and no session is forgotten, the
request's layer says what the node's says, so mapping the records in one request is
mapping each in a request of its own (`foldl_mapNext`), and any two ways of cutting
one sequence of records agree (`mapRequests_eq`).
-/

namespace Evald.Logs

open Evald.Lib Evald.Otlp Evald.Normalize

variable (deps : Deps)

/-- A record that a dialect remembers something of carries its conversation or session id. -/
structure NamesSession (record : RecordCtx × LogRecord) : Prop where
  codex : Codex.isMine record.1 = true →
    (eventName deps record.2).any (startsWith · "codex.") = true →
    Codex.conversationId deps record.2 ≠ ""
  gemini : GeminiCli.isMine record.1 = true →
    (eventName deps record.2).any (startsWith · "gemini_cli.") = true →
    GeminiCli.sessionId deps record.2 ≠ ""

/-- Fewer sessions are remembered than fit, in each dialect. -/
structure Remembered.Fits (node : Remembered) : Prop where
  codex : node.codex.order.length < recallCapacity
  gemini : node.gemini.order.length < recallCapacity

/-- Both dialects' layers agree. -/
structure RequestState.Coherent (state : RequestState) (node : Remembered) : Prop where
  codex : Logs.Coherent state.codex node.codex
  gemini : Logs.Coherent state.gemini node.gemini

/-- `node'` remembers at least as many sessions. -/
structure Remembered.Grows (node node' : Remembered) : Prop where
  codex : node.codex.order.length ≤ node'.codex.order.length
  gemini : node.gemini.order.length ≤ node'.gemini.order.length

theorem Remembered.Fits.of_grows {node node' : Remembered} (fits : node'.Fits)
    (grows : node.Grows node') : node.Fits :=
  { codex := Nat.lt_of_le_of_lt grows.codex fits.codex
    gemini := Nat.lt_of_le_of_lt grows.gemini fits.gemini }

theorem coherent_start (node : Remembered) : RequestState.Coherent {} node :=
  { codex := coherent_empty node.codex, gemini := coherent_empty node.gemini }

/-! ## One record -/

theorem codex_use_named {ctx : RecordCtx} {rec : LogRecord}
    (names : NamesSession deps (ctx, rec)) :
    (Codex.use deps ctx rec (eventName deps rec)).Named := by
  unfold Codex.use
  split
  · exact Use.named_constant _
  · next mine =>
    split
    · exact Use.named_constant _
    · next event found =>
      intro unnamed
      obtain ⟨name, isName, stripped⟩ := Option.bind_eq_some_iff.mp found
      rw [stripPrefix_eq_some] at stripped
      have isCodex : (eventName deps rec).any (startsWith · "codex.") = true := by
        simp [isName, stripped, startsWith_append]
      exact absurd unnamed (names.codex (by simpa using mine) isCodex)

theorem gemini_use_named {ctx : RecordCtx} {rec : LogRecord}
    (names : NamesSession deps (ctx, rec)) :
    (GeminiCli.use deps ctx rec (eventName deps rec)).Named := by
  unfold GeminiCli.use
  split
  · exact Use.named_constant _
  · next mine =>
    split
    · exact Use.named_constant _
    · next name isName =>
      intro unnamed
      simp only at unnamed
      have other : startsWith name "gemini_cli." = false := by
        by_contra isGemini
        have found : (eventName deps rec).any (startsWith · "gemini_cli.") = true := by
          simpa [isName] using isGemini
        exact names.gemini (by simpa using mine) found unnamed
      -- the only event of another name that is recognised is folded
      have isNot (event : String) (isGemini : startsWith event "gemini_cli." = true) :
          name ≠ event := by
        intro same
        rw [same, isGemini] at other
        cases other
      have prompt := isNot "gemini_cli.user_prompt" (by decide)
      have response := isNot "gemini_cli.api_response" (by decide)
      have error := isNot "gemini_cli.api_error" (by decide)
      have call := isNot "gemini_cli.tool_call" (by decide)
      have request := isNot "gemini_cli.api_request" (by decide)
      simp only [GeminiCli.eventUse, prompt, response, error, call, request, if_false]
      by_cases details : name = "gen_ai.client.inference.operation.details"
      · exact ⟨.folded, fun _ => by simp [details]⟩
      · exact ⟨.notMine, fun _ => by simp [details]⟩

/-- A mapped record, from any layer of the request that agrees with the node's. -/
structure MapsAlike (mapped alone : Mapping × RequestState × Remembered) : Prop where
  answer : mapped.1 = alone.1
  node : mapped.2.2 = alone.2.2

theorem mapDialect_alone {ctx : RecordCtx} {rec : LogRecord} {state : RequestState}
    {node : Remembered} (coherent : state.Coherent node) (names : NamesSession deps (ctx, rec)) :
    MapsAlike (mapDialect deps ctx rec (eventName deps rec) node state)
      (mapDialect deps ctx rec (eventName deps rec) node {}) := by
  unfold mapDialect
  rw [Codex.mapLog_eq_run, Codex.mapLog_eq_run, GeminiCli.mapLog_eq_run,
    GeminiCli.mapLog_eq_run]
  obtain ⟨codexAnswer, codexNode⟩ := Use.run_alone coherent.codex (codex_use_named deps names)
  obtain ⟨geminiAnswer, geminiNode⟩ :=
    Use.run_alone coherent.gemini (gemini_use_named deps names)
  generalize (Codex.use deps ctx rec (eventName deps rec)).run node.codex state.codex = codex
    at codexAnswer codexNode
  generalize (Codex.use deps ctx rec (eventName deps rec)).run node.codex ∅ = codex'
    at codexAnswer codexNode
  generalize (GeminiCli.use deps ctx rec (eventName deps rec)).run node.gemini state.gemini =
    gemini at geminiAnswer geminiNode
  generalize (GeminiCli.use deps ctx rec (eventName deps rec)).run node.gemini ∅ =
    gemini' at geminiAnswer geminiNode
  obtain ⟨answer, loc, recent⟩ := codex
  obtain ⟨answer', loc', recent'⟩ := codex'
  simp only at codexAnswer codexNode
  subst codexAnswer codexNode
  cases ClaudeCode.mapLog deps ctx rec (eventName deps rec) with
  | span s => exact ⟨rfl, rfl⟩
  | folded => exact ⟨rfl, rfl⟩
  | notMine =>
    cases answer with
    | span s => exact ⟨rfl, rfl⟩
    | folded => exact ⟨rfl, rfl⟩
    | notMine =>
      refine ⟨geminiAnswer, ?_⟩
      simp only
      rw [geminiNode]

theorem mapDialect_grows {ctx : RecordCtx} {rec : LogRecord} {name : Option String}
    {state : RequestState} {node : Remembered}
    (fits : (mapDialect deps ctx rec name node state).2.2.Fits) :
    node.Grows (mapDialect deps ctx rec name node state).2.2 := by
  unfold mapDialect at fits ⊢
  rw [Codex.mapLog_eq_run, GeminiCli.mapLog_eq_run] at fits ⊢
  have codexGrows := Use.order_run (Codex.use deps ctx rec name) node.codex state.codex
  have geminiGrows := Use.order_run (GeminiCli.use deps ctx rec name) node.gemini state.gemini
  generalize (Codex.use deps ctx rec name).run node.codex state.codex = codex at *
  generalize (GeminiCli.use deps ctx rec name).run node.gemini state.gemini = gemini at *
  generalize ClaudeCode.mapLog deps ctx rec name = claude at fits ⊢
  obtain ⟨answer, loc, recent⟩ := codex
  cases claude with
  | span s => exact ⟨Nat.le_refl _, Nat.le_refl _⟩
  | folded => exact ⟨Nat.le_refl _, Nat.le_refl _⟩
  | notMine =>
    cases answer with
    | span s => exact ⟨codexGrows fits.codex, Nat.le_refl _⟩
    | folded => exact ⟨codexGrows fits.codex, Nat.le_refl _⟩
    | notMine => exact ⟨codexGrows fits.codex, geminiGrows fits.gemini⟩

/-- The layers still agree after a record. -/
theorem mapDialect_coherent {ctx : RecordCtx} {rec : LogRecord} {name : Option String}
    {state : RequestState} {node : Remembered} (coherent : state.Coherent node)
    (fits : (mapDialect deps ctx rec name node state).2.2.Fits) :
    (mapDialect deps ctx rec name node state).2.1.Coherent
      (mapDialect deps ctx rec name node state).2.2 := by
  unfold mapDialect at fits ⊢
  rw [Codex.mapLog_eq_run, GeminiCli.mapLog_eq_run] at fits ⊢
  have codexKept (fits : ((Codex.use deps ctx rec name).run node.codex
      state.codex).2.2.order.length < recallCapacity) := (Use.run_eq coherent.codex fits).2.2
  have geminiKept (fits : ((GeminiCli.use deps ctx rec name).run node.gemini
      state.gemini).2.2.order.length < recallCapacity) := (Use.run_eq coherent.gemini fits).2.2
  generalize (Codex.use deps ctx rec name).run node.codex state.codex = codex at *
  generalize (GeminiCli.use deps ctx rec name).run node.gemini state.gemini = gemini at *
  generalize ClaudeCode.mapLog deps ctx rec name = claude at fits ⊢
  obtain ⟨answer, loc, recent⟩ := codex
  cases claude with
  | span s => exact coherent
  | folded => exact coherent
  | notMine =>
    cases answer with
    | span s => exact ⟨codexKept fits.codex, coherent.gemini⟩
    | folded => exact ⟨codexKept fits.codex, coherent.gemini⟩
    | notMine => exact ⟨codexKept fits.codex, geminiKept fits.gemini⟩

variable (prices : Pricing.PriceTable) (policy : LogsPolicy)

/-- What one record does, whatever agreeing layer its request has. -/
theorem mapRecord_alone {ctx : RecordCtx} {rec : LogRecord} {state : RequestState}
    {node : Remembered} (coherent : state.Coherent node) (names : NamesSession deps (ctx, rec)) :
    (mapRecord deps prices policy ctx rec state node).1 =
        (mapRecord deps prices policy ctx rec {} node).1 ∧
      (mapRecord deps prices policy ctx rec state node).2.2 =
        (mapRecord deps prices policy ctx rec {} node).2.2 := by
  unfold mapRecord
  by_cases off : policy = .off
  · rw [if_pos off, if_pos off]
    exact ⟨rfl, rfl⟩
  rw [if_neg off, if_neg off]
  simp only
  by_cases evaluation : eventName deps rec = some EvalEvent.eventName
  · rw [if_pos evaluation, if_pos evaluation]
    exact ⟨rfl, rfl⟩
  rw [if_neg evaluation, if_neg evaluation]
  have alike := mapDialect_alone deps coherent names
  exact ⟨congrArg (settle deps prices policy ctx rec (eventName deps rec)) alike.answer, alike.node⟩

theorem mapRecord_grows {ctx : RecordCtx} {rec : LogRecord} {state : RequestState}
    {node : Remembered} (fits : (mapRecord deps prices policy ctx rec state node).2.2.Fits) :
    node.Grows (mapRecord deps prices policy ctx rec state node).2.2 := by
  unfold mapRecord at fits ⊢
  split
  · exact ⟨Nat.le_refl _, Nat.le_refl _⟩
  · next on =>
    rw [if_neg on] at fits
    simp only at fits ⊢
    split
    · exact ⟨Nat.le_refl _, Nat.le_refl _⟩
    · next other =>
      rw [if_neg other] at fits
      exact mapDialect_grows deps fits

theorem mapRecord_coherent {ctx : RecordCtx} {rec : LogRecord} {state : RequestState}
    {node : Remembered} (coherent : state.Coherent node)
    (fits : (mapRecord deps prices policy ctx rec state node).2.2.Fits) :
    (mapRecord deps prices policy ctx rec state node).2.1.Coherent
      (mapRecord deps prices policy ctx rec state node).2.2 := by
  unfold mapRecord at fits ⊢
  split
  · exact coherent
  · next on =>
    rw [if_neg on] at fits
    simp only at fits ⊢
    split
    · exact coherent
    · next other =>
      rw [if_neg other] at fits
      exact mapDialect_coherent deps coherent fits

/-! ## A run of records -/

/-- The spans of a run of records are those of each, mapped after what came before it. -/
theorem mem_foldl_mapNext {records : List (RecordCtx × LogRecord)}
    {start : LogsBatch × RequestState × Remembered} {s : NormalizedSpan} :
    s ∈ (records.foldl (mapNext deps prices policy) start).1.spans ↔
      s ∈ start.1.spans ∨ ∃ before record after, records = before ++ record :: after ∧
        s ∈ (mapRecord deps prices policy record.1 record.2
          (before.foldl (mapNext deps prices policy) start).2.1
          (before.foldl (mapNext deps prices policy) start).2.2).1.spans := by
  exact mem_outputs_foldl (fun mapped : LogsBatch × RequestState × Remembered => mapped.1.spans)
    (fun mapped (record : RecordCtx × LogRecord) =>
      (mapRecord deps prices policy record.1 record.2 mapped.2.1 mapped.2.2).1.spans)
    (fun _ _ => rfl)

/-- A record in a request of its own. -/
def mapAlone (mapped : LogsBatch × Remembered) (record : RecordCtx × LogRecord) :
    LogsBatch × Remembered :=
  let (m, _, node) := mapRecord deps prices policy record.1 record.2 {} mapped.2
  (mapped.1.note m, node)

theorem fits_of_foldl_mapAlone {records : List (RecordCtx × LogRecord)} {batch : LogsBatch}
    {node : Remembered}
    (fits : (records.foldl (mapAlone deps prices policy) (batch, node)).2.Fits) : node.Fits := by
  induction records generalizing batch node with
  | nil => exact fits
  | cons record records inductionHypothesis =>
    rw [List.foldl_cons] at fits
    have next := inductionHypothesis fits
    exact next.of_grows (mapRecord_grows deps prices policy next)

theorem fits_of_foldl_mapNext {records : List (RecordCtx × LogRecord)} {batch : LogsBatch}
    {state : RequestState} {node : Remembered}
    (fits : (records.foldl (mapNext deps prices policy) (batch, state, node)).2.2.Fits) :
    node.Fits := by
  induction records generalizing batch state node with
  | nil => exact fits
  | cons record records inductionHypothesis =>
    rw [List.foldl_cons] at fits
    have next := inductionHypothesis fits
    exact next.of_grows (mapRecord_grows deps prices policy next)

theorem mapAlone_eq {record : RecordCtx × LogRecord} {batch : LogsBatch} {state : RequestState}
    {node : Remembered} (coherent : state.Coherent node) (names : NamesSession deps record) :
    mapAlone deps prices policy (batch, node) record =
      ((mapNext deps prices policy (batch, state, node) record).1,
        (mapNext deps prices policy (batch, state, node) record).2.2) := by
  obtain ⟨answer, remembered⟩ := mapRecord_alone deps prices policy coherent names
  simp only [mapAlone, mapNext, answer, remembered]

/-- What fits when the records are mapped in one request fits when each has its own. -/
theorem foldl_mapAlone_fits {records : List (RecordCtx × LogRecord)} {batch : LogsBatch}
    {state : RequestState} {node : Remembered} (coherent : state.Coherent node)
    (names : ∀ record ∈ records, NamesSession deps record)
    (fits : (records.foldl (mapNext deps prices policy) (batch, state, node)).2.2.Fits) :
    (records.foldl (mapAlone deps prices policy) (batch, node)).2.Fits := by
  induction records generalizing batch state node with
  | nil => exact fits
  | cons record records inductionHypothesis =>
    rw [List.foldl_cons] at fits ⊢
    rw [mapAlone_eq deps prices policy coherent (names record (by simp))]
    have next := fits_of_foldl_mapNext deps prices policy fits
    exact inductionHypothesis (mapRecord_coherent deps prices policy coherent next)
      (fun r member => names r (by simp [member])) fits

/-- Mapping records in one request is mapping each in its own. -/
theorem foldl_mapNext {records : List (RecordCtx × LogRecord)} {batch : LogsBatch}
    {state : RequestState} {node : Remembered} (coherent : state.Coherent node)
    (names : ∀ record ∈ records, NamesSession deps record)
    (fits : (records.foldl (mapAlone deps prices policy) (batch, node)).2.Fits) :
    let mapped := records.foldl (mapNext deps prices policy) (batch, state, node)
    (mapped.1, mapped.2.2) = records.foldl (mapAlone deps prices policy) (batch, node) := by
  induction records generalizing batch state node with
  | nil => rfl
  | cons record records inductionHypothesis =>
    rw [List.foldl_cons] at fits
    rw [List.foldl_cons, List.foldl_cons]
    rw [mapAlone_eq deps prices policy coherent (names record (by simp))] at fits ⊢
    have next := fits_of_foldl_mapAlone deps prices policy fits
    exact inductionHypothesis (mapRecord_coherent deps prices policy coherent next)
      (fun r member => names r (by simp [member])) fits

/-! ## A run of requests -/

def LogsBatch.append (batch later : LogsBatch) : LogsBatch :=
  { spans := batch.spans ++ later.spans
    scores := batch.scores ++ later.scores
    outcomes := batch.outcomes ++ later.outcomes }

/-- Requests mapped in order. -/
def mapRequests (node : Remembered) (reqs : List ExportLogsServiceRequest) :
    LogsBatch × Remembered :=
  reqs.foldl (fun mapped req =>
    let (batch, node) := normalizeLogs deps prices policy mapped.2 req
    (mapped.1.append batch, node)) ({}, node)

theorem LogsBatch.note_append (batch later : LogsBatch) (m : Mapped) :
    (batch.append later).note m = batch.append (later.note m) := by
  simp [LogsBatch.note, LogsBatch.append]

/-- What was mapped before only stands in front. -/
theorem foldl_mapAlone_append (records : List (RecordCtx × LogRecord))
    (batch later : LogsBatch) (node : Remembered) :
    records.foldl (mapAlone deps prices policy) (batch.append later, node) =
      (batch.append (records.foldl (mapAlone deps prices policy) (later, node)).1,
        (records.foldl (mapAlone deps prices policy) (later, node)).2) := by
  induction records generalizing later node with
  | nil => rfl
  | cons record records inductionHypothesis =>
    rw [List.foldl_cons, List.foldl_cons]
    simp only [mapAlone, LogsBatch.note_append]
    exact inductionHypothesis _ _

/-- One request, record by record. -/
theorem normalizeLogs_eq {node : Remembered} {req : ExportLogsServiceRequest}
    (names : ∀ record ∈ recordsOf deps req, NamesSession deps record)
    (fits : ((recordsOf deps req).foldl (mapAlone deps prices policy) ({}, node)).2.Fits) :
    normalizeLogs deps prices policy node req =
      (recordsOf deps req).foldl (mapAlone deps prices policy) ({}, node) :=
  foldl_mapNext deps prices policy (coherent_start node) names fits

/-- Requests, record by record. -/
theorem foldl_requests {reqs : List ExportLogsServiceRequest} {batch : LogsBatch}
    {node : Remembered}
    (names : ∀ record ∈ reqs.flatMap (recordsOf deps), NamesSession deps record)
    (fits : ((reqs.flatMap (recordsOf deps)).foldl (mapAlone deps prices policy)
      (batch, node)).2.Fits) :
    reqs.foldl (fun mapped req =>
        let (next, node) := normalizeLogs deps prices policy mapped.2 req
        (mapped.1.append next, node)) (batch, node) =
      (reqs.flatMap (recordsOf deps)).foldl (mapAlone deps prices policy) (batch, node) := by
  induction reqs generalizing batch node with
  | nil => rfl
  | cons req reqs inductionHypothesis =>
    rw [List.flatMap_cons, List.foldl_append] at fits
    rw [List.foldl_cons, List.flatMap_cons, List.foldl_append]
    have start : batch = batch.append {} := by simp [LogsBatch.append]
    have first := foldl_mapAlone_append deps prices policy (recordsOf deps req) batch {} node
    rw [← start] at first
    rw [first] at fits ⊢
    have mapped := normalizeLogs_eq deps prices policy
      (fun r member => names r (by simp [member]))
      (fits_of_foldl_mapAlone deps prices policy fits)
    simp only [mapped]
    exact inductionHypothesis (fun r member => names r (by
      rw [List.flatMap_cons]
      exact List.mem_append_right _ member)) fits

/-- How the records of a session are cut into requests does not matter: any requests with
the records of `whole` in order, under the same resources and scopes, give its spans, its
scores and what it leaves remembered. -/
theorem mapRequests_eq {reqs : List ExportLogsServiceRequest} {whole : ExportLogsServiceRequest}
    {node : Remembered} (same : reqs.flatMap (recordsOf deps) = recordsOf deps whole)
    (names : ∀ record ∈ recordsOf deps whole, NamesSession deps record)
    (fits : (normalizeLogs deps prices policy node whole).2.Fits) :
    mapRequests deps prices policy node reqs = normalizeLogs deps prices policy node whole := by
  have alone := foldl_mapAlone_fits deps prices policy (coherent_start node) names fits
  rw [normalizeLogs_eq deps prices policy names alone]
  rw [← same] at names alone ⊢
  exact foldl_requests deps prices policy names alone

/-! ## A conversation in two requests -/

def codexPrompt (time : Nat) : LogRecord :=
  { timeUnixNano := time
    attributes := [kvStr "event.name" "codex.user_prompt", kvStr "conversation.id" "c1"] }

def codexUsage (time : Nat) : LogRecord :=
  { timeUnixNano := time
    attributes := [kvStr "event.name" "codex.sse_event", kvStr "conversation.id" "c1",
      kvStr "event.kind" "response.completed", kvInt "input_token_count" 10] }

def codexRequest (records : List LogRecord) : ExportLogsServiceRequest :=
  { resourceLogs := [{ scopeLogs := [
      { scope := some { name := "codex_otel.events" }, logRecords := records }] }] }

def noPrices : Pricing.PriceTable := { version := "", models := ∅ }

theorem mapRequests_eq_codexTurn :
    mapRequests .hashing noPrices .genai {}
        [codexRequest [codexPrompt 1000], codexRequest [codexUsage 2000]] =
      normalizeLogs .hashing noPrices .genai {}
        (codexRequest [codexPrompt 1000, codexUsage 2000]) := by
  apply mapRequests_eq .hashing noPrices .genai rfl
  · intro record member
    have listed : record = ({ scopeName := some "codex_otel.events" }, codexPrompt 1000) ∨
        record = ({ scopeName := some "codex_otel.events" }, codexUsage 2000) := by
      have records : recordsOf .hashing (codexRequest [codexPrompt 1000, codexUsage 2000]) =
          [({ scopeName := some "codex_otel.events" }, codexPrompt 1000),
            ({ scopeName := some "codex_otel.events" }, codexUsage 2000)] := rfl
      simpa [records] using member
    cases listed with
    | inl isPrompt =>
      subst isPrompt
      exact ⟨fun _ _ => by decide, fun mine => absurd mine (by decide)⟩
    | inr isUsage =>
      subst isUsage
      exact ⟨fun _ _ => by decide, fun mine => absurd mine (by decide)⟩
  · exact ⟨by decide, by decide⟩

end Evald.Logs
