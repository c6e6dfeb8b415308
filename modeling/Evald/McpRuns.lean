import Evald.Dataset
import Evald.Lib.Fallible
import Evald.Lib.Literal
import Evald.Mcp

/-! # What the tool server does over a session

Every request is answered once, in order and under its own id, whatever batches it came in
(`serveLines_replies`).  Without write access no message changes the store, and with it nothing
but new scores is written (`turns_writes`).
-/

namespace Evald

open Lib

/-! ## A text is one line -/

section Line

variable {printFloat : ℚ → List Char}

theorem newline_int (value : ℤ) : '\n' ∉ (toString value).toList := by
  intro listed
  rw [toList_toString_int, List.mem_append] at listed
  cases listed with
  | inl sign => split at sign <;> simp at sign
  | inr digit =>
    exact absurd (Nat.isDigit_of_mem_toDigits (by decide) (by decide) digit) (by decide)

mutual

theorem Json.newline_text (plain : ∀ q, '\n' ∉ printFloat q) :
    ∀ value : Json, '\n' ∉ value.text printFloat
  | .null => by simp [Json.text]
  | .bool true => by simp [Json.text]
  | .bool false => by simp [Json.text]
  | .int value => newline_int value
  | .float value => plain value
  | .str value => Eval.newline_quoted value.toList
  | .arr items => by
    rw [Json.text, List.mem_cons, not_or]
    exact ⟨by decide, newline_itemsText plain true items⟩
  | .obj members => by
    rw [Json.text, List.mem_cons, not_or]
    exact ⟨by decide, newline_textMembers plain true members⟩

theorem newline_itemsText (plain : ∀ q, '\n' ∉ printFloat q) (first : Bool) :
    ∀ items : List Json, '\n' ∉ itemsText printFloat first items
  | [] => by simp [itemsText]
  | item :: items => by
    have here := item.newline_text plain
    have later := newline_itemsText plain false items
    cases first <;> simp [itemsText, here, later]

theorem newline_textMembers (plain : ∀ q, '\n' ∉ printFloat q) (first : Bool) :
    ∀ members : List (String × Json), '\n' ∉ membersText printFloat first members
  | [] => by simp [membersText]
  | member :: members => by
    have here := newline_memberText plain member
    have later := newline_textMembers plain false members
    cases first <;> simp [membersText, here, later]

theorem newline_memberText (plain : ∀ q, '\n' ∉ printFloat q) :
    ∀ member : String × Json, '\n' ∉ memberText printFloat member
  | (key, value) => by
    have here := value.newline_text plain
    simp [memberText, Eval.newline_quoted, here]

end

end Line

namespace Mcp

open Store

/-! ## What is owed -/

/-- A reply to the request of an id. -/
inductive Responds (id : Json) : Json → Prop
  | ok (result : Json) : Responds id (ok id result)
  | error (code : ℤ) (message : String) : Responds id (error id code message)

/-- The id of a request; a message without a method, or without an id, is none. -/
def requestId (message : Json) : Option Json :=
  ((message.get "method").bind Json.asStr).bind (fun _ => message.get "id")

mutual

/-- The ids that are owed a reply, in order: those of the requests, and `null` for what is no
message. -/
def owed : Json → List Json
  | .arr [] => [.null]
  | .arr (first :: batch) => owed first ++ owedAll batch
  | .obj members => (requestId (.obj members)).toList
  | _ => [.null]

def owedAll : List Json → List Json
  | [] => []
  | message :: batch => owed message ++ owedAll batch

end

mutual

/-- The replies in a reply. -/
def responses : Json → List Json
  | .arr replies => responsesAll replies
  | reply => [reply]

def responsesAll : List Json → List Json
  | [] => []
  | reply :: replies => responses reply ++ responsesAll replies

end

theorem responsesAll_append (replies replies' : List Json) :
    responsesAll (replies ++ replies') = responsesAll replies ++ responsesAll replies' := by
  induction replies with
  | nil => rfl
  | cons reply replies inductionHypothesis => simp [responsesAll, inductionHypothesis]

theorem Responds.responses {id reply : Json} (responds : Responds id reply) :
    responses reply = [reply] := by
  cases responds <;> rfl

section Server

variable {S : Type} {host : Host} {reads : Reads S} {access : Access}

theorem answer_responds (node : Node S) (id : Json) (method : String) (params : Json) :
    Responds id (answer host reads access node id method params).1 := by
  unfold answer
  split_ifs
  · exact .ok _
  · exact .ok _
  · exact .ok _
  · obtain ⟨result, next⟩ := call host reads access node params
    cases result with
    | ok result => exact .ok _
    | error e => exact .error _ _
  · exact .ok _
  · exact .ok _
  · exact .error _ _

/-- What is sent back for some messages, beside what they are owed. -/
structure Replies (ids replies : List Json) : Prop where
  each : List.Forall₂ Responds ids (responsesAll replies)
  nonempty : ∀ reply ∈ replies, responses reply ≠ []

theorem Replies.append {ids ids' replies replies' : List Json} (first : Replies ids replies)
    (second : Replies ids' replies') : Replies (ids ++ ids') (replies ++ replies') where
  each := by
    rw [responsesAll_append]
    exact List.rel_append first.each second.each
  nonempty := by
    intro reply listed
    cases List.mem_append.mp listed with
    | inl here => exact first.nonempty reply here
    | inr later => exact second.nonempty reply later

theorem Replies.single {id reply : Json} (responds : Responds id reply) :
    Replies [id] [reply] where
  each := by
    rw [responsesAll, responsesAll, responds.responses]
    exact .cons responds .nil
  nonempty := by
    intro other listed
    rw [List.mem_singleton.mp listed, responds.responses]
    simp

/-- Replies sent as one: the batch. -/
theorem Replies.batch {ids replies : List Json} (inner : Replies ids replies) :
    Replies ids (if replies.isEmpty then none else some (Json.arr replies)).toList := by
  cases replies with
  | nil => exact inner
  | cons reply replies =>
    have same : responsesAll [Json.arr (reply :: replies)] = responsesAll (reply :: replies) := by
      simp [responsesAll, responses]
    refine ⟨?_, ?_⟩
    · rw [List.isEmpty_cons, if_neg Bool.false_ne_true, Option.toList_some, same]
      exact inner.each
    · intro sent listed
      simp only [List.isEmpty_cons, Bool.false_eq_true, if_false, Option.toList_some,
        List.mem_singleton] at listed
      rw [listed, responses, responsesAll]
      have first := inner.nonempty reply List.mem_cons_self
      simp [first]

theorem Replies.empty_iff {ids replies : List Json} (sent : Replies ids replies) :
    replies = [] ↔ ids = [] := by
  constructor
  · intro none
    have each := sent.each
    rw [none] at each
    exact List.forall₂_nil_right_iff.mp each
  · intro none
    have each := sent.each
    rw [none] at each
    have silent := List.forall₂_nil_left_iff.mp each
    cases replies with
    | nil => rfl
    | cons reply replies =>
      rw [responsesAll, List.append_eq_nil_iff] at silent
      exact absurd silent.1 (sent.nonempty reply List.mem_cons_self)

mutual

theorem handle_replies (node : Node S) : ∀ message : Json,
    Replies (owed message) (handle host reads access node message).1.toList
  | .arr [] => Replies.single (.error _ _)
  | .arr (first :: batch) => by
    rw [handle, owed]
    exact ((handle_replies node first).append (handleAll_replies _ batch)).batch
  | .obj members => by
    rw [handle, owed, requestId]
    cases method : ((Json.obj members).get "method").bind Json.asStr with
    | none => exact ⟨.nil, by simp⟩
    | some method =>
      cases id : (Json.obj members).get "id" with
      | none => exact ⟨.nil, by simp⟩
      | some id => exact Replies.single (answer_responds _ _ _ _)
  | .null | .bool _ | .int _ | .float _ | .str _ => Replies.single (.error _ _)

theorem handleAll_replies (node : Node S) : ∀ batch : List Json,
    Replies (owedAll batch) (handleAll host reads access node batch).1
  | [] => ⟨.nil, by simp [handleAll]⟩
  | message :: batch => by
    rw [handleAll, owedAll]
    exact (handle_replies node message).append (handleAll_replies _ batch)

end

variable (host) in
/-- What a line is owed: a blank one nothing, one that is no JSON a reply without an id. -/
def lineOwed (line : String) : List Json :=
  if Lib.trim line = "" then []
  else
    match host.parseJson line with
    | .ok message => owed message
    | .error _ => [.null]

theorem serveLine_replies (node : Node S) (line : String) :
    Replies (lineOwed host line) (serveLine host reads access node line).1.toList := by
  unfold lineOwed serveLine
  by_cases blank : Lib.trim line = ""
  · rw [if_pos blank, if_pos blank]
    exact ⟨.nil, by simp⟩
  · rw [if_neg blank, if_neg blank]
    cases host.parseJson line with
    | ok message => exact handle_replies node message
    | error e => exact Replies.single (.error _ _)

/-- What a session writes: one line for each line that is owed something. -/
theorem serveLines_lines (node : Node S) (lines : List String) : ∃ replies : List Json,
    (serveLines host reads access node lines).1 =
        replies.flatMap (fun r => r.text host.printFloat ++ ['\n']) ∧
      Replies (lines.flatMap (lineOwed host)) replies ∧
      replies.length = (lines.filter (fun line => !(lineOwed host line).isEmpty)).length := by
  induction lines generalizing node with
  | nil => exact ⟨[], rfl, ⟨.nil, by simp⟩, rfl⟩
  | cons line lines inductionHypothesis =>
    have here := @serveLine_replies S host reads access node line
    obtain ⟨replies, written, later, count⟩ :=
      inductionHypothesis (serveLine host reads access node line).2
    refine ⟨(serveLine host reads access node line).1.toList ++ replies, ?_, here.append later, ?_⟩
    · rw [serveLines, List.flatMap_append]
      simp only [written]
      cases (serveLine host reads access node line).1 <;> simp
    · have silent := here.empty_iff
      rw [List.length_append, count, List.filter_cons]
      cases sent : (serveLine host reads access node line).1 with
      | none =>
        rw [sent] at silent
        simp [silent.mp rfl]
      | some reply =>
        rw [sent] at silent
        have owes : lineOwed host line ≠ [] := fun none => by simpa using silent.mpr none
        simp [owes, Nat.add_comm]

/-- Over a session, each line that is owed a reply gets one line of text, and in these every
request is answered once, in order and under its own id. -/
theorem serveLines_replies (plain : ∀ q, '\n' ∉ host.printFloat q) (node : Node S)
    (lines : List String) : ∃ replies : List Json,
    (serveLines host reads access node lines).1.splitOn '\n' =
        replies.map (Json.text host.printFloat) ++ [[]] ∧
      List.Forall₂ Responds (lines.flatMap (lineOwed host)) (responsesAll replies) ∧
      replies.length = (lines.filter (fun line => !(lineOwed host line).isEmpty)).length := by
  obtain ⟨replies, written, sent, count⟩ := @serveLines_lines S host reads access node lines
  refine ⟨replies, ?_, sent.each, count⟩
  rw [written]
  clear written sent count
  induction replies with
  | nil => rfl
  | cons reply replies inductionHypothesis =>
    have oneLine := reply.newline_text plain
    rw [List.flatMap_cons, List.append_assoc, List.singleton_append,
      List.splitOn_append_cons_self, inductionHypothesis, List.splitOn_eq_singleton oneLine]
    rfl

/-! ## What a session writes -/

/-- A score as `add_score` makes it: of a span, a trace or a session, under an id that starts
with `mcp:`, with a number or a label and not both, and of no evaluation run. -/
structure Added (score : Score) : Prop where
  id : score.id = "mcp:" ++ targetKey score.target ++ ":" ++ score.name ++ ":" ++
    toString score.tsUnixNano
  target : ∀ run, score.target ≠ .run run
  named : score.name ≠ ""
  value : score.numValue.isSome = !score.strValue.isSome
  source : score.source = .api
  noRun : score.configId = none ∧ score.aggStats = none

theorem argStr_ok {args : Json} {key value : String} (found : argStr args key = .ok value) :
    value ≠ "" := by
  unfold argStr at found
  split at found
  · next text given =>
    rw [← Except.ok.inj found]
    simpa using (Option.filter_eq_some_iff.mp given).2
  · cases found

theorem scoreOf_added {now : Nat} {args : Json} {score : Score}
    (asked : scoreOf host now args = .ok score) : Added score := by
  unfold scoreOf at asked
  simp only [bind_eq_ok] at asked
  obtain ⟨id, -, targetType, -, target, kind, name, named, asked⟩ := asked
  have noRun : ∀ run, target ≠ .run run := by
    intro run
    unfold targetOf at kind
    split_ifs at kind <;> cases kind <;> simp
  split at asked
  · cases asked
  · next oneOf =>
    cases asked
    refine ⟨rfl, noRun, argStr_ok named, ?_, rfl, rfl, rfl⟩
    cases number : ((args.get "value").bind (Json.asF64 host.float)).isSome <;>
      cases label : ((args.get "label").bind Json.asStr).isSome <;> simp_all

/-- What some messages leave: the spans as they were and the scores with those that `written`
lists put in; at most `asked` of these, and none without write access. -/
structure Wrote (host : Host) (access : Access) (asked : Nat) (written : List Score)
    (before after : Node S) : Prop where
  spans : after.spans = before.spans
  readOnly : access.writes = false → after = before
  count : written.length ≤ asked
  added : ∀ score ∈ written, Added score
  scores : ∀ current, ScoreStore.Exact host.codec before.scores current →
    (∀ score ∈ written, host.codec.Keeps score) →
    ScoreStore.Exact host.codec after.scores (written.foldl ScoreStore.Current.write current)

theorem Wrote.nothing (asked : Nat) (node : Node S) : Wrote host access asked [] node node where
  spans := rfl
  readOnly := fun _ => rfl
  count := Nat.zero_le _
  added := fun _ listed => by cases listed
  scores := fun _ held _ => held

theorem Wrote.trans {asked asked' : Nat} {written written' : List Score}
    {before between after : Node S} (first : Wrote host access asked written before between)
    (second : Wrote host access asked' written' between after) :
    Wrote host access (asked + asked') (written ++ written') before after where
  spans := second.spans.trans first.spans
  readOnly := fun noWrites => (second.readOnly noWrites).trans (first.readOnly noWrites)
  count := by
    rw [List.length_append]
    exact Nat.add_le_add first.count second.count
  added := by
    intro score listed
    cases List.mem_append.mp listed with
    | inl here => exact first.added score here
    | inr later => exact second.added score later
  scores := by
    intro current held keeps
    rw [List.foldl_append]
    have between := first.scores current held
      (fun score listed => keeps score (List.mem_append_left _ listed))
    exact second.scores _ between (fun score listed => keeps score (List.mem_append_right _ listed))

theorem addScore_wrote (allowed : access.writes = true) (node : Node S) (args : Json) :
    ∃ written, Wrote host access 1 written node (addScore host node args).2 := by
  unfold addScore
  cases asked : scoreOf host (host.clock node.writes) args with
  | error e => exact ⟨[], .nothing _ _⟩
  | ok score =>
    have added := scoreOf_added asked
    simp only [ScoreStore.afterPut]
    cases put : node.scores.putBatch host.codec
        { scores := [score], fault := host.fault node.writes } with
    | none =>
      -- The write failed: only the count of the attempts has moved.
      refine ⟨[], rfl, by simp [allowed], by simp, by simp, ?_⟩
      exact fun _ held _ => held
    | some tables =>
      refine ⟨[score], rfl, by simp [allowed], by simp, by simpa using added, ?_⟩
      intro current held keeps
      exact held.putBatch keeps put

theorem call_wrote (node : Node S) (params : Json) :
    ∃ written, Wrote host access 1 written node (call host reads access node params).2 := by
  unfold call
  cases named : (params.get "name").bind Json.asStr with
  | none => exact ⟨[], .nothing _ _⟩
  | some name =>
    simp only
    split_ifs with known
    · unfold run
      split_ifs with write
      · -- `add_score` is a tool only where writes are allowed.
        have allowed : access.writes = true := by
          by_contra noWrites
          subst write
          simp only [tools, if_neg noWrites, List.append_nil] at known
          exact absurd known (by decide)
        obtain ⟨written, wrote⟩ := @addScore_wrote S host access allowed node
          ((params.get "arguments").getD (.obj []))
        cases added : addScore host node ((params.get "arguments").getD (.obj [])) with
        | mk result next =>
          rw [added] at wrote
          cases result <;> exact ⟨written, wrote⟩
      · cases read host reads node name ((params.get "arguments").getD (.obj [])) <;>
          exact ⟨[], .nothing _ _⟩
    · exact ⟨[], .nothing _ _⟩

theorem answer_wrote (node : Node S) (id : Json) (method : String) (params : Json) :
    ∃ written, Wrote host access 1 written node
      (answer host reads access node id method params).2 := by
  unfold answer
  split_ifs
  · exact ⟨[], .nothing _ _⟩
  · exact ⟨[], .nothing _ _⟩
  · exact ⟨[], .nothing _ _⟩
  · obtain ⟨written, wrote⟩ := @call_wrote S host reads access node params
    cases called : call host reads access node params with
    | mk result next =>
      rw [called] at wrote
      cases result <;> exact ⟨written, wrote⟩
  · exact ⟨[], .nothing _ _⟩
  · exact ⟨[], .nothing _ _⟩
  · exact ⟨[], .nothing _ _⟩

mutual

theorem handle_wrote (node : Node S) : ∀ message : Json,
    ∃ written, Wrote host access (owed message).length written node
      (handle host reads access node message).2
  | .arr [] => ⟨[], .nothing _ _⟩
  | .arr (first :: batch) => by
    obtain ⟨written, here⟩ := handle_wrote node first
    obtain ⟨written', later⟩ := handleAll_wrote (handle host reads access node first).2 batch
    rw [handle, owed, List.length_append]
    exact ⟨written ++ written', here.trans later⟩
  | .obj members => by
    rw [handle, owed, requestId]
    cases method : ((Json.obj members).get "method").bind Json.asStr with
    | none => exact ⟨[], .nothing _ _⟩
    | some method =>
      cases id : (Json.obj members).get "id" with
      | none => exact ⟨[], .nothing _ _⟩
      | some id => exact answer_wrote _ _ _ _
  | .null | .bool _ | .int _ | .float _ | .str _ => ⟨[], .nothing _ _⟩

theorem handleAll_wrote (node : Node S) : ∀ batch : List Json,
    ∃ written, Wrote host access (owedAll batch).length written node
      (handleAll host reads access node batch).2
  | [] => ⟨[], .nothing _ _⟩
  | message :: batch => by
    obtain ⟨written, here⟩ := handle_wrote node message
    obtain ⟨written', later⟩ := handleAll_wrote (handle host reads access node message).2 batch
    rw [handleAll, owedAll, List.length_append]
    exact ⟨written ++ written', here.trans later⟩

end

/-- What reaches the server: a line of standard input, or a request. -/
inductive Turn where
  | line (text : String)
  | post (origin : Option String) (body : String)

variable (host) in
def turnOwed : Turn → List Json
  | .line text => lineOwed host text
  | .post origin body =>
    if origin.any (fun o => !mcpOriginAllowed o) then []
    else
      match host.parseJson body with
      | .ok message => owed message
      | .error _ => [.null]

variable (host reads access) in
def turn (node : Node S) : Turn → Node S
  | .line text => (serveLine host reads access node text).2
  | .post origin body => (postMcp host reads access node origin body).2

theorem turn_wrote (node : Node S) (received : Turn) :
    ∃ written, Wrote host access (turnOwed host received).length written node
      (turn host reads access node received) := by
  cases received with
  | line text =>
    unfold turn turnOwed lineOwed serveLine
    by_cases blank : Lib.trim text = ""
    · simp only [blank, if_true]
      exact ⟨[], .nothing _ _⟩
    · simp only [blank, if_false]
      cases host.parseJson text with
      | ok message => exact handle_wrote node message
      | error e => exact ⟨[], .nothing _ _⟩
  | post origin body =>
    simp only [turn, turnOwed, postMcp]
    split_ifs with foreign
    · exact ⟨[], .nothing _ _⟩
    · cases host.parseJson body with
      | error e => exact ⟨[], .nothing _ _⟩
      | ok message =>
        obtain ⟨written, wrote⟩ := @handle_wrote S host reads access node message
        simp only
        cases handled : handle host reads access node message with
        | mk reply next =>
          rw [handled] at wrote
          cases reply <;> exact ⟨written, wrote⟩

theorem turns_wrote (node : Node S) (turns : List Turn) :
    ∃ written, Wrote host access (turns.flatMap (turnOwed host)).length written node
      (turns.foldl (turn host reads access) node) := by
  induction turns generalizing node with
  | nil => exact ⟨[], .nothing _ _⟩
  | cons received turns inductionHypothesis =>
    obtain ⟨written, here⟩ := @turn_wrote S host reads access node received
    obtain ⟨written', later⟩ := inductionHypothesis (turn host reads access node received)
    rw [List.flatMap_cons, List.length_append, List.foldl_cons]
    exact ⟨written ++ written', here.trans later⟩

/-- Whatever reaches the server, without write access the store stays as it is.  With it the
spans do, and the score store comes to hold what it held and some scores of the agent's, at most
one for each request that may reach it; what its tables then stand for is said where the texts
of these scores are read with their id, target and time. -/
theorem turns_writes (node : Node S) (turns : List Turn) :
    (access.writes = false → turns.foldl (turn host reads access) node = node) ∧
      ∃ written : List Score, (∀ score ∈ written, Added score) ∧
        written.length ≤ (turns.flatMap (turnOwed host)).length ∧
        (turns.foldl (turn host reads access) node).spans = node.spans ∧
        ∀ current, ScoreStore.Exact host.codec node.scores current →
          (∀ score ∈ written, host.codec.Keeps score) →
          ScoreStore.Exact host.codec (turns.foldl (turn host reads access) node).scores
            (written.foldl ScoreStore.Current.write current) := by
  obtain ⟨written, wrote⟩ := @turns_wrote S host reads access node turns
  exact ⟨wrote.readOnly, written, wrote.added, wrote.count, wrote.spans, wrote.scores⟩

end Server

/-- The plain texts of the query, and its literals between them. -/
def failingPieces (float : Floats) (runId : String) (below : F64) (evaluator : Option String) :
    String × List (String × String) :=
  let number := ") AND num_value < " ++ float.display below
  let order := " ORDER BY num_value ASC, id"
  ("SELECT name AS evaluator, num_value AS value, target_type, target_id, comment, id " ++
      "FROM scores WHERE config_id = ",
    (runId, " AND NOT starts_with(id, ") ::
      evaluator.elim [(runId ++ ":agg:", number ++ order)]
        (fun e => [(runId ++ ":agg:", number ++ " AND name = "), (e, order)]))

/-- A query, from its plain texts and its literals. -/
def queryOf (pieces : String × List (String × String)) : List Char :=
  Literal.written '\'' pieces.1.toList (pieces.2.map (fun r => (r.1.toList, r.2.toList)))

theorem sqlStr_toList (s : String) : (sqlStr s).toList = Literal.quoted '\'' s.toList := by
  simp [sqlStr, Literal.quoted, Literal.doubled]

theorem failingSql_written (float : Floats) (runId : String) (below : F64)
    (evaluator : Option String) :
    (failingSql float runId below evaluator).toList =
      queryOf (failingPieces float runId below evaluator) := by
  have empty : "".toList = [] := rfl
  unfold failingSql failingPieces queryOf Literal.written
  cases evaluator with
  | none =>
    simp only [String.toList_append, sqlStr_toList, Option.elim_none, List.map_cons,
      List.map_nil, List.flatMap_cons, List.flatMap_nil, empty]
    simp only [List.append_assoc, List.append_nil]
  | some e =>
    simp only [String.toList_append, sqlStr_toList, Option.elim_some, List.map_cons,
      List.map_nil, List.flatMap_cons, List.flatMap_nil]
    simp only [List.append_assoc, List.append_nil]

/-- Whatever run and evaluator an agent names, they are literals of the query and nothing else
of it: its plain text is fixed but for the number. -/
theorem failingSql_literals {float : Floats} (digits : ∀ x, '\'' ∉ (float.display x).toList)
    (runId : String) (below : F64) (evaluator : Option String) :
    Literal.cut '\'' .outside [] (failingSql float runId below evaluator).toList =
      some (.plain (failingPieces float runId below evaluator).1.toList ::
        (failingPieces float runId below evaluator).2.flatMap
          (fun r => [.literal r.1.toList, .plain r.2.toList])) := by
  rw [failingSql_written, queryOf, Literal.cut_written]
  · simp [List.flatMap_map]
  · unfold failingPieces
    simp
  · intro r listed
    have shown := digits below
    unfold failingPieces at listed
    cases evaluator with
    | none =>
      simp only [Option.elim_none, List.map_cons, List.map_nil, List.mem_cons, List.not_mem_nil,
        or_false] at listed
      obtain rfl | rfl := listed <;> simp [shown]
    | some e =>
      simp only [Option.elim_some, List.map_cons, List.map_nil, List.mem_cons, List.not_mem_nil,
        or_false] at listed
      obtain rfl | rfl | rfl := listed <;> simp [shown]

theorem failingSql_literals_quote :
    let float := { Floats.exact with display := fun _ => "1" }
    let pieces := failingPieces float "x' OR name <> '" (.finite 1) (some "exact_match")
    Literal.cut '\'' .outside []
        (failingSql float "x' OR name <> '" (.finite 1) (some "exact_match")).toList =
      some (.plain pieces.1.toList ::
        pieces.2.flatMap (fun r => [.literal r.1.toList, .plain r.2.toList])) :=
  failingSql_literals (by simp) "x' OR name <> '" (.finite 1) (some "exact_match")

/-! ## Where a request may come from -/

/-- A host name or an IPv4 address, or an IPv6 address, which stands in brackets. -/
inductive OriginHost where
  | name (text : String) (plain : ':' ∉ text.toList ∧ '/' ∉ text.toList ∧ '[' ∉ text.toList)
  | v6 (text : String) (colon : ':' ∈ text.toList) (plain : '/' ∉ text.toList ∧ ']' ∉ text.toList)

structure Origin where
  scheme : String
  schemeName : ':' ∉ scheme.toList
  host : OriginHost
  port : Option Nat

def OriginHost.text : OriginHost → List Char
  | .name text _ => text.toList
  | .v6 text _ _ => '[' :: (text.toList ++ [']'])

def Origin.portText (origin : Origin) : List Char :=
  origin.port.elim [] (fun port => ':' :: Nat.toDigits 10 port)

/-- What stands behind the scheme. -/
def Origin.authority (origin : Origin) : List Char := origin.host.text ++ origin.portText

/-- As a browser sends it. -/
def Origin.text (origin : Origin) : String :=
  origin.scheme ++ "://" ++ String.ofList origin.authority

def OriginHost.Loopback : OriginHost → Prop
  | .name text _ => text = "localhost" ∨ text = "127.0.0.1"
  | .v6 text _ _ => text = "::1"

def Origin.Loopback (origin : Origin) : Prop :=
  (origin.scheme = "http" ∨ origin.scheme = "https") ∧ origin.host.Loopback

theorem takeWhile_until {text : List Char} {stop : Char} (plain : stop ∉ text)
    (rest : List Char) :
    (text ++ rest).takeWhile (· ≠ stop) = text ++ rest.takeWhile (· ≠ stop) := by
  apply List.takeWhile_append_of_pos
  intro c listed
  rw [decide_eq_true_iff]
  exact fun same => plain (same ▸ listed)

theorem Origin.portText_plain (origin : Origin) {c : Char} (other : c ≠ ':')
    (noDigit : c.isDigit = false) : c ∉ origin.portText := by
  unfold Origin.portText
  cases origin.port with
  | none => simp
  | some port =>
    rw [Option.elim_some, List.mem_cons, not_or]
    refine ⟨other, fun listed => ?_⟩
    rw [Nat.isDigit_of_mem_toDigits (by decide) (by decide) listed] at noDigit
    cases noDigit

theorem Origin.portText_until (origin : Origin) : origin.portText.takeWhile (· ≠ ':') = [] := by
  unfold Origin.portText
  cases origin.port <;> simp

/-- The scheme of an origin is what stands before its first colon. -/
theorem Origin.stripPrefix_text (origin : Origin) (scheme : String)
    (schemeName : ':' ∉ scheme.toList) :
    stripPrefix origin.text (scheme ++ "://") =
      if origin.scheme = scheme then some (String.ofList origin.authority) else none := by
  by_cases same : origin.scheme = scheme
  · rw [if_pos same, stripPrefix_eq_some, Origin.text, same]
  · rw [if_neg same, Option.eq_none_iff_forall_not_mem]
    intro rest isRest
    rw [Option.mem_def, stripPrefix_eq_some, ← String.toList_inj] at isRest
    simp only [Origin.text, String.toList_append] at isRest
    have schemes := congrArg (List.takeWhile (· ≠ ':')) isRest
    simp only [List.append_assoc] at schemes
    rw [takeWhile_until origin.schemeName, takeWhile_until schemeName] at schemes
    refine same (String.toList_inj.mp ?_)
    simpa using schemes

theorem Origin.authority_plain (origin : Origin) : '/' ∉ origin.authority := by
  have port : '/' ∉ origin.portText := origin.portText_plain (by decide) (by decide)
  rw [Origin.authority, List.mem_append, not_or]
  refine ⟨?_, port⟩
  cases origin.host with
  | name text plain => exact plain.2.1
  | v6 text colon plain => simp [OriginHost.text, plain.1]

theorem Origin.hostname_loopback (origin : Origin) :
    hostname origin.authority = "localhost".toList ∨
        hostname origin.authority = "127.0.0.1".toList ∨
        hostname origin.authority = "::1".toList ↔ origin.host.Loopback := by
  unfold Origin.authority
  cases origin.host with
  | name text plain =>
    have noBracket : '[' ∉ text.toList ++ origin.portText := by
      rw [List.mem_append, not_or]
      exact ⟨plain.2.2, origin.portText_plain (by decide) (by decide)⟩
    have isName : hostname (text.toList ++ origin.portText) = text.toList := by
      unfold hostname
      split
      · next v6 bracket => exact absurd (by rw [bracket]; simp) noBracket
      · rw [takeWhile_until plain.1, origin.portText_until, List.append_nil]
    have noV6 : text ≠ "::1" := by
      rintro rfl
      exact plain.1 (by simp)
    simp only [OriginHost.text, OriginHost.Loopback, isName, String.toList_inj, noV6, or_false]
  | v6 text colon plain =>
    have isText : hostname (OriginHost.text (.v6 text colon plain) ++ origin.portText) =
        text.toList := by
      rw [OriginHost.text, List.cons_append, hostname, List.append_assoc,
        takeWhile_until plain.2]
      simp
    have noName : text ≠ "localhost" ∧ text ≠ "127.0.0.1" := by
      constructor <;> rintro rfl <;> simp at colon
    simp only [OriginHost.Loopback, isText, String.toList_inj, noName, false_or]

theorem mcpOriginAllowed_text (origin : Origin) :
    mcpOriginAllowed origin.text = true ↔ origin.Loopback := by
  have http : stripPrefix origin.text "http://" = _ :=
    origin.stripPrefix_text "http" (by simp)
  have https : stripPrefix origin.text "https://" = _ :=
    origin.stripPrefix_text "https" (by simp)
  have whole : origin.authority.takeWhile (· ≠ '/') = origin.authority := by
    simpa using takeWhile_until origin.authority_plain []
  simp only [ne_eq, decide_not] at whole
  unfold mcpOriginAllowed Origin.Loopback
  rw [http, https, ← origin.hostname_loopback]
  by_cases isHttp : origin.scheme = "http"
  · simp [isHttp, whole, or_assoc]
  · by_cases isHttps : origin.scheme = "https"
    · simp [isHttps, whole, or_assoc]
    · simp [isHttp, isHttps]

/-- A page of this machine is treated as a program is.  One of elsewhere is refused, and the
store is neither read nor written. -/
theorem postMcp_origin {S : Type} (host : Host) (reads : Reads S) (access : Access)
    (node : Node S) (origin : Origin) (body : String) :
    (origin.Loopback → postMcp host reads access node (some origin.text) body =
        postMcp host reads access node none body) ∧
      (¬ origin.Loopback →
        postMcp host reads access node (some origin.text) body = (.forbidden, node)) := by
  unfold postMcp
  rw [← mcpOriginAllowed_text]
  constructor
  · intro loopback
    simp [loopback]
  · intro foreign
    simp [foreign]

/-! ## A session of two lines -/

def pingLine : String := "\x7b\"jsonrpc\":\"2.0\",\"id\":7,\"method\":\"ping\"\x7d"

def scoreLine : String :=
  "\x7b\"jsonrpc\":\"2.0\",\"id\":8,\"method\":\"tools/call\"," ++
    "\"params\":\x7b\"name\":\"add_score\",\"arguments\":\x7b\"target_type\":\"span\"," ++
    "\"target_id\":\"ab\",\"name\":\"helpful\"," ++
    "\"value\":1\x7d\x7d\x7d"

def scoreCall : Json :=
  .obj
    [("id", .int 8), ("jsonrpc", .str "2.0"), ("method", .str "tools/call"),
      ("params", .obj
        [("arguments", .obj
            [("name", .str "helpful"), ("target_id", .str "ab"), ("target_type", .str "span"),
              ("value", .int 1)]),
          ("name", .str "add_score")])]

/-- The score that `scoreLine` asks for. -/
def helpful : Score :=
  { id := "mcp:span:ab:helpful:5", target := .span "ab", name := "helpful"
    numValue := some (.finite 1), tsUnixNano := 5 }

def helpfulText : String :=
  "\x7b\"id\":\"mcp:span:ab:helpful:5\",\"target_type\":\"span\",\"target_id\":\"ab\"," ++
    "\"name\":\"helpful\",\"num_value\":1.0,\"data_type\":\"numeric\",\"source\":\"api\"," ++
    "\"ts_unix_nano\":5\x7d"

def deskHost : Host :=
  { float := Floats.exact
    printFloat := fun _ => "1.0".toList
    parseJson := fun text =>
      if text = pingLine then
        .ok (.obj [("id", .int 7), ("jsonrpc", .str "2.0"), ("method", .str "ping")])
      else if text = scoreLine then .ok scoreCall
      else .error "expected value at line 1 column 1"
    debugText := fun s => "\"" ++ s ++ "\""
    version := "0.1.0"
    codec :=
      { write := fun score => if score = helpful then some helpfulText else none
        parse := fun text => if text = helpfulText then some helpful else none }
    scoreJson := fun score => .obj [("id", .str score.id), ("name", .str score.name)]
    clock := fun _ => 5
    fault := fun _ _ => false
    ioError := "No space left on device (os error 28)" }

/-- A store without spans. -/
def noReads : Reads Unit :=
  { sql := fun _ _ _ _ => .ok (.obj [("rows", .arr []), ("truncated", .bool false)])
    trace := fun _ _ => .ok []
    traceScores := fun _ _ _ => .ok []
    sessions := fun _ => .ok []
    session := fun _ _ => .ok none
    costRows := fun _ _ _ => .ok []
    latencyRows := fun _ _ _ => .ok []
    compareRuns := fun _ _ _ _ => .ok [] }

theorem serveLines_replies_ping : ∃ replies : List Json,
    (serveLines deskHost noReads {} { spans := (), scores := {} }
        [pingLine, "", "oops"]).1.splitOn '\n' =
        replies.map (Json.text deskHost.printFloat) ++ [[]] ∧ replies.length = 2 := by
  have plain : ∀ q, '\n' ∉ deskHost.printFloat q := fun _ => by simp [deskHost]
  obtain ⟨replies, written, -, count⟩ := @serveLines_replies Unit deskHost noReads {} plain
    { spans := (), scores := {} } [pingLine, "", "oops"]
  exact ⟨replies, written, count.trans rfl⟩

theorem turns_writes_score : ∃ written : List Score,
    written.length ≤ ([Turn.line pingLine, .line scoreLine].flatMap (turnOwed deskHost)).length ∧
    ScoreStore.Exact deskHost.codec
      ([Turn.line pingLine, .line scoreLine].foldl (turn deskHost noReads { writes := true })
        { spans := (), scores := {} }).scores
      (written.foldl ScoreStore.Current.write (fun _ => none)) := by
  have keeps (score : Score) : deskHost.codec.Keeps score := by
    intro text isText
    by_cases same : score = helpful
    · subst same
      simp only [deskHost, if_true, Option.some.injEq] at isText
      exact ⟨helpful, by simp [deskHost, ← isText], rfl, rfl, rfl⟩
    · simp [deskHost, same] at isText
  obtain ⟨-, written, -, count, -, held⟩ := @turns_writes Unit deskHost noReads
    { writes := true } { spans := (), scores := {} } [Turn.line pingLine, .line scoreLine]
  exact ⟨written, count, held _ ScoreStore.exact_empty (fun score _ => keeps score)⟩

end Mcp

end Evald
