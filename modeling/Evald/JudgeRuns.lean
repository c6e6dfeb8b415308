import Evald.Evaluators
import Evald.Lib.Utf8

/-! # Runs of the judges

A judge puts the question of each item to a model and caches the score that it finds in the
reply.  Whatever was run before and whatever reads and writes of the cache fail, a run scores as
if nothing had been cached, unless two questions share both hashes or a score is read back from
its text as another (`scoreItems_uncached`).
-/

namespace Evald.Judge

open Evald.Lib Evald.Eval

/-! ## The judge -/

/-- A judge, with the value an item passes from; 0.5 where the configuration has none. -/
structure JudgeEntry extends JudgeSpec where
  passThreshold : F64

structure CachedScore where
  value : F64
  comment : Option String
  /-- The second hash of the question. -/
  verify : UInt64

/-- What a judge runs on. -/
structure JudgeHost where
  float : Floats
  readJson : String → Option Json
  debugText : String → String
  display : F64 → String
  /-- The reply to the n-th call. -/
  complete : Nat → Provider → String → String → String → Except String String
  writeCached : CachedScore → Option String
  parseCached : String → Option CachedScore
  /-- Does the n-th access to the cache fail? -/
  fails : Nat → Bool

/-- The cache, how often it and the model were called, and the keys of the questions that the
model has answered. -/
structure JudgeState where
  table : Std.ExtTreeMap String String := ∅
  accesses : Nat := 0
  calls : Nat := 0
  answered : List (String × UInt64) := []

/-! ## The reply -/

/-- From the first opening brace to the last closing one. -/
def braced (text : List Char) : Option (List Char) := do
  let start ← text.findIdx? (· = '{')
  let fromEnd ← text.reverse.findIdx? (· = '}')
  let last := text.length - 1 - fromEnd
  guard (start < last)
  pure ((text.drop start).take (last + 1 - start))

def truncate (s : String) (max : Nat) : String :=
  if s.toList.length ≤ max then s else String.ofList (s.toList.take max)

/-- `score.clamp(0.0, 1.0)` -/
def clampUnit (q : ℚ) : ℚ := if q < 0 then 0 else if 1 < q then 1 else q

/-! ## The keys of a question -/

/-- FNV-1a of 64 bits. -/
def fnv1a64 (s : String) : UInt64 :=
  (utf8 s).foldl (fun h b => (h ^^^ b.toUInt64) * 0x100000001b3) 0xcbf29ce484222325

/-- `{:016x}` -/
def hex16 (h : UInt64) : String :=
  let digits := Nat.toDigits 16 h.toNat
  String.ofList (List.replicate (16 - digits.length) '0' ++ digits)

/-- The key of the cache and a second hash of the question, which a hit has to have. -/
def cacheKeys (spec : JudgeSpec) (item : DatasetItem) : String × UInt64 :=
  let canon := buildCanon spec item
  (hex16 (fnv1a64 canon), fnv1a64 ("\x02" ++ canon))

section Host

variable (host : JudgeHost)

def JudgeEntry.validate (judge : JudgeEntry) : Except String Unit :=
  if ¬ (atLeast judge.passThreshold (.finite 0) ∧ atLeast (.finite 1) judge.passThreshold) then
    .error ("judge " ++ host.debugText judge.evaluatorName ++ ": pass_threshold must be finite " ++
      "and within [0, 1] (got " ++ host.display judge.passThreshold ++ ")")
  else if judge.rail = .gEval ∧ ¬ judge.criteria.any (fun c => trim c ≠ "") then
    .error ("judge " ++ host.debugText judge.evaluatorName ++
      ": the g_eval rail requires non-empty `criteria`")
  else .ok ()

/-- The whole text, or what stands in braces. -/
def extractJson (text : String) : Option Json :=
  let t := trim text
  (host.readJson t).or ((braced t.toList).bind (fun inner => host.readJson (String.ofList inner)))

/-- The score and the reasoning of a reply. -/
def parseScore (text : String) : Option (F64 × Option String) := do
  let v ← extractJson host text
  match ← (v.get "score").bind (Json.asF64 host.float) with
  | .finite q =>
    let reasoning := ((v.get "reasoning").bind Json.asStr).map (fun s => truncate s 500)
    pure (.finite (clampUnit q), reasoning)
  | _ => none

/-! ## The cache -/

/-- A hit: the second hash has to agree. -/
def JudgeState.get (s : JudgeState) (keys : String × UInt64) : Option CachedScore := do
  guard (host.fails s.accesses = false)
  let text ← s.table[keys.1]?
  let cached ← host.parseCached text
  guard (cached.verify = keys.2)
  pure cached

/-- A write that fails is let go. -/
def JudgeState.put (s : JudgeState) (key : String) (cached : CachedScore) : JudgeState :=
  match host.writeCached cached with
  | some text =>
    { s with
      table := if host.fails s.accesses then s.table else s.table.insert key text
      accesses := s.accesses + 1 }
  | none => s

/-! ## A run -/

def JudgeEntry.outcome (judge : JudgeEntry) (value : F64) (comment : Option String) : ItemScore :=
  { passed := atLeast value judge.passThreshold, value, comment }

/-- A reply without a score is a failed one. -/
def unparseable : ItemScore :=
  { passed := false, value := .finite 0, comment := some "judge reply had no parseable score" }

/-- What is made of the reply to a question. -/
def afterReply (judge : JudgeEntry) (keys : String × UInt64) (s : JudgeState) (reply : String) :
    ItemScore × JudgeState :=
  match parseScore host reply with
  | some (value, reasoning) =>
    (judge.outcome value reasoning,
      s.put host keys.1 { value, comment := reasoning, verify := keys.2 })
  | none => (unparseable, s)

/-- One item: none where its question lacks a field. -/
def scoreItem (judge : JudgeEntry) (s : JudgeState) (item : DatasetItem) :
    Except String (Option ItemScore) × JudgeState :=
  match judge.buildPrompt item with
  | none => (.ok none, s)
  | some (system, user) =>
    let keys := cacheKeys judge.toJudgeSpec item
    let read := { s with accesses := s.accesses + 1 }
    match s.get host keys with
    | some c => (.ok (some (judge.outcome c.value c.comment)), read)
    | none =>
      let sent := { read with calls := s.calls + 1 }
      match host.complete s.calls judge.provider judge.model system user with
      | .error _ =>
        (.error ("judge " ++ host.debugText judge.evaluatorName ++ " backend call failed"), sent)
      | .ok reply =>
        let (outcome, next) :=
          afterReply host judge keys { sent with answered := s.answered ++ [keys] } reply
        (.ok (some outcome), next)

def scoreEach (judge : JudgeEntry) (s : JudgeState) :
    List DatasetItem → Except String (List (Option ItemScore)) × JudgeState
  | [] => (.ok [], s)
  | item :: dataset =>
    match scoreItem host judge s item with
    | (.error e, next) => (.error e, next)
    | (.ok outcome, next) =>
      match scoreEach judge next dataset with
      | (.error e, last) => (.error e, last)
      | (.ok outcomes, last) => (.ok (outcome :: outcomes), last)

def scoreItems (judge : JudgeEntry) (dataset : List DatasetItem) (s : JudgeState) :
    Except String (List (Option ItemScore)) × JudgeState :=
  match judge.validate host with
  | .error e => (.error e, s)
  | .ok () => scoreEach host judge s dataset

/-- Runs one after the other, whether they come to their ends or not. -/
def afterRuns (runs : List (JudgeEntry × List DatasetItem)) : JudgeState :=
  runs.foldl (fun s run => (scoreItems host run.1 run.2 s).2) {}

/-! ## The estimate -/

def approxTokens (s : String) : Nat := (s.toList.length + 3) / 4

def estOutputTokens : Nat := 32

/-- Dollars for a million tokens in and out, by a part of the model's name; the fractions are
the doubles nearest to 0.8, 0.15 and 0.6. -/
def modelPrice (model : String) : Option (F64 × F64) :=
  let m := asciiLowercase model
  if containsText m "opus" then some (.finite 15, .finite 75)
  else if containsText m "sonnet" then some (.finite 3, .finite 15)
  else if containsText m "haiku" then
    some (.finite (3602879701896397 / 4503599627370496), .finite 4)
  else if containsText m "gpt-4o-mini" then
    some (.finite (5404319552844595 / 36028797018963968),
      .finite (5404319552844595 / 9007199254740992))
  else if containsText m "gpt-4o" then some (.finite (5 / 2), .finite 10)
  else if containsText m "gpt-4" then some (.finite 10, .finite 30)
  else if containsText m "gpt-3.5" then some (.finite (1 / 2), .finite (3 / 2))
  else none

/-- `tokens as f64 / 1e6 * price` -/
def tokenCost (float : Floats) (tokens : Nat) (price : F64) : F64 :=
  float.mul (float.div (float.ofInt tokens) (.finite 1000000)) price

/-- The calls of a run that is about to be made. -/
structure JudgeEstimate where
  name : String
  model : String
  calls : Nat
  cached : Nat
  inputTokens : Nat
  outputTokens : Nat
  costUsd : Option F64

/-- One item of the estimate: the calls, the hits and the tokens so far. -/
def estimateItem (judge : JudgeEntry) (s : JudgeState) (acc : Nat × Nat × Nat)
    (item : DatasetItem) : Nat × Nat × Nat :=
  match judge.buildPrompt item with
  | none => acc
  | some (system, user) =>
    match s.get host (cacheKeys judge.toJudgeSpec item) with
    | some _ => (acc.1, acc.2.1 + 1, acc.2.2)
    | none => (acc.1 + 1, acc.2.1, acc.2.2 + (approxTokens system + approxTokens user))

def estimateJudge (judge : JudgeEntry) (dataset : List DatasetItem) (s : JudgeState) :
    Except String JudgeEstimate := do
  judge.validate host
  let (calls, cached, inputTokens) := dataset.foldl (estimateItem host judge s) (0, 0, 0)
  pure
    { name := judge.evaluatorName
      model := judge.model
      calls, cached, inputTokens
      outputTokens := calls * estOutputTokens
      costUsd := (modelPrice judge.model).map (fun price =>
        host.float.add (tokenCost host.float inputTokens price.1)
          (tokenCost host.float (calls * estOutputTokens) price.2)) }

end Host

/-! ## A run scores as if nothing were cached -/

/-- The questions of some runs. -/
def questions (runs : List (JudgeEntry × List DatasetItem)) : List (JudgeSpec × DatasetItem) :=
  runs.flatMap (fun run => run.2.map (fun item => (run.1.toJudgeSpec, item)))

/-- What the cache does not read. -/
def JudgeHost.withoutCache (host : JudgeHost) : JudgeHost := { host with fails := fun _ => true }

/-- What every run of a judge preserves holds after all runs. -/
theorem runs_induction {host : JudgeHost} {asked : List (JudgeSpec × DatasetItem)}
    {P : JudgeState → Prop}
    (step : ∀ judge dataset s, (∀ item ∈ dataset, (judge.toJudgeSpec, item) ∈ asked) → P s →
      P (scoreItems host judge dataset s).2)
    {runs : List (JudgeEntry × List DatasetItem)} {s : JudgeState}
    (listed : ∀ q ∈ questions runs, q ∈ asked) (start : P s) :
    P (runs.foldl (fun s run => (scoreItems host run.1 run.2 s).2) s) := by
  induction runs generalizing s with
  | nil => exact start
  | cons run runs inductionHypothesis =>
    simp only [questions, List.flatMap_cons, List.mem_append, List.mem_map] at listed
    apply inductionHypothesis (fun q isQuestion => listed q (.inr isQuestion))
    exact step run.1 run.2 s (fun item isItem => listed _ (.inl ⟨item, isItem, rfl⟩)) start

section Uncached

variable {host : JudgeHost}

/-- The reply to a question, whenever it is put. -/
def Answers (host : JudgeHost) (spec : JudgeSpec) (item : DatasetItem) (reply : String) : Prop :=
  ∃ system user, spec.buildPrompt item = some (system, user) ∧
    host.complete 0 spec.provider spec.model system user = .ok reply

/-- A reply says the same each time it is asked for. -/
def Steady (host : JudgeHost) : Prop := ∀ n, host.complete n = host.complete 0

/-- The scores of these questions read back from their text as they are.  A double need not:
a JSON parser may read the text of one as its neighbour. -/
def ReadsBack (host : JudgeHost) (asked : List (JudgeSpec × DatasetItem)) : Prop :=
  ∀ q ∈ asked, ∀ reply, Answers host q.1 q.2 reply → ∀ value comment,
    parseScore host reply = some (value, comment) →
      ∀ text, host.writeCached { value, comment, verify := (cacheKeys q.1 q.2).2 } = some text →
        host.parseCached text = some { value, comment, verify := (cacheKeys q.1 q.2).2 }

/-- What is cached is the score of a question. -/
def Sound (host : JudgeHost) (asked : List (JudgeSpec × DatasetItem)) (s : JudgeState) : Prop :=
  ∀ key text cached, s.table[key]? = some text → host.parseCached text = some cached →
    ∃ q ∈ asked, cacheKeys q.1 q.2 = (key, cached.verify) ∧
      ∃ reply, Answers host q.1 q.2 reply ∧
        parseScore host reply = some (cached.value, cached.comment)

theorem get_eq_some_iff {s : JudgeState} {keys : String × UInt64} {cached : CachedScore} :
    s.get host keys = some cached ↔ host.fails s.accesses = false ∧
      ∃ text, s.table[keys.1]? = some text ∧ host.parseCached text = some cached ∧
        cached.verify = keys.2 := by
  unfold JudgeState.get
  simp only [Option.bind_eq_bind, Option.bind_eq_some_iff, Option.guard_eq_some',
    Option.pure_def, Option.some.injEq]
  constructor
  · rintro ⟨_, reads, text, found, c, parsed, _, agrees, rfl⟩
    exact ⟨reads, text, found, parsed, agrees⟩
  · rintro ⟨reads, text, found, parsed, agrees⟩
    exact ⟨(), reads, text, found, cached, parsed, (), agrees, rfl⟩

theorem withoutCache_get (s : JudgeState) (keys : String × UInt64) :
    s.get host.withoutCache keys = none := by
  rw [Option.eq_none_iff_forall_not_mem]
  intro cached hit
  have reads := (get_eq_some_iff.mp hit).1
  simp [JudgeHost.withoutCache] at reads

variable {asked : List (JudgeSpec × DatasetItem)}

theorem Sound.put {s : JudgeState} (sound : Sound host asked s)
    (readsBack : ReadsBack host asked)
    {q : JudgeSpec × DatasetItem} (listed : q ∈ asked) {reply : String}
    (answers : Answers host q.1 q.2 reply) {value : F64} {comment : Option String}
    (parsed : parseScore host reply = some (value, comment)) :
    Sound host asked (s.put host (cacheKeys q.1 q.2).1
      { value, comment, verify := (cacheKeys q.1 q.2).2 }) := by
  unfold JudgeState.put
  cases written : host.writeCached { value, comment, verify := (cacheKeys q.1 q.2).2 } with
  | none => exact sound
  | some stored =>
    simp only
    split_ifs
    · exact sound
    · intro key text cached found isCached
      simp only [getElem?_insert_if] at found
      split_ifs at found with here
      · cases found
        rw [readsBack q listed reply answers value comment parsed stored written] at isCached
        cases isCached
        exact ⟨q, listed, by rw [here], reply, answers, parsed⟩
      · exact sound key text cached found isCached

/-- Two questions with the same keys are the same question. -/
def Apart (asked : List (JudgeSpec × DatasetItem)) : Prop :=
  ∀ q ∈ asked, ∀ q' ∈ asked, cacheKeys q.1 q.2 = cacheKeys q'.1 q'.2 →
    buildCanon q.1 q.2 = buildCanon q'.1 q'.2

variable (steady : Steady host) (readsBack : ReadsBack host asked) (apart : Apart asked)

include steady readsBack apart

theorem scoreItem_uncached {judge : JudgeEntry} {item : DatasetItem} {s : JudgeState}
    (listed : (judge.toJudgeSpec, item) ∈ asked) (sound : Sound host asked s) (s' : JudgeState) :
    (scoreItem host judge s item).1 = (scoreItem host.withoutCache judge s' item).1 ∧
      Sound host asked (scoreItem host judge s item).2 := by
  unfold scoreItem
  cases prompt : judge.buildPrompt item with
  | none => exact ⟨rfl, sound⟩
  | some texts =>
    obtain ⟨system, user⟩ := texts
    simp only [withoutCache_get]
    -- the call has the same reply whenever it is made
    have sameHost : host.withoutCache.complete s'.calls = host.complete 0 := steady s'.calls
    rw [sameHost, steady s.calls]
    cases hit : s.get host (cacheKeys judge.toJudgeSpec item) with
    | some c =>
      -- The hit is the score of this question, as it would be asked now.
      obtain ⟨-, text, found, parsed, agrees⟩ := get_eq_some_iff.mp hit
      obtain ⟨q, isAsked, keys, reply, answers, score⟩ := sound _ _ _ found parsed
      have canon := apart q isAsked _ listed (by rw [keys, agrees])
      obtain ⟨provider, model, -, prompts⟩ := question_of_fields (canonFields_of_buildCanon canon)
      obtain ⟨system', user', isPrompt, isReply⟩ := answers
      rw [prompts, prompt] at isPrompt
      cases isPrompt
      rw [provider, model] at isReply
      have sameScore : parseScore host.withoutCache reply = some (c.value, c.comment) := score
      simp only [isReply, afterReply, sameScore]
      exact ⟨trivial, sound⟩
    | none =>
      cases isReply : host.complete 0 judge.provider judge.model system user with
      | error e => exact ⟨rfl, sound⟩
      | ok reply =>
        have sameScore : parseScore host.withoutCache reply = parseScore host reply := rfl
        simp only [afterReply, sameScore]
        cases score : parseScore host reply with
        | none => exact ⟨rfl, sound⟩
        | some found =>
          exact ⟨rfl, Sound.put (s := { s with
            accesses := s.accesses + 1, calls := s.calls + 1
            answered := s.answered ++ [cacheKeys judge.toJudgeSpec item] })
            sound readsBack listed ⟨system, user, prompt, isReply⟩ score⟩

theorem scoreEach_uncached {judge : JudgeEntry} {dataset : List DatasetItem} {s : JudgeState}
    (listed : ∀ item ∈ dataset, (judge.toJudgeSpec, item) ∈ asked) (sound : Sound host asked s)
    (s' : JudgeState) :
    (scoreEach host judge s dataset).1 = (scoreEach host.withoutCache judge s' dataset).1 ∧
      Sound host asked (scoreEach host judge s dataset).2 := by
  induction dataset generalizing s s' with
  | nil => exact ⟨rfl, sound⟩
  | cons item dataset inductionHypothesis =>
    rw [List.forall_mem_cons] at listed
    obtain ⟨same, next⟩ := scoreItem_uncached steady readsBack apart listed.1 sound s'
    unfold scoreEach
    cases here : scoreItem host judge s item with
    | mk result after =>
      cases there : scoreItem host.withoutCache judge s' item with
      | mk result' after' =>
        rw [here] at same next
        rw [there] at same
        simp only at same next
        -- the item ends the run of both, or of neither
        subst same
        cases result with
        | error e => exact ⟨rfl, next⟩
        | ok outcome =>
          obtain ⟨sameRest, last⟩ := inductionHypothesis listed.2 next after'
          simp only
          cases rest : scoreEach host judge after dataset with
          | mk results final =>
            cases rest' : scoreEach host.withoutCache judge after' dataset with
            | mk results' final' =>
              rw [rest] at sameRest last
              rw [rest'] at sameRest
              simp only at sameRest last
              subst sameRest
              cases results <;> exact ⟨rfl, last⟩

theorem scoreItems_sound {judge : JudgeEntry} {dataset : List DatasetItem} {s : JudgeState}
    (listed : ∀ item ∈ dataset, (judge.toJudgeSpec, item) ∈ asked) (sound : Sound host asked s)
    (s' : JudgeState) :
    (scoreItems host judge dataset s).1 = (scoreItems host.withoutCache judge dataset s').1 ∧
      Sound host asked (scoreItems host judge dataset s).2 := by
  have sameCheck : judge.validate host.withoutCache = judge.validate host := rfl
  unfold scoreItems
  rw [sameCheck]
  cases judge.validate host with
  | error e => exact ⟨rfl, sound⟩
  | ok _ => exact scoreEach_uncached steady readsBack apart listed sound s'

end Uncached

/-- After any runs, and with any accesses to the cache failing, a run of a judge scores the
items as if nothing were cached, where no two of the questions share both keys and their scores
read back. -/
theorem scoreItems_uncached {host : JudgeHost} (steady : Steady host)
    (runs : List (JudgeEntry × List DatasetItem)) (judge : JudgeEntry)
    (dataset : List DatasetItem)
    (readsBack : ReadsBack host (questions (runs ++ [(judge, dataset)])))
    (apart : Apart (questions (runs ++ [(judge, dataset)]))) :
    (scoreItems host judge dataset (afterRuns host runs)).1 =
      (scoreItems host.withoutCache judge dataset {}).1 := by
  have split : questions (runs ++ [(judge, dataset)]) =
      questions runs ++ dataset.map (fun item => (judge.toJudgeSpec, item)) := by
    simp [questions]
  rw [split] at apart readsBack
  have empty : Sound host
      (questions runs ++ dataset.map (fun item => (judge.toJudgeSpec, item))) {} := by
    intro key text cached found
    simp at found
  have sound := runs_induction (P := Sound host _)
    (fun _ _ _ listed sound => (scoreItems_sound steady readsBack apart listed sound {}).2)
    (fun q isQuestion => List.mem_append_left _ isQuestion) empty
  refine (scoreItems_sound steady readsBack apart (fun item isItem => ?_) sound {}).1
  exact List.mem_append_right _ (List.mem_map_of_mem isItem)

/-! ## What is asked of the model -/

/-- Nothing fails to be cached. -/
structure Reliable (host : JudgeHost) : Prop where
  noFaults : ∀ n, host.fails n = false
  scored : ∀ n provider model system user reply,
    host.complete n provider model system user = .ok reply →
      ∃ value comment, parseScore host reply = some (value, comment)
  /-- A score that is read back as another still has its second hash. -/
  kept : ∀ reply value comment verify, parseScore host reply = some (value, comment) →
    ∃ text, host.writeCached { value, comment, verify } = some text ∧
      ∃ cached, host.parseCached text = some cached ∧ cached.verify = verify

/-- Where two questions share a key of the cache, they share the second hash as well. -/
def KeysApart (asked : List (JudgeSpec × DatasetItem)) : Prop :=
  ∀ q ∈ asked, ∀ q' ∈ asked, (cacheKeys q.1 q.2).1 = (cacheKeys q'.1 q'.2).1 →
    cacheKeys q.1 q.2 = cacheKeys q'.1 q'.2

section Asked

variable {host : JudgeHost} {asked : List (JudgeSpec × DatasetItem)} (reliable : Reliable host)

def Cached (host : JudgeHost) (s : JudgeState) (keys : String × UInt64) : Prop :=
  ∃ text cached, s.table[keys.1]? = some text ∧ host.parseCached text = some cached ∧
    cached.verify = keys.2

include reliable

theorem get_isSome_iff (s : JudgeState) (keys : String × UInt64) :
    (s.get host keys).isSome ↔ Cached host s keys := by
  rw [Option.isSome_iff_exists]
  simp only [get_eq_some_iff, reliable.noFaults, true_and]
  exact exists_comm

theorem get_eq_none_iff (s : JudgeState) (keys : String × UInt64) :
    s.get host keys = none ↔ ¬ Cached host s keys := by
  rw [← get_isSome_iff reliable]
  simp

/-- What becomes of an item. -/
theorem scoreItem_cases {judge : JudgeEntry} {s next : JudgeState} {item : DatasetItem}
    {result : Except String (Option ItemScore)}
    (step : scoreItem host judge s item = (result, next)) :
    ((judge.buildPrompt item = none ∨ Cached host s (cacheKeys judge.toJudgeSpec item)) ∧
        next.table = s.table ∧ next.calls = s.calls ∧ next.answered = s.answered) ∨
      (judge.buildPrompt item ≠ none ∧ ¬ Cached host s (cacheKeys judge.toJudgeSpec item) ∧
        next.calls = s.calls + 1 ∧
        ((∃ e, result = .error e) ∧ next.table = s.table ∧ next.answered = s.answered ∨
          ∃ text cached,
            next.table = s.table.insert (cacheKeys judge.toJudgeSpec item).1 text ∧
            host.parseCached text = some cached ∧
            cached.verify = (cacheKeys judge.toJudgeSpec item).2 ∧
            next.answered = s.answered ++ [cacheKeys judge.toJudgeSpec item])) := by
  have isResult := congrArg Prod.fst step
  have isNext := congrArg Prod.snd step
  simp only at isResult isNext
  subst isResult isNext
  clear step
  unfold scoreItem
  cases prompt : judge.buildPrompt item with
  | none => exact .inl ⟨.inl rfl, rfl, rfl, rfl⟩
  | some texts =>
    obtain ⟨system, user⟩ := texts
    simp only
    cases hit : s.get host (cacheKeys judge.toJudgeSpec item) with
    | some c =>
      have cached := (get_isSome_iff reliable s _).mp (by rw [hit]; rfl)
      exact .inl ⟨.inr cached, rfl, rfl, rfl⟩
    | none =>
      -- only here is the model asked
      have missed := (get_eq_none_iff reliable s _).mp hit
      refine .inr ⟨by simp, missed, ?_⟩
      cases isReply : host.complete s.calls judge.provider judge.model system user with
      | error e => exact ⟨rfl, .inl ⟨⟨_, rfl⟩, rfl, rfl⟩⟩
      | ok reply =>
        obtain ⟨value, comment, score⟩ := reliable.scored _ _ _ _ _ _ isReply
        obtain ⟨text, written, cached, parsed, verify⟩ :=
          reliable.kept _ _ _ (cacheKeys judge.toJudgeSpec item).2 score
        simp only [afterReply, score, JudgeState.put, written, reliable.noFaults,
          Bool.false_eq_true, if_false]
        exact ⟨trivial, .inr ⟨text, cached, rfl, parsed, verify, trivial⟩⟩

variable (apart : KeysApart asked)

include apart

omit reliable in
/-- An insertion under the key of a question leaves every question cached that was. -/
theorem Cached.insert {s next : JudgeState} {q q' : JudgeSpec × DatasetItem} (isQ : q ∈ asked)
    (isQ' : q' ∈ asked) {text : String} {cached : CachedScore}
    (table : next.table = s.table.insert (cacheKeys q.1 q.2).1 text)
    (parsed : host.parseCached text = some cached)
    (verify : cached.verify = (cacheKeys q.1 q.2).2)
    (before : Cached host s (cacheKeys q'.1 q'.2)) : Cached host next (cacheKeys q'.1 q'.2) := by
  unfold Cached
  rw [table, getElem?_insert_if]
  split_ifs with same
  · exact ⟨text, cached, rfl, parsed, by rw [verify, apart q isQ q' isQ' same.symm]⟩
  · exact before

/-- What some runs have done so far: each answered question is cached, and was put once. -/
structure Settled (host : JudgeHost) (asked : List (JudgeSpec × DatasetItem)) (s : JudgeState) :
    Prop where
  once : s.answered.Nodup
  cached : ∀ keys ∈ s.answered, (∃ q ∈ asked, cacheKeys q.1 q.2 = keys) ∧ Cached host s keys

/-- What is cached stays cached. -/
def Keeps (host : JudgeHost) (asked : List (JudgeSpec × DatasetItem)) (s next : JudgeState) :
    Prop :=
  ∀ q ∈ asked, Cached host s (cacheKeys q.1 q.2) → Cached host next (cacheKeys q.1 q.2)

theorem scoreItem_settled {judge : JudgeEntry} {item : DatasetItem} {s : JudgeState}
    (listed : (judge.toJudgeSpec, item) ∈ asked) (settled : Settled host asked s) :
    Settled host asked (scoreItem host judge s item).2 ∧
      Keeps host asked s (scoreItem host judge s item).2 := by
  -- a step that writes nothing keeps all of it
  have unchanged {next : JudgeState} (table : next.table = s.table)
      (answered : next.answered = s.answered) :
      Settled host asked next ∧ Keeps host asked s next := by
    refine ⟨⟨answered ▸ settled.once, ?_⟩, ?_⟩
    · unfold Cached
      rw [table, answered]
      exact settled.cached
    · unfold Keeps Cached
      rw [table]
      exact fun _ _ before => before
  cases step : scoreItem host judge s item with
  | mk result next =>
  obtain ⟨-, table, -, answered⟩ | ⟨-, missed, -, ⟨-, table, answered⟩ | inserted⟩ :=
    scoreItem_cases reliable step
  · exact unchanged table answered
  · exact unchanged table answered
  · obtain ⟨text, cached, table, parsed, verify, answered⟩ := inserted
    have keeps : Keeps host asked s next :=
      fun q isQ before => Cached.insert apart listed isQ table parsed verify before
    refine ⟨⟨?_, ?_⟩, keeps⟩
    · -- An answered question would have been cached.
      rw [answered, ← List.concat_eq_append, List.nodup_concat]
      exact ⟨fun again => missed (settled.cached _ again).2, settled.once⟩
    · intro keys isAnswered
      rw [answered, List.mem_append, List.mem_singleton] at isAnswered
      obtain before | rfl := isAnswered
      · obtain ⟨⟨q, isQ, rfl⟩, isCached⟩ := settled.cached keys before
        exact ⟨⟨q, isQ, rfl⟩, keeps q isQ isCached⟩
      · refine ⟨⟨_, listed, rfl⟩, text, cached, ?_, parsed, verify⟩
        rw [table, getElem?_insert_if, if_pos rfl]

omit reliable apart in
theorem Keeps.trans {s between next : JudgeState} (first : Keeps host asked s between)
    (second : Keeps host asked between next) : Keeps host asked s next :=
  fun q isQ before => second q isQ (first q isQ before)

/-- A run of a judge, item by item. -/
theorem scoreEach_settled {judge : JudgeEntry} {dataset : List DatasetItem} {s : JudgeState}
    (listed : ∀ item ∈ dataset, (judge.toJudgeSpec, item) ∈ asked)
    (settled : Settled host asked s) :
    Settled host asked (scoreEach host judge s dataset).2 ∧
      Keeps host asked s (scoreEach host judge s dataset).2 := by
  induction dataset generalizing s with
  | nil => exact ⟨settled, fun _ _ before => before⟩
  | cons item dataset inductionHypothesis =>
    rw [List.forall_mem_cons] at listed
    obtain ⟨next, keeps⟩ := scoreItem_settled reliable apart listed.1 settled
    unfold scoreEach
    cases here : scoreItem host judge s item with
    | mk result after =>
      rw [here] at next keeps
      cases result with
      | error e => exact ⟨next, keeps⟩
      | ok outcome =>
        obtain ⟨last, keepsLast⟩ := inductionHypothesis listed.2 next
        simp only
        cases rest : scoreEach host judge after dataset with
        | mk results final =>
          rw [rest] at last keepsLast
          cases results <;> exact ⟨last, keeps.trans keepsLast⟩

theorem scoreItems_settled {judge : JudgeEntry} {dataset : List DatasetItem} {s : JudgeState}
    (listed : ∀ item ∈ dataset, (judge.toJudgeSpec, item) ∈ asked)
    (settled : Settled host asked s) :
    Settled host asked (scoreItems host judge dataset s).2 := by
  unfold scoreItems
  cases judge.validate host with
  | error e => exact settled
  | ok _ => exact (scoreEach_settled reliable apart listed settled).1

end Asked

/-- Over any runs the model answers each question once. -/
theorem answered_nodup {host : JudgeHost} (reliable : Reliable host)
    (runs : List (JudgeEntry × List DatasetItem)) (apart : KeysApart (questions runs)) :
    (afterRuns host runs).answered.Nodup := by
  have start : Settled host (questions runs) {} := ⟨List.nodup_nil, by simp⟩
  have settled := runs_induction (P := Settled host (questions runs))
    (fun _ _ _ listed settled => scoreItems_settled reliable apart listed settled)
    (fun q isQuestion => isQuestion) start
  exact settled.once

/-! ## What an estimate promises -/

section Estimate

variable {host : JudgeHost} (judge : JudgeEntry) (s : JudgeState)

/-- Has the item a question? -/
def applies (item : DatasetItem) : Bool := (judge.buildPrompt item).isSome

variable (host) in
/-- Would its question be put to the model? -/
def misses (item : DatasetItem) : Bool :=
  applies judge item && (s.get host (cacheKeys judge.toJudgeSpec item)).isNone

theorem foldl_estimateItem (dataset : List DatasetItem) (acc : Nat × Nat × Nat) :
    let counted := dataset.foldl (estimateItem host judge s) acc
    counted.1 = acc.1 + dataset.countP (misses host judge s) ∧
      counted.1 + counted.2.1 = acc.1 + acc.2.1 + dataset.countP (applies judge) := by
  induction dataset generalizing acc with
  | nil => simp
  | cons item dataset inductionHypothesis =>
    have rest := inductionHypothesis (estimateItem host judge s acc item)
    simp only [List.foldl_cons, List.countP_cons] at rest ⊢
    rw [rest.2, rest.1]
    unfold estimateItem misses applies
    cases judge.buildPrompt item with
    | none => simp
    | some texts =>
      obtain ⟨system, user⟩ := texts
      cases s.get host (cacheKeys judge.toJudgeSpec item) with
      | none => simp; omega
      | some cached => simp; omega

theorem estimateJudge_counts {dataset : List DatasetItem} {e : JudgeEstimate}
    (estimated : estimateJudge host judge dataset s = .ok e) :
    e.calls = dataset.countP (misses host judge s) ∧
      e.calls + e.cached = dataset.countP (applies judge) := by
  unfold estimateJudge at estimated
  obtain ⟨_, -, rest⟩ := bind_eq_ok.mp estimated
  cases rest
  have counted := @foldl_estimateItem host judge s dataset (0, 0, 0)
  simpa using counted

theorem misses_iff (reliable : Reliable host) (item : DatasetItem) :
    misses host judge s item = true ↔
      judge.buildPrompt item ≠ none ∧ ¬ Cached host s (cacheKeys judge.toJudgeSpec item) := by
  rw [misses, applies, Bool.and_eq_true, Option.isNone_iff_eq_none, get_eq_none_iff reliable,
    Option.isSome_iff_ne_none]

variable {judge s}

/-- A run calls the model for no item that was not missing when it was estimated. -/
theorem scoreEach_calls (reliable : Reliable host) {asked : List (JudgeSpec × DatasetItem)}
    (apart : KeysApart asked) {dataset : List DatasetItem} {now : JudgeState}
    (listed : ∀ item ∈ dataset, (judge.toJudgeSpec, item) ∈ asked)
    (settled : Settled host asked now) (keeps : Keeps host asked s now) :
    (scoreEach host judge now dataset).2.calls ≤
      now.calls + dataset.countP (misses host judge s) := by
  induction dataset generalizing now with
  | nil => exact Nat.le_add_right _ _
  | cons item dataset inductionHypothesis =>
    rw [List.forall_mem_cons] at listed
    obtain ⟨next, keepsNext⟩ := scoreItem_settled reliable apart listed.1 settled
    rw [List.countP_cons]
    unfold scoreEach
    cases here : scoreItem host judge now item with
    | mk result after =>
      rw [here] at next keepsNext
      have step : after.calls ≤ now.calls + if misses host judge s item = true then 1 else 0 := by
        obtain ⟨-, -, calls, -⟩ | ⟨prompt, missed, calls, -⟩ := scoreItem_cases reliable here
        · exact calls.le.trans (Nat.le_add_right _ _)
        -- a question missed now was missed at the start, for nothing leaves the table
        · have before : misses host judge s item = true :=
            (misses_iff judge s reliable item).mpr
              ⟨prompt, fun cached => missed (keeps (judge.toJudgeSpec, item) listed.1 cached)⟩
          rw [if_pos before, calls]
      cases result with
      | error e =>
        simp only at step ⊢
        omega
      | ok outcome =>
        have rest := inductionHypothesis listed.2 next (keeps.trans keepsNext)
        simp only at step ⊢
        cases ran : scoreEach host judge after dataset with
        | mk results final =>
          rw [ran] at rest
          cases results <;> (simp only at rest ⊢; omega)

/-- After a run that came to its end every question is cached. -/
theorem scoreEach_cached (reliable : Reliable host) {asked : List (JudgeSpec × DatasetItem)}
    (apart : KeysApart asked) {dataset : List DatasetItem} {now : JudgeState}
    (listed : ∀ item ∈ dataset, (judge.toJudgeSpec, item) ∈ asked)
    (settled : Settled host asked now) {outcomes : List (Option ItemScore)}
    (done : (scoreEach host judge now dataset).1 = .ok outcomes) :
    ∀ item ∈ dataset, misses host judge (scoreEach host judge now dataset).2 item = false := by
  induction dataset generalizing now outcomes with
  | nil => simp
  | cons item dataset inductionHypothesis =>
    rw [List.forall_mem_cons] at listed
    obtain ⟨next, -⟩ := scoreItem_settled reliable apart listed.1 settled
    unfold scoreEach at done ⊢
    cases here : scoreItem host judge now item with
    | mk result after =>
      rw [here] at next done
      have known := scoreItem_cases reliable here
      cases result with
      | error e => cases done
      | ok outcome =>
        simp only at done ⊢
        have keepsLast := (scoreEach_settled reliable apart listed.2 next).2
        cases ran : scoreEach host judge after dataset with
        | mk results final =>
          rw [ran] at done keepsLast
          cases results with
          | error e => cases done
          | ok outcomes =>
            have rest := inductionHypothesis listed.2 next (by rw [ran])
            rw [ran] at rest
            rw [List.forall_mem_cons]
            refine ⟨?_, rest⟩
            rw [← Bool.not_eq_true, misses_iff _ _ reliable]
            rintro ⟨prompt, missed⟩
            refine missed (keepsLast (judge.toJudgeSpec, item) listed.1 ?_)
            -- it was cached already, the run failed on it, or its reply was cached
            obtain ⟨noPrompt | cached, table, -⟩ | ⟨-, -, -, failed | inserted⟩ := known
            · exact absurd noPrompt prompt
            · unfold Cached
              rw [table]
              exact cached
            · obtain ⟨⟨e, isError⟩, -⟩ := failed
              cases isError
            · obtain ⟨text, cached, table, parsed, verify, -⟩ := inserted
              refine ⟨text, cached, ?_, parsed, verify⟩
              rw [table, getElem?_insert_if, if_pos rfl]

end Estimate

/-- After any runs, a run makes no more calls than were estimated for it; once it came to its
end, a second one is estimated at none. -/
theorem estimateJudge_bounds {host : JudgeHost} (reliable : Reliable host)
    (runs : List (JudgeEntry × List DatasetItem)) (judge : JudgeEntry)
    (dataset : List DatasetItem) (apart : KeysApart (questions (runs ++ [(judge, dataset)])))
    {e : JudgeEstimate}
    (estimated : estimateJudge host judge dataset (afterRuns host runs) = .ok e) :
    let before := afterRuns host runs
    let run := scoreItems host judge dataset before
    run.2.calls ≤ before.calls + e.calls ∧
      ∀ outcomes, run.1 = .ok outcomes → ∃ e', estimateJudge host judge dataset run.2 = .ok e' ∧
        e'.calls = 0 ∧ e'.cached = e.calls + e.cached := by
  intro before run
  have split : questions (runs ++ [(judge, dataset)]) =
      questions runs ++ dataset.map (fun item => (judge.toJudgeSpec, item)) := by
    simp [questions]
  rw [split] at apart
  have listed : ∀ item ∈ dataset, (judge.toJudgeSpec, item) ∈
      questions runs ++ dataset.map (fun item => (judge.toJudgeSpec, item)) :=
    fun item isItem => List.mem_append_right _ (List.mem_map_of_mem isItem)
  have start : Settled host
      (questions runs ++ dataset.map (fun item => (judge.toJudgeSpec, item))) {} :=
    ⟨List.nodup_nil, by simp⟩
  -- the earlier runs leave a table this run can rely on
  have settled := runs_induction (P := Settled host _)
    (fun _ _ _ listed settled => scoreItems_settled reliable apart listed settled)
    (fun q isQuestion => List.mem_append_left _ isQuestion) start
  obtain ⟨calls, hits⟩ := estimateJudge_counts judge before estimated
  have valid : judge.validate host = .ok () := by
    obtain ⟨_, valid, -⟩ := bind_eq_ok.mp estimated
    exact valid
  have isRun : run = scoreEach host judge before dataset := by
    simp only [run, scoreItems, valid]
  rw [isRun]
  constructor
  · rw [calls]
    exact scoreEach_calls reliable apart listed settled (fun _ _ kept => kept)
  · intro outcomes done
    -- after the whole run no question misses
    have missing := scoreEach_cached reliable apart listed settled done
    obtain ⟨e', again⟩ : ∃ e', estimateJudge host judge dataset
        (scoreEach host judge before dataset).2 = .ok e' := by
      unfold estimateJudge
      rw [valid]
      exact ⟨_, rfl⟩
    obtain ⟨calls', hits'⟩ := estimateJudge_counts judge _ again
    have noCall : e'.calls = 0 := by
      rw [calls', List.countP_eq_zero]
      intro item isItem
      exact ne_true_of_eq_false (missing item isItem)
    exact ⟨e', again, noCall, by omega⟩

/-! ## A judge that always says a half -/

def halfReply : String := "\x7b\"score\": 0.5\x7d"

def cachedFront : String := "\x7b\"value\":0.5,\"comment\":null,\"verify\":"

def halfHost : JudgeHost :=
  { float := Floats.exact
    readJson := fun text =>
      if text = halfReply then some (.obj [("score", .float (1 / 2))]) else none
    debugText := fun s => "\"" ++ s ++ "\""
    display := fun _ => "0.5"
    complete := fun _ _ _ _ _ => .ok halfReply
    writeCached := fun c =>
      if c.value = .finite (1 / 2) ∧ c.comment = none then
        some (String.ofList
          (cachedFront.toList ++ Nat.toDigits 10 c.verify.toNat ++ ['\x7d']))
      else none
    parseCached := fun text =>
      let digits := (text.toList.drop cachedFront.toList.length).dropLast
      some
        { value := .finite (1 / 2), comment := none
          verify := UInt64.ofNat (Nat.ofDigitChars 10 digits 0) }
    fails := fun _ => false }

def toxicity : JudgeEntry :=
  { rail := .toxicity, provider := .anthropic, model := "claude-haiku", passThreshold := .finite 1 }

theorem halfHost_parseCached (verify : UInt64) :
    halfHost.parseCached (String.ofList
      (cachedFront.toList ++ Nat.toDigits 10 verify.toNat ++ ['\x7d'])) =
      some { value := .finite (1 / 2), comment := none, verify } := by
  simp only [halfHost, String.toList_ofList, List.append_assoc, List.drop_left,
    List.dropLast_concat]
  rw [Nat.ofDigitChars_toDigits (by decide) (by decide), UInt64.ofNat_toNat]

theorem halfHost_extractJson {reply : String} {v : Json}
    (found : extractJson halfHost reply = some v) : v = .obj [("score", .float (1 / 2))] := by
  simp only [extractJson, halfHost, Option.or_eq_some_iff, Option.bind_eq_some_iff] at found
  obtain whole | ⟨-, inner, -, part⟩ := found
  · split_ifs at whole
    exact (Option.some.inj whole).symm
  · split_ifs at part
    exact (Option.some.inj part).symm

theorem halfHost_parseScore {reply : String} {value : F64} {comment : Option String}
    (parsed : parseScore halfHost reply = some (value, comment)) :
    value = .finite (1 / 2) ∧ comment = none := by
  unfold parseScore at parsed
  obtain ⟨v, found, parsed⟩ := Option.bind_eq_some_iff.mp parsed
  rw [halfHost_extractJson found] at parsed
  norm_num [Json.get, Json.asF64, clampUnit] at parsed
  exact ⟨parsed.1.symm, parsed.2.symm⟩

theorem halfHost_halfReply : parseScore halfHost halfReply = some (.finite (1 / 2), none) := by
  have whole : trim halfReply = halfReply := by decide
  have found : extractJson halfHost halfReply = some (.obj [("score", .float (1 / 2))]) := by
    simp [extractJson, whole, halfHost]
  unfold parseScore
  rw [found]
  norm_num [Json.get, Json.asF64, Json.asStr, clampUnit]

theorem reliable_halfHost : Reliable halfHost where
  noFaults _ := rfl
  scored _ _ _ _ _ reply isReply := by
    cases isReply
    exact ⟨.finite (1 / 2), none, halfHost_halfReply⟩
  kept reply value comment verify parsed := by
    obtain ⟨rfl, rfl⟩ := halfHost_parseScore parsed
    exact ⟨_, by simp [halfHost], _, halfHost_parseCached verify, rfl⟩

def politeItem : DatasetItem := { output := "Thank you." }

theorem halfHost_valid : toxicity.validate halfHost = .ok () := by
  simp [JudgeEntry.validate, toxicity, atLeast, Usage.lessThan]

theorem scoreItems_uncached_half :
    (scoreItems halfHost toxicity [politeItem]
        (afterRuns halfHost [(toxicity, [politeItem])])).1 =
      (scoreItems halfHost.withoutCache toxicity [politeItem] {}).1 := by
  have readsBack : ReadsBack halfHost
      (questions ([(toxicity, [politeItem])] ++ [(toxicity, [politeItem])])) := by
    intro q _ reply _ value comment parsed text written
    obtain ⟨rfl, rfl⟩ := halfHost_parseScore parsed
    simp only [halfHost, true_and, if_true, Option.some.injEq] at written
    rw [← written]
    exact halfHost_parseCached _
  have apart : Apart (questions ([(toxicity, [politeItem])] ++ [(toxicity, [politeItem])])) := by
    intro q isQ q' isQ' _
    simp only [questions, List.singleton_append, List.flatMap_cons, List.flatMap_nil,
      List.map_cons, List.map_nil, List.append_nil, List.mem_cons, List.not_mem_nil,
      or_false, or_self] at isQ isQ'
    rw [isQ, isQ']
  exact scoreItems_uncached (fun _ => rfl) _ toxicity [politeItem] readsBack apart

theorem keysApart_one (runs : List (JudgeEntry × List DatasetItem))
    (one : ∀ q ∈ questions runs, q = (toxicity.toJudgeSpec, politeItem)) :
    KeysApart (questions runs) := by
  intro q isQ q' isQ' _
  rw [one q isQ, one q' isQ']

theorem answered_nodup_half :
    (afterRuns halfHost [(toxicity, [politeItem]), (toxicity, [politeItem])]).answered.Nodup :=
  answered_nodup reliable_halfHost _ (keysApart_one _ (by simp [questions]))

theorem estimateJudge_bounds_half : ∃ e,
    estimateJudge halfHost toxicity [politeItem] {} = .ok e ∧
      (scoreItems halfHost toxicity [politeItem] {}).2.calls ≤ e.calls := by
  obtain ⟨e, estimated⟩ : ∃ e, estimateJudge halfHost toxicity [politeItem] {} = .ok e := by
    unfold estimateJudge
    rw [halfHost_valid]
    exact ⟨_, rfl⟩
  have bounds := estimateJudge_bounds reliable_halfHost [] toxicity [politeItem]
    (keysApart_one _ (by simp [questions])) estimated
  exact ⟨e, estimated, by simpa [afterRuns] using bounds.1⟩

end Evald.Judge
