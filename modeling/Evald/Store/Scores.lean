import Evald.Model
import Evald.Lib.Multimap
import Evald.Lib.Newest

/-! # The score store

Two tables: the scores by id, as text, and the ids of every target.  A batch is one
transaction, so a failure at any score of it leaves both as they were.  `byTargetKey_exact`
says that after any calls the second table is exact: a target's scores are the current
ones attached to it, each as its text reads back.
-/

namespace Evald.Store

open Evald.Lib

/-- The key of a target in the second table. -/
def targetKey : ScoreTarget → String
  | .trace id => "trace:" ++ id
  | .span id => "span:" ++ id
  | .session id => "session:" ++ id
  | .run id => "run:" ++ id

theorem targetKey_inj {a b : ScoreTarget} (same : targetKey a = targetKey b) : a = b := by
  have text := congrArg String.toList same
  clear same
  cases a <;> cases b <;> simp [targetKey, String.toList_append, String.toList_inj] at text ⊢
  all_goals exact text

/-- The text of a score. -/
structure ScoreCodec where
  write : Score → Option String
  parse : String → Option Score

/-- A score as its text reads back.  A double may come back as one next to it, and one that is
not finite does not come back. -/
def ScoreCodec.readBack (codec : ScoreCodec) (score : Score) : Score :=
  ((codec.write score).bind codec.parse).getD score

/-- The text of the score is read, with the score's id, target and time. -/
def ScoreCodec.Keeps (codec : ScoreCodec) (score : Score) : Prop :=
  ∀ text, codec.write score = some text → ∃ read, codec.parse text = some read ∧
    read.id = score.id ∧ read.target = score.target ∧ read.tsUnixNano = score.tsUnixNano

theorem ScoreCodec.Keeps.parse {codec : ScoreCodec} {score : Score} {text : String}
    (keeps : codec.Keeps score) (written : codec.write score = some text) :
    codec.parse text = some (codec.readBack score) := by
  obtain ⟨read, parsed, -⟩ := keeps text written
  rw [ScoreCodec.readBack, written, Option.bind_some, parsed, Option.getD_some]

theorem ScoreCodec.Keeps.readBack {codec : ScoreCodec} {score : Score} (keeps : codec.Keeps score) :
    (codec.readBack score).id = score.id ∧ (codec.readBack score).target = score.target ∧
      (codec.readBack score).tsUnixNano = score.tsUnixNano := by
  cases written : codec.write score with
  | none =>
    rw [ScoreCodec.readBack, written]
    exact ⟨rfl, rfl, rfl⟩
  | some text =>
    obtain ⟨read, parsed, same⟩ := keeps text written
    rw [ScoreCodec.readBack, written, Option.bind_some, parsed]
    exact same

structure ScoreStore where
  scores : Std.ExtTreeMap String String := ∅
  byTarget : Multimap String String := ∅

namespace ScoreStore

variable (codec : ScoreCodec)

/-- The target an id is stored under. -/
def oldKey (tables : ScoreStore) (id : String) : Option (Option String) :=
  match tables.scores[id]? with
  | some existing => (codec.parse existing).map (fun s => some (targetKey s.target))
  | none => some none

/-- Where the id is known under another target, that mapping is removed. -/
def withoutOld (byTarget : Multimap String String) (old : Option String) (newKey id : String) :
    Multimap String String :=
  match old with
  | some old => if old ≠ newKey then byTarget.removePair old id else byTarget
  | none => byTarget

/-- One score of a batch. -/
def putOne (tables : ScoreStore) (score : Score) : Option ScoreStore := do
  let newKey := targetKey score.target
  let old ← tables.oldKey codec score.id
  let byTarget := withoutOld tables.byTarget old newKey score.id
  let text ← codec.write score
  pure
    { scores := tables.scores.insert score.id text
      byTarget := byTarget.insertPair newKey score.id }

/-- A call of `put_batch`; the database fails at the scores, or the commit, `fault` names. -/
structure PutBatch where
  scores : List Score
  fault : Nat → Bool := fun _ => false

def putFrom (fault : Nat → Bool) : Nat → ScoreStore → List Score → Option ScoreStore
  | i, tables, [] => if fault i then none else some tables
  | i, tables, score :: rest =>
    if fault i then none
    else (tables.putOne codec score).bind (fun tables => putFrom fault (i + 1) tables rest)

/-- The tables a call commits; an empty batch opens no transaction. -/
def putBatch (store : ScoreStore) (batch : PutBatch) : Option ScoreStore :=
  if batch.scores.isEmpty then some store else putFrom codec batch.fault 0 store batch.scores

/-- An aborted transaction leaves the tables as they were. -/
def afterPut (store : ScoreStore) (batch : PutBatch) : ScoreStore :=
  (store.putBatch codec batch).getD store

def get (store : ScoreStore) (id : String) : Option (Option Score) :=
  match store.scores[id]? with
  | some text => (codec.parse text).map some
  | none => some none

def sortNewestFirst (scores : List Score) : List Score := newestFirst Score.tsUnixNano scores

/-- The scores of a target, newest first. -/
def byTargetKey (store : ScoreStore) (key : String) : Option (List Score) := do
  let found ← (store.byTarget.valuesOf key).toList.mapM (store.get codec)
  pure (sortNewestFirst found.reduceOption)

/-- The newest scores of all targets. -/
def list (store : ScoreStore) (limit : Nat) : Option (List Score) := do
  let all ← store.scores.values.mapM codec.parse
  pure ((sortNewestFirst all).take limit)

/-! ## What the tables stand for -/

/-- The score of each id: the last one written. -/
abbrev Current := String → Option Score

def Current.write (current : Current) (score : Score) : Current :=
  Function.update current score.id (some score)

def Current.afterPut (current : Current) (store : ScoreStore) (batch : PutBatch) : Current :=
  if (store.putBatch codec batch).isSome then batch.scores.foldl Current.write current
  else current

variable {codec}

/-- The tables hold exactly the current scores, each under its own target. -/
structure Exact (codec : ScoreCodec) (store : ScoreStore) (current : Current) : Prop where
  named : ∀ id score, current id = some score → score.id = id
  kept : ∀ id score, current id = some score → codec.Keeps score
  scores : ∀ id, (store.scores[id]?).map codec.parse =
    (current id).map (fun score => some (codec.readBack score))
  targets : ∀ key id, store.byTarget.Holds key id ↔
    ∃ score, current id = some score ∧ targetKey score.target = key

theorem Exact.get {store : ScoreStore} {current : Current} (isExact : Exact codec store current)
    (id : String) : store.get codec id = some ((current id).map codec.readBack) := by
  have stored := isExact.scores id
  unfold ScoreStore.get
  cases found : store.scores[id]? with
  | none =>
    rw [found] at stored
    cases known : current id with
    | none => rfl
    | some score => simp [known] at stored
  | some text =>
    rw [found] at stored
    cases known : current id with
    | none => simp [known] at stored
    | some score =>
      simp only [known, Option.map_some, Option.some.injEq] at stored
      simp only [stored, Option.map_some]

theorem Exact.oldKey {store : ScoreStore} {current : Current} (isExact : Exact codec store current)
    (id : String) :
    store.oldKey codec id = some ((current id).map (fun s => targetKey s.target)) := by
  have found := isExact.get id
  unfold ScoreStore.get at found
  unfold ScoreStore.oldKey
  cases stored : store.scores[id]? with
  | none =>
    simp only [stored, Option.some.injEq] at found
    cases known : current id with
    | none => rfl
    | some score => simp [known] at found
  | some text =>
    simp only [stored, Option.map_eq_some_iff] at found
    obtain ⟨score, parsed, known⟩ := found
    obtain ⟨written, isCurrent, rfl⟩ := Option.map_eq_some_iff.mp known.symm
    simp only [parsed, isCurrent, Option.map_some, (isExact.kept id written isCurrent).readBack.2.1]

/-- Without its old mapping an id is held under no other target. -/
theorem Exact.withoutOld {store : ScoreStore} {current : Current}
    (isExact : Exact codec store current) (newKey id : String) {key id' : String} :
    (withoutOld store.byTarget ((current id).map (fun s => targetKey s.target)) newKey id).Holds
        key id' ↔
      (∃ score, current id' = some score ∧ targetKey score.target = key) ∧
        (id' = id → key = newKey) := by
  unfold ScoreStore.withoutOld
  cases known : current id with
  | none =>
    simp only [Option.map_none]
    rw [isExact.targets]
    refine (and_iff_left_of_imp ?_).symm
    rintro ⟨score, isScore, _⟩ here
    rw [here, known] at isScore
    cases isScore
  | some before =>
    simp only [Option.map_some]
    -- only an id that moves to another target gives up its old mapping
    by_cases moved : targetKey before.target ≠ newKey
    · rw [if_pos moved, Multimap.holds_removePair, isExact.targets, and_comm]
      refine and_congr_right ?_
      rintro ⟨score, isScore, target⟩
      constructor
      · intro other here
        rw [here, known, Option.some.injEq] at isScore
        exact absurd ⟨by rw [isScore, target], here.symm⟩ other
      · rintro onlyNew ⟨sameKey, sameId⟩
        exact moved (sameKey.trans (onlyNew sameId.symm))
    · rw [if_neg moved, isExact.targets]
      refine (and_iff_left_of_imp ?_).symm
      rintro ⟨score, isScore, target⟩ here
      rw [here, known, Option.some.injEq] at isScore
      rw [← target, ← isScore]
      exact not_ne_iff.mp moved

theorem Exact.putOne {store tables : ScoreStore} {current : Current} {score : Score}
    (isExact : Exact codec store current) (keeps : codec.Keeps score)
    (put : store.putOne codec score = some tables) : Exact codec tables (current.write score) := by
  unfold ScoreStore.putOne at put
  rw [isExact.oldKey] at put
  cases written : codec.write score with
  | none => simp [written] at put
  | some text =>
    simp only [written, Option.bind_eq_bind, Option.bind_some, Option.pure_def,
      Option.some.injEq] at put
    subst put
    -- named, kept, scores, targets: each for the id that is written and for the others
    constructor
    · intro id other known
      unfold Current.write at known
      rw [Function.update_apply] at known
      by_cases here : id = score.id
      · rw [if_pos here, Option.some.injEq] at known
        rw [← known, here]
      · rw [if_neg here] at known
        exact isExact.named id other known
    · intro id other known
      unfold Current.write at known
      rw [Function.update_apply] at known
      by_cases here : id = score.id
      · rw [if_pos here, Option.some.injEq] at known
        exact known ▸ keeps
      · rw [if_neg here] at known
        exact isExact.kept id other known
    · intro id
      unfold Current.write
      rw [Function.update_apply, getElem?_insert_if]
      by_cases here : id = score.id
      · rw [if_pos here, if_pos here, Option.map_some, Option.map_some, keeps.parse written]
      · rw [if_neg here, if_neg here]
        exact isExact.scores id
    · intro key id
      rw [Multimap.holds_insertPair, isExact.withoutOld]
      unfold Current.write
      rw [Function.update_apply]
      by_cases here : id = score.id
      · subst here
        simp only [if_true, Option.some.injEq, exists_eq_left', and_true, true_implies]
        constructor
        · intro held
          exact held.elim (fun same => same) (fun before => before.2.symm)
        · exact .inl
      · rw [if_neg here]
        have other : ¬ (targetKey score.target = key ∧ score.id = id) :=
          fun same => here same.2.symm
        simp only [other, here, false_or, false_implies, and_true]

theorem Exact.putFrom {fault : Nat → Bool} {scores : List Score} {i : Nat}
    {store tables : ScoreStore} {current : Current} (isExact : Exact codec store current)
    (keeps : ∀ score ∈ scores, codec.Keeps score)
    (put : putFrom codec fault i store scores = some tables) :
    Exact codec tables (scores.foldl Current.write current) := by
  induction scores generalizing i store current with
  | nil =>
    unfold ScoreStore.putFrom at put
    split at put
    · cases put
    · cases put
      exact isExact
  | cons score rest inductionHypothesis =>
    unfold ScoreStore.putFrom at put
    split at put
    · cases put
    · obtain ⟨next, one, later⟩ := Option.bind_eq_some_iff.mp put
      exact inductionHypothesis (isExact.putOne (keeps score List.mem_cons_self) one)
        (fun s member => keeps s (List.mem_cons_of_mem _ member)) later

theorem Exact.afterPut {store : ScoreStore} {current : Current} {batch : PutBatch}
    (isExact : Exact codec store current) (keeps : ∀ score ∈ batch.scores, codec.Keeps score) :
    Exact codec (store.afterPut codec batch) (current.afterPut codec store batch) := by
  unfold ScoreStore.afterPut Current.afterPut
  cases put : store.putBatch codec batch with
  | none => exact isExact
  | some tables =>
    simp only [Option.getD_some, Option.isSome_some, if_true]
    unfold putBatch at put
    split at put
    · next empty =>
      cases put
      rw [List.isEmpty_iff.mp empty]
      exact isExact
    · exact isExact.putFrom keeps put

theorem exact_empty : Exact codec {} (fun _ => none) where
  named := fun _ _ known => by cases known
  kept := fun _ _ known => by cases known
  scores := fun _ => by simp
  targets := fun key id => by simp

theorem Exact.putBatch {store tables : ScoreStore} {current : Current} {batch : PutBatch}
    (isExact : Exact codec store current) (keeps : ∀ score ∈ batch.scores, codec.Keeps score)
    (put : store.putBatch codec batch = some tables) :
    Exact codec tables (batch.scores.foldl Current.write current) := by
  have after := isExact.afterPut keeps
  unfold ScoreStore.afterPut Current.afterPut at after
  simpa only [put, Option.getD_some, Option.isSome_some, if_true] using after

/-! ## What a batch leaves of an id -/

theorem Current.foldl_write_other {scores : List Score} {id : String} (current : Current)
    (other : ∀ score ∈ scores, score.id ≠ id) :
    scores.foldl Current.write current id = current id := by
  induction scores generalizing current with
  | nil => rfl
  | cons score rest inductionHypothesis =>
    rw [List.forall_mem_cons] at other
    rw [List.foldl_cons, inductionHypothesis _ other.2, Current.write,
      Function.update_of_ne (Ne.symm other.1)]

/-- Under distinct ids nothing is overwritten. -/
theorem Current.foldl_write_mem {scores : List Score} {score : Score} (current : Current)
    (distinct : (scores.map Score.id).Nodup) (listed : score ∈ scores) :
    scores.foldl Current.write current score.id = some score := by
  induction scores generalizing current with
  | nil => cases listed
  | cons first rest inductionHypothesis =>
    rw [List.map_cons, List.nodup_cons] at distinct
    rw [List.foldl_cons]
    cases List.mem_cons.mp listed with
    | inl here =>
      have other : ∀ later ∈ rest, later.id ≠ score.id := by
        intro later member same
        exact distinct.1 (List.mem_map.mpr ⟨later, member, by rw [same, here]⟩)
      rw [Current.foldl_write_other _ other, here, Current.write, Function.update_self]
    | inr later => exact inductionHypothesis _ distinct.2 later

/-- What an id stands for was there before or is of the batch. -/
theorem Current.foldl_write_cases {scores : List Score} {current : Current} {id : String}
    {score : Score} (known : scores.foldl Current.write current id = some score) :
    score ∈ scores ∨ current id = some score := by
  induction scores using List.reverseRecOn with
  | nil => exact .inr known
  | append_singleton scores last inductionHypothesis =>
    rw [List.foldl_append, List.foldl_cons, List.foldl_nil, Current.write,
      Function.update_apply] at known
    split at known
    · rw [← Option.some.inj known]
      exact .inl (by simp)
    · exact (inductionHypothesis known).imp_left (fun listed => List.mem_append_left _ listed)

theorem Current.afterPut_cases {current : Current} {store : ScoreStore} {batch : PutBatch}
    {id : String} {score : Score} (known : current.afterPut codec store batch id = some score) :
    score ∈ batch.scores ∨ current id = some score := by
  unfold Current.afterPut at known
  split at known
  · exact Current.foldl_write_cases known
  · exact .inr known

/-! ## Reading a target -/

/-- The scores of a target are read in the order of their ids. -/
theorem Exact.byTargetKey {store : ScoreStore} {current : Current}
    (isExact : Exact codec store current) (key : String) :
    store.byTargetKey codec key =
      some (sortNewestFirst ((store.byTarget.valuesOf key).toList.filterMap
        (fun id => (current id).map codec.readBack))) := by
  have read (ids : List String) :
      ids.mapM (store.get codec) = some (ids.map (fun id => (current id).map codec.readBack)) := by
    induction ids with
    | nil => rfl
    | cons id ids inductionHypothesis =>
      rw [List.mapM_cons, isExact.get, inductionHypothesis]
      rfl
  unfold ScoreStore.byTargetKey
  rw [read]
  simp only [Option.bind_eq_bind, Option.bind_some, Option.pure_def, List.reduceOption,
    List.filterMap_map, Function.comp_def, id_eq]

/-- Every score of a target as its text reads back, each once. -/
theorem Exact.reads {store : ScoreStore} {current : Current} (isExact : Exact codec store current)
    {key : String} {found : List Score} (read : store.byTargetKey codec key = some found) :
    (∀ score, score ∈ found ↔ ∃ written, current written.id = some written ∧
        targetKey written.target = key ∧ codec.readBack written = score) ∧
      (found.map Score.id).Nodup ∧
      found.Pairwise (fun a b => b.tsUnixNano ≤ a.tsUnixNano) := by
  rw [isExact.byTargetKey, Option.some.injEq] at read
  subst read
  have ids (id : String) : id ∈ (store.byTarget.valuesOf key).toList ↔
      ∃ score, current id = some score ∧ targetKey score.target = key := by
    rw [Std.ExtTreeSet.mem_toList]
    exact isExact.targets key id
  -- the id survives the text, so distinct ids give distinct scores
  have keepsId {id : String} {score : Score}
      (known : (current id).map codec.readBack = some score) : score.id = id := by
    obtain ⟨written, isWritten, rfl⟩ := Option.map_eq_some_iff.mp known
    rw [(isExact.kept id written isWritten).readBack.1, isExact.named id written isWritten]
  refine ⟨fun score => ?_, ?_, newestFirst_sorted _⟩
  · rw [sortNewestFirst, mem_newestFirst, List.mem_filterMap]
    constructor
    · rintro ⟨id, listed, isScore⟩
      obtain ⟨written, isWritten, rfl⟩ := Option.map_eq_some_iff.mp isScore
      obtain ⟨same, isSame, target⟩ := (ids id).mp listed
      rw [isWritten, Option.some.injEq] at isSame
      refine ⟨written, ?_, isSame ▸ target, rfl⟩
      rw [isExact.named id written isWritten, isWritten]
    · rintro ⟨written, isWritten, target, rfl⟩
      refine ⟨written.id, (ids _).mpr ⟨written, isWritten, target⟩, ?_⟩
      rw [isWritten, Option.map_some]
  · rw [sortNewestFirst, ((newestFirst_perm _ _).map Score.id).nodup_iff, List.map_filterMap]
    apply List.Nodup.filterMap
    · intro id id' x known known'
      rw [Option.mem_def] at known known'
      obtain ⟨score, isScore, rfl⟩ := Option.map_eq_some_iff.mp known
      obtain ⟨score', isScore', same⟩ := Option.map_eq_some_iff.mp known'
      rw [← keepsId isScore, ← keepsId isScore', same]
    · exact Std.ExtTreeSet.distinct_toList.imp (fun {a b} differ same =>
        differ (Std.LawfulEqOrd.compare_eq_iff_eq.mpr same))

/-! ## A run of calls -/

variable (codec) in
/-- The tables after some calls, beside the last score written for each id. -/
def afterPuts (calls : List PutBatch) : ScoreStore × Current :=
  calls.foldl (fun (store, current) batch =>
    (store.afterPut codec batch, Current.afterPut codec current store batch)) ({}, fun _ => none)

theorem exact_afterPuts {calls : List PutBatch}
    (keeps : ∀ batch ∈ calls, ∀ score ∈ batch.scores, codec.Keeps score) :
    Exact codec (afterPuts codec calls).1 (afterPuts codec calls).2 := by
  induction calls using List.reverseRecOn with
  | nil => exact exact_empty
  | append_singleton calls batch inductionHypothesis =>
    unfold afterPuts at inductionHypothesis ⊢
    rw [List.foldl_append]
    apply Exact.afterPut
    · exact inductionHypothesis (fun b member => keeps b (List.mem_append_left _ member))
    · exact keeps batch (by simp)

/-- A score that is stored was put. -/
theorem put_of_afterPuts {calls : List PutBatch} {id : String} {score : Score}
    (known : (afterPuts codec calls).2 id = some score) : ∃ batch ∈ calls, score ∈ batch.scores := by
  induction calls using List.reverseRecOn with
  | nil => cases known
  | append_singleton calls batch inductionHypothesis =>
    have step : (afterPuts codec (calls ++ [batch])).2 =
        Current.afterPut codec (afterPuts codec calls).2 (afterPuts codec calls).1 batch := by
      simp [afterPuts]
    rw [step] at known
    cases Current.afterPut_cases known with
    | inl here => exact ⟨batch, by simp, here⟩
    | inr before =>
      obtain ⟨earlier, listed, member⟩ := inductionHypothesis before
      exact ⟨earlier, List.mem_append_left _ listed, member⟩

/-- After any calls, failed ones among them, a target's scores are exactly the current
scores attached to it, each as its text reads back, under one id each and the newest first; and
a call that fails leaves every read as it was. -/
theorem byTargetKey_exact {calls : List PutBatch}
    (keeps : ∀ batch ∈ calls, ∀ score ∈ batch.scores, codec.Keeps score) :
    let store := (afterPuts codec calls).1
    let current := (afterPuts codec calls).2
    (∀ key, ∃ found, store.byTargetKey codec key = some found ∧
        (∀ score, score ∈ found ↔ ∃ written, current written.id = some written ∧
          targetKey written.target = key ∧ codec.readBack written = score) ∧
        (found.map Score.id).Nodup ∧
        found.Pairwise (fun a b => b.tsUnixNano ≤ a.tsUnixNano)) ∧
      ∀ batch, store.putBatch codec batch = none →
        (∀ key, (store.afterPut codec batch).byTargetKey codec key = store.byTargetKey codec key) ∧
        (∀ id, (store.afterPut codec batch).get codec id = store.get codec id) ∧
        ∀ limit, (store.afterPut codec batch).list codec limit = store.list codec limit := by
  have isExact := exact_afterPuts keeps
  constructor
  · intro key
    exact ⟨_, isExact.byTargetKey key, isExact.reads (isExact.byTargetKey key)⟩
  · intro batch failed
    have unchanged : (afterPuts codec calls).1.afterPut codec batch = (afterPuts codec calls).1 := by
      rw [afterPut, failed]
      rfl
    rw [unchanged]
    exact ⟨fun _ => rfl, fun _ => rfl, fun _ => rfl⟩

/-! ## A score that moves within its batch -/

def moved (target : ScoreTarget) (ts : Nat) : Score :=
  { id := "s1", target := target, name := "exact_match", tsUnixNano := ts }

/-- The text of such a score. -/
def movedText (kind id ts : String) : String :=
  "\x7b\"id\":\"s1\",\"target_type\":\"" ++ kind ++ "\",\"target_id\":\"" ++ id ++
    "\",\"name\":\"exact_match\",\"data_type\":\"numeric\",\"source\":\"api\"," ++
    "\"ts_unix_nano\":" ++ ts ++ "\x7d"

def movedCodec : ScoreCodec :=
  { write := fun s =>
      if s = moved (.span "aa") 10 then some (movedText "span" "aa" "10")
      else if s = moved (.trace "tt") 20 then some (movedText "trace" "tt" "20")
      else none
    parse := fun text =>
      if text = movedText "span" "aa" "10" then some (moved (.span "aa") 10)
      else if text = movedText "trace" "tt" "20" then some (moved (.trace "tt") 20)
      else none }

/-- One batch that writes the id under a span and then under a trace. -/
def movedTwice : List PutBatch := [{ scores := [moved (.span "aa") 10, moved (.trace "tt") 20] }]

theorem byTargetKey_exact_moved : ∃ found,
    (afterPuts movedCodec movedTwice).1.byTargetKey movedCodec "span:aa" = some found ∧
      (found.map Score.id).Nodup := by
  have keeps : ∀ batch ∈ movedTwice, ∀ score ∈ batch.scores, movedCodec.Keeps score := by
    intro batch member score listed text written
    rw [movedTwice, List.mem_singleton] at member
    subst member
    have which : score = moved (.span "aa") 10 ∨ score = moved (.trace "tt") 20 := by
      simpa using listed
    cases which with
    | inl first =>
      subst first
      cases written
      exact ⟨_, rfl, rfl, rfl, rfl⟩
    | inr second =>
      subst second
      cases written
      exact ⟨_, rfl, rfl, rfl, rfl⟩
  obtain ⟨found, read, -, once, -⟩ := (byTargetKey_exact keeps).1 "span:aa"
  exact ⟨found, read, once⟩

end ScoreStore

end Evald.Store
