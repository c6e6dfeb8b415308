import Evald.Ledger
import Evald.Store.HotBound
import Evald.Store.Scores
import Evald.Store.TraceIndex

/-! # An ingest that is called again

One call of `ingest_batch` drops the copies of calls already stored, appends the rest,
remembers their keys and stores the scores, and it can fail at every one of these.  A call
that failed at the scores has remembered its keys, and may have pushed others out of the
ledger, so that the next call lets through what the first one dropped.  Where nothing comes
through that way, calling until it succeeds reads like one call (`retried_iff`).
-/

namespace Evald.CallLedger

/-! ## A ledger that is full -/

theorem order_foldl_insertKey {ledger : CallLedger} {keys : List String} (once : keys.Nodup)
    (new : ∀ k ∈ keys, k ∉ ledger.set) :
    (keys.foldl insertKey ledger).order = ledger.order ++ keys := by
  induction keys generalizing ledger with
  | nil => exact (List.append_nil _).symm
  | cons key rest inductionHypothesis =>
    obtain ⟨unlisted, onceRest⟩ := List.nodup_cons.mp once
    have inserted : ledger.insertKey key =
        { set := ledger.set.insert key, order := ledger.order ++ [key] } :=
      if_neg (new key List.mem_cons_self)
    have newRest : ∀ k ∈ rest, k ∉ (ledger.insertKey key).set := by
      intro k member known
      rw [inserted, Std.ExtTreeSet.mem_insert, Std.LawfulEqOrd.compare_eq_iff_eq] at known
      cases known with
      | inl same => exact unlisted (same ▸ member)
      | inr before => exact new k (List.mem_cons_of_mem _ member) before
    rw [List.foldl_cons, inductionHypothesis onceRest newRest, inserted, List.append_assoc]
    rfl

theorem forgetOldest_of_room {set : Std.ExtTreeSet String} {order : List String}
    (room : order.length ≤ capacity) :
    forgetOldest set order = { set := set, order := order } := by
  cases order with
  | nil => rfl
  | cons old rest => exact if_neg (Nat.not_lt.mpr room)

/-- A ledger that is full forgets its oldest key for a new one. -/
theorem remember_full {ledger : CallLedger} {old key : String} {rest : List String}
    (order : ledger.order = old :: rest) (full : (old :: rest).length = capacity)
    (new : key ∉ ledger.set) :
    ledger.remember [key] =
      { set := (ledger.set.insert key).erase old, order := rest ++ [key] } := by
  have inserted : [key].foldl insertKey ledger =
      { set := ledger.set.insert key, order := old :: (rest ++ [key]) } := by
    rw [List.foldl_cons, List.foldl_nil, insertKey, if_neg new, order, List.cons_append]
  unfold remember
  rw [inserted]
  simp only [List.length_cons] at full
  unfold forgetOldest
  simp only [List.length_cons, List.length_append, List.length_nil]
  rw [if_pos (by omega), forgetOldest_of_room (by simp; omega)]

end Evald.CallLedger

namespace Evald.Store

open Evald.Lib

/-! ## The end of the hot tier -/

/-- The segments in order, those that are not there empty. -/
theorem HotTier.allSpans_eq_range {hot : HotTier} {n : Nat} (upTo : ∀ m ∈ hot.keys, m ≤ n) :
    hot.allSpans = (List.range (n + 1)).flatMap hot.spansOf := by
  have entries : hot.toList.map Prod.snd = hot.keys.map hot.spansOf := by
    rw [← Std.ExtTreeMap.map_fst_toList_eq_keys, List.map_map]
    refine List.map_congr_left (fun entry inside => ?_)
    have resident : hot[entry.1]? = some entry.2 :=
      Std.ExtTreeMap.mem_toList_iff_getElem?_eq_some.mp inside
    exact (HotTier.spansOf_of_segment resident).symm
  have keys : hot.keys = (List.range (n + 1)).filter (fun m => m ∈ hot) := by
    refine ordered_ext Std.ExtTreeMap.ordered_keys ?_ (fun m => ?_)
    · refine List.Pairwise.sublist List.filter_sublist (List.pairwise_lt_range.imp ?_)
      intro a b before
      exact Nat.compare_eq_lt.mpr before
    · rw [List.mem_filter, List.mem_range, decide_eq_true_eq, Std.ExtTreeMap.mem_keys]
      constructor
      · intro inside
        have small := upTo m (Std.ExtTreeMap.mem_keys.mpr inside)
        exact ⟨by omega, inside⟩
      · exact And.right
  rw [HotTier.allSpans, entries, keys, ← List.flatMap_def]
  induction List.range (n + 1) with
  | nil => rfl
  | cons m rest inductionHypothesis =>
    rw [List.filter_cons, List.flatMap_cons, ← inductionHypothesis]
    split
    · rw [List.flatMap_cons]
    · rename_i absent
      have nothing : hot.spansOf m = [] := by
        apply HotTier.spansOf_of_segment_none
        apply HotTier.segment_none_of_not_mem_segnos
        rw [HotTier.segnos, Std.ExtTreeMap.mem_keys]
        simpa using absent
      rw [nothing, List.nil_append]

/-- A push to the last segment goes to the end. -/
theorem HotTier.allSpans_push {hot : HotTier} {n : Nat} (upTo : ∀ m ∈ hot.keys, m ≤ n)
    (spans : List NormalizedSpan) : (hot.push n spans).allSpans = hot.allSpans ++ spans := by
  have upTo' : ∀ m ∈ (hot.push n spans).keys, m ≤ n := by
    intro m inside
    rw [HotTier.push, Std.ExtTreeMap.mem_keys, Std.ExtTreeMap.mem_insert,
      Std.LawfulEqOrd.compare_eq_iff_eq] at inside
    cases inside with
    | inl same => exact same ▸ Nat.le_refl _
    | inr before => exact upTo m (Std.ExtTreeMap.mem_keys.mpr before)
  rw [HotTier.allSpans_eq_range upTo', HotTier.allSpans_eq_range upTo, List.range_succ,
    List.flatMap_append, List.flatMap_append, List.append_assoc, List.flatMap_singleton,
    List.flatMap_singleton, HotTier.spansOf_push, if_pos rfl]
  congr 1
  apply List.flatMap_congr
  intro m inside
  rw [HotTier.spansOf_push, if_neg (by rw [List.mem_range] at inside; omega)]

/-! ## What a batch of scores leaves -/

theorem ScoreStore.putFrom_fault {codec : ScoreCodec} {fault fault' : Nat → Bool}
    {scores : List Score} {i : Nat} {store tables tables' : ScoreStore}
    (put : ScoreStore.putFrom codec fault i store scores = some tables)
    (put' : ScoreStore.putFrom codec fault' i store scores = some tables') : tables = tables' := by
  induction scores generalizing i store with
  | nil =>
    unfold ScoreStore.putFrom at put put'
    split at put
    · contradiction
    · split at put'
      · contradiction
      · rw [← Option.some.inj put, ← Option.some.inj put']
  | cons score rest inductionHypothesis =>
    unfold ScoreStore.putFrom at put put'
    split at put
    · contradiction
    · split at put'
      · contradiction
      · obtain ⟨next, one, later⟩ := Option.bind_eq_some_iff.mp put
        obtain ⟨next', one', later'⟩ := Option.bind_eq_some_iff.mp put'
        rw [one, Option.some.injEq] at one'
        exact inductionHypothesis later (one' ▸ later')

/-- A batch that is stored leaves the same tables whatever could have failed. -/
theorem ScoreStore.putBatch_fault {codec : ScoreCodec} {fault fault' : Nat → Bool}
    {scores : List Score} {store tables tables' : ScoreStore}
    (put : store.putBatch codec { scores := scores, fault := fault } = some tables)
    (put' : store.putBatch codec { scores := scores, fault := fault' } = some tables') :
    tables = tables' := by
  unfold ScoreStore.putBatch at put put'
  split at put
  · rename_i empty
    rw [if_pos empty] at put'
    exact (Option.some.inj put).symm.trans (Option.some.inj put')
  · rename_i something
    rw [if_neg something] at put'
    exact ScoreStore.putFrom_fault put put'

/-- Spans that do not have the key can go. -/
theorem copyOf_map_filter {k : SpanKey} {f : NormalizedSpan → NormalizedSpan}
    {q : NormalizedSpan → Bool} {spans : List NormalizedSpan}
    (others : ∀ s ∈ spans, q s = false → spanKey (f s) ≠ k) :
    copyOf spanKey k (spans.map f) = copyOf spanKey k ((spans.filter q).map f) := by
  induction spans with
  | nil => rfl
  | cons s rest inductionHypothesis =>
    have behind := inductionHypothesis (fun t member => others t (List.mem_cons_of_mem _ member))
    unfold copyOf at behind ⊢
    cases here : q s with
    | true =>
      rw [List.filter_cons, if_pos here, List.map_cons, List.map_cons, List.find?_cons,
        List.find?_cons, behind]
    | false =>
      have other := others s List.mem_cons_self here
      rw [List.filter_cons, if_neg (by simp [here]), List.map_cons, List.find?_cons, ← behind]
      simp [other]

/-! ## One call -/

inductive StoreError where
  | backpressure
  | diskFull
  | io
  deriving DecidableEq, Repr

/-- What one call of `ingest_batch` meets on its way. -/
structure Attempt where
  diskBlocked : Bool := false
  channelFull : Bool := false
  /-- Does the segment take the frame?  If not, it leaves no part of it. -/
  written : Bool := true
  synced : Bool := true
  /-- Is a frame whose fsync failed in the segment nevertheless? -/
  frameStays : Bool := true
  rotated : Bool := true
  scoreFault : Nat → Bool := fun _ => false

structure IngestConfig where
  preparation : Preparation
  sealThreshold : Nat
  maxHotSpans : Nat
  codec : ScoreCodec

/-- What `ingest_batch` changes, and the blocks that are read with it. -/
structure IngestNode where
  ledger : CallLedger := {}
  hot : HotTier := ∅
  walActive : Nat := 0
  activeCount : Nat := 0
  /-- The frames of the log, each with its segment. -/
  wal : List (Nat × List NormalizedSpan) := []
  cold : ColdState := {}
  scores : ScoreStore := {}

namespace IngestNode

variable (config : IngestConfig)

/-- Behind a group: the segment is sealed when it is full. -/
def sealIfFull (node : IngestNode) (rotated : Bool) : IngestNode :=
  if config.sealThreshold ≤ node.activeCount && rotated then
    { node with walActive := node.walActive + 1, activeCount := 0 }
  else node

/-- `append`: the error, or none, and what it leaves. -/
def append (node : IngestNode) (attempt : Attempt) (spans : List NormalizedSpan) :
    Option StoreError × IngestNode :=
  if spans.isEmpty then (none, node)
  else if attempt.diskBlocked then (some .diskFull, node)
  else if attempt.channelFull then (some .backpressure, node)
  else if config.maxHotSpans ≠ 0 && config.maxHotSpans ≤ node.hot.len then
    (some .backpressure, node)
  else if !attempt.written then (some .io, node)
  else if attempt.synced then
    (none, sealIfFull config
      { node with
        activeCount := node.activeCount + spans.length
        hot := node.hot.push node.walActive spans
        wal := node.wal ++ [(node.walActive, spans)] } attempt.rotated)
  else
    (some .io, sealIfFull config
      { node with
        activeCount := node.activeCount + spans.length
        wal := if attempt.frameStays then node.wal ++ [(node.walActive, spans)] else node.wal }
      attempt.rotated)

/-- Drop, check the disk, append, remember, store the scores. -/
def ingestBatch (node : IngestNode) (attempt : Attempt) (spans : List NormalizedSpan)
    (scores : List Score) : Except StoreError Nat × IngestNode :=
  let (kept, ledger) := Evald.ingestBatch node.ledger config.preparation spans
  if !kept.isEmpty && attempt.diskBlocked then (.error .diskFull, node)
  else
    match node.append config attempt kept with
    | (some error, node) => (.error error, node)
    | (none, node) =>
      match node.scores.putBatch config.codec { scores := scores, fault := attempt.scoreFault } with
      | some tables => (.ok kept.length, { node with ledger := ledger, scores := tables })
      | none => (.error .io, { node with ledger := ledger })

/-- Calls until one returns `Ok`; every one but the last fails. -/
def callUntilOk (node : IngestNode) (spans : List NormalizedSpan) (scores : List Score) :
    List Attempt → Option IngestNode
  | [] => none
  | attempt :: rest =>
    match node.ingestBatch config attempt spans scores with
    | (.ok _, node) => if rest.isEmpty then some node else none
    | (.error _, node) => node.callUntilOk spans scores rest

/-! ## What is read -/

/-- The copy that a read of everything shows of a key. -/
def shown (node : IngestNode) (k : SpanKey) : Option NormalizedSpan :=
  (query node.hot node.cold none usizeMax).bind (copyOf spanKey k)

/-- The same keys, the same copies and the same scores by id and by target. -/
structure SameReads (codec : ScoreCodec) (node node' : IngestNode) : Prop where
  spans : ∀ k, node.shown k = node'.shown k
  byId : ∀ id, node.scores.get codec id = node'.scores.get codec id
  byTarget : ∀ key, node.scores.byTargetKey codec key = node'.scores.byTargetKey codec key

/-- Nothing is resident behind the segment that is written, and the index is exact. -/
structure Sound (node : IngestNode) : Prop where
  upTo : ∀ m ∈ node.hot.keys, m ≤ node.walActive
  indexed : TraceInvariant node.cold

/-- The rows of the indexed blocks, in the order they are listed. -/
def coldRows (node : IngestNode) : List NormalizedSpan :=
  listedRows node.cold.files node.cold.index.allBlockPaths

variable {config : IngestConfig} {node : IngestNode}

theorem shown_eq (sound : node.Sound) (k : SpanKey) :
    node.shown k = copyOf spanKey k (node.hot.allSpans ++ node.coldRows) := by
  have read : query node.hot node.cold none usizeMax = some (upTo usizeMax
      (newestFirst NormalizedSpan.startUnixNano (readSpans node.hot node.cold none))) :=
    query_eq (fun p listed => sound.indexed.stored p (Index.mem_allBlockPaths.mp listed))
      (by decide)
  have everything (spans : List NormalizedSpan) : spans.filter (traceMatches none) = spans :=
    List.filter_eq_self.mpr (fun _ _ => rfl)
  have distinct := nodup_keys_combine node.hot none
    (listedRows node.cold.files (listBlocks node.cold.index none))
  have perm := newestFirst_perm NormalizedSpan.startUnixNano (readSpans node.hot node.cold none)
  rw [shown, read, upTo, if_pos rfl, Option.bind_some,
    copyOf_perm ((perm.map spanKey).nodup_iff.mpr distinct) perm, readSpans, combine,
    copyOf_append, copyOf_append, copyOf_firstCopies, copyOf_firstCopies, everything]
  cases inHot : copyOf spanKey k node.hot.allSpans with
  | some s => rfl
  | none =>
    -- a key the hot tier does not have is hidden from no block
    have absent := copyOf_eq_none_iff.mp inHot
    rw [Option.none_or, Option.none_or, coldWanted, everything, copyOf, copyOf,
      List.find?_filter, coldRows, listBlocks]
    refine List.find?_congr (fun s _ => ?_)
    by_cases here : spanKey s = k
    · simp [here, absent]
    · simp [here]

/-! ## What one call leaves -/

theorem Sound.sealIfFull (sound : node.Sound) (rotated : Bool) :
    (node.sealIfFull config rotated).Sound := by
  unfold IngestNode.sealIfFull
  split
  · exact ⟨fun m inside => Nat.le_succ_of_le (sound.upTo m inside), sound.indexed⟩
  · exact sound

@[simp] theorem sealIfFull_hot (node : IngestNode) (rotated : Bool) :
    (node.sealIfFull config rotated).hot = node.hot := by
  unfold sealIfFull
  split <;> rfl

@[simp] theorem sealIfFull_cold (node : IngestNode) (rotated : Bool) :
    (node.sealIfFull config rotated).cold = node.cold := by
  unfold sealIfFull
  split <;> rfl

@[simp] theorem sealIfFull_ledger (node : IngestNode) (rotated : Bool) :
    (node.sealIfFull config rotated).ledger = node.ledger := by
  unfold sealIfFull
  split <;> rfl

@[simp] theorem sealIfFull_scores (node : IngestNode) (rotated : Bool) :
    (node.sealIfFull config rotated).scores = node.scores := by
  unfold sealIfFull
  split <;> rfl

/-- Nothing that is read has changed but the spans at the end of the hot tier. -/
structure Extends (node node' : IngestNode) (spans : List NormalizedSpan) : Prop where
  sound : node'.Sound
  ledger : node'.ledger = node.ledger
  hot : node'.hot.allSpans = node.hot.allSpans ++ spans
  cold : node'.cold = node.cold
  scores : node'.scores = node.scores

theorem Extends.refl (sound : node.Sound) : node.Extends node [] :=
  ⟨sound, rfl, (List.append_nil _).symm, rfl, rfl⟩

/-- A failed append leaves what is read alone; one that succeeds puts the spans behind it. -/
theorem append_extends (config : IngestConfig) (sound : node.Sound) (attempt : Attempt)
    (spans : List NormalizedSpan) :
    node.Extends (node.append config attempt spans).2
      (if (node.append config attempt spans).1.isNone then spans else []) := by
  unfold append
  split
  · rename_i empty
    rw [List.isEmpty_iff.mp empty]
    exact .refl sound
  split
  · exact .refl sound
  split
  · exact .refl sound
  split
  · exact .refl sound
  split
  · exact .refl sound
  split
  · have pushed : ∀ m ∈ (node.hot.push node.walActive spans).keys, m ≤ node.walActive := by
      intro m inside
      rw [HotTier.push, Std.ExtTreeMap.mem_keys, Std.ExtTreeMap.mem_insert,
        Std.LawfulEqOrd.compare_eq_iff_eq] at inside
      cases inside with
      | inl same => exact same ▸ Nat.le_refl _
      | inr before => exact sound.upTo m (Std.ExtTreeMap.mem_keys.mpr before)
    refine ⟨?_, by simp, ?_, by simp, by simp⟩
    · apply Sound.sealIfFull
      exact ⟨pushed, sound.indexed⟩
    simp only [sealIfFull_hot, Option.isNone_none, if_true]
    exact HotTier.allSpans_push sound.upTo spans
  · refine ⟨?_, by simp, by simp, by simp, by simp⟩
    apply Sound.sealIfFull
    exact ⟨sound.upTo, sound.indexed⟩

/-- Did the call get as far as the scores? -/
def reachesScores (config : IngestConfig) (node : IngestNode) (attempt : Attempt)
    (spans : List NormalizedSpan) : Bool :=
  let kept := (Evald.ingestBatch node.ledger config.preparation spans).1
  !(!kept.isEmpty && attempt.diskBlocked) && (node.append config attempt kept).1.isNone

variable {attempt : Attempt} {spans : List NormalizedSpan}

/-- A call that fails before the scores leaves what is read as it was. -/
theorem ingestBatch_early (scores : List Score) (sound : node.Sound)
    (early : node.reachesScores config attempt spans = false) :
    (∃ error, (node.ingestBatch config attempt spans scores).1 = .error error) ∧
      node.Extends (node.ingestBatch config attempt spans scores).2 [] := by
  have appended := append_extends config sound attempt
    (Evald.ingestBatch node.ledger config.preparation spans).1
  unfold reachesScores at early
  unfold ingestBatch
  simp only
  split
  · exact ⟨⟨_, rfl⟩, .refl sound⟩
  · rename_i unblocked
    simp only [unblocked, Bool.not_false, Bool.true_and] at early
    split
    · rename_i error node' failed
      rw [failed] at appended
      exact ⟨⟨error, rfl⟩, appended⟩
    · rename_i failed
      rw [failed] at early
      contradiction

/-- A call that reaches the scores has appended its spans and remembered their keys. -/
theorem ingestBatch_reached (scores : List Score) (sound : node.Sound)
    (reached : node.reachesScores config attempt spans = true) :
    ∃ appended,
      node.Extends appended (Evald.ingestBatch node.ledger config.preparation spans).1 ∧
      node.ingestBatch config attempt spans scores =
        match node.scores.putBatch config.codec
          { scores := scores, fault := attempt.scoreFault } with
        | some tables =>
          (.ok (Evald.ingestBatch node.ledger config.preparation spans).1.length,
            { appended with
              ledger := (Evald.ingestBatch node.ledger config.preparation spans).2
              scores := tables })
        | none =>
          (.error .io, { appended with
            ledger := (Evald.ingestBatch node.ledger config.preparation spans).2 }) := by
  have appended := append_extends config sound attempt
    (Evald.ingestBatch node.ledger config.preparation spans).1
  unfold reachesScores at reached
  rw [Bool.and_eq_true, Bool.not_eq_true'] at reached
  obtain ⟨unblocked, went⟩ := reached
  refine ⟨_, by rw [went] at appended; exact appended, ?_⟩
  unfold ingestBatch
  simp only
  rw [if_neg (by simpa using unblocked)]
  split
  · rename_i error node' failed
    rw [failed] at went
    contradiction
  · rename_i node' succeeded
    have scoresKept := appended.scores
    rw [succeeded] at scoresKept
    simp only at scoresKept
    simp only [succeeded, scoresKept]

/-! ## Calls until one succeeds -/

/-- What a number of calls append that all reach the scores, from the ledger on. -/
def appendedBy (p : Preparation) (spans : List NormalizedSpan) :
    Nat → CallLedger → List NormalizedSpan
  | 0, _ => []
  | n + 1, ledger =>
    (Evald.ingestBatch ledger p spans).1 ++
      appendedBy p spans n (Evald.ingestBatch ledger p spans).2

/-- How many of the calls fail at the scores. -/
def failedAtScores (config : IngestConfig) (node : IngestNode) (spans : List NormalizedSpan)
    (scores : List Score) : List Attempt → Nat
  | [] => 0
  | attempt :: rest =>
    match node.ingestBatch config attempt spans scores with
    | (.ok _, _) => 0
    | (.error _, after) =>
      (if node.reachesScores config attempt spans then 1 else 0) +
        failedAtScores config after spans scores rest

/-- What the calls leave: every one that reached the scores appended, and only the last one
stored the scores. -/
structure Called (config : IngestConfig) (node final : IngestNode)
    (spans : List NormalizedSpan) (scores : List Score) (calls : Nat) : Prop where
  sound : final.Sound
  hot : final.hot.allSpans =
    node.hot.allSpans ++ appendedBy config.preparation spans calls node.ledger
  cold : final.cold = node.cold
  scores : ∃ fault, node.scores.putBatch config.codec { scores := scores, fault := fault } =
    some final.scores

theorem called_of_callUntilOk {scores : List Score} {attempts : List Attempt}
    {final : IngestNode} (sound : node.Sound)
    (ran : node.callUntilOk config spans scores attempts = some final) :
    Called config node final spans scores
      (node.failedAtScores config spans scores attempts + 1) := by
  -- on the attempts: one fails before the scores, at the scores, or not at all
  induction attempts generalizing node with
  | nil => contradiction
  | cons attempt rest inductionHypothesis =>
    unfold callUntilOk at ran
    unfold failedAtScores
    cases reached : node.reachesScores config attempt spans with
    | false =>
      obtain ⟨⟨error, failed⟩, extension⟩ := ingestBatch_early scores sound reached
      generalize node.ingestBatch config attempt spans scores = outcome at failed extension ran ⊢
      obtain ⟨reply, after⟩ := outcome
      simp only at failed extension
      subst failed
      simp only [Bool.false_eq_true, if_false, Nat.zero_add] at ran ⊢
      obtain ⟨soundFinal, hot, cold, stored⟩ := inductionHypothesis extension.sound ran
      refine ⟨soundFinal, ?_, cold.trans extension.cold, extension.scores ▸ stored⟩
      rw [hot, extension.hot, extension.ledger, List.append_nil]
    | true =>
      obtain ⟨appended, extension, after⟩ := ingestBatch_reached scores sound reached
      cases put : node.scores.putBatch config.codec
          { scores := scores, fault := attempt.scoreFault } with
      | some tables =>
        simp only [put] at after
        simp only [after] at ran ⊢
        split at ran
        · rw [Option.some.injEq] at ran
          subst ran
          refine ⟨⟨extension.sound.upTo, extension.sound.indexed⟩, ?_, extension.cold, _, put⟩
          simpa only [appendedBy, List.append_nil] using extension.hot
        · contradiction
      | none =>
        simp only [put] at after
        simp only [after, if_true] at ran ⊢
        have remembered : ({ appended with
            ledger := (Evald.ingestBatch node.ledger config.preparation spans).2 } :
            IngestNode).Sound := ⟨extension.sound.upTo, extension.sound.indexed⟩
        obtain ⟨soundFinal, hot, cold, stored⟩ := inductionHypothesis remembered ran
        refine ⟨soundFinal, ?_, cold.trans extension.cold, extension.scores ▸ stored⟩
        rw [hot, extension.hot, Nat.add_comm 1, appendedBy, List.append_assoc]
        rfl

/-! ## Reading afterwards -/

/-- What is put between two lists shows in neither of them exactly when each key of it is
hidden by the front or has the same copy behind. -/
theorem copyOf_between_iff {front between behind : List NormalizedSpan} :
    (∀ k, copyOf spanKey k (front ++ between ++ behind) =
      copyOf spanKey k (front ++ behind)) ↔
    ∀ k s, copyOf spanKey k between = some s →
      k ∈ front.map spanKey ∨ copyOf spanKey k behind = some s := by
  refine forall_congr' (fun k => ?_)
  simp only [copyOf_append]
  cases ahead : copyOf spanKey k front with
  | some t =>
    have hidden : k ∈ front.map spanKey := by
      by_contra absent
      rw [copyOf_eq_none_iff.mpr absent] at ahead
      contradiction
    simp [hidden]
  | none =>
    have absent := copyOf_eq_none_iff.mp ahead
    simp only [Option.none_or, absent, false_or]
    cases copyOf spanKey k between with
    | none => simp
    | some s => simp [eq_comm]

/-- What a number of later calls let through of the calls that the first one's ledger
remembered. -/
def returned (p : Preparation) (spans : List NormalizedSpan) (first : CallLedger) :
    Nat → CallLedger → List NormalizedSpan
  | 0, _ => []
  | n + 1, ledger =>
    ((ledger.keptOf spans).1.filter first.remembered).map p.prepare ++
      returned p spans first n (Evald.ingestBatch ledger p spans).2

/-- What is behind spans of the first call shows the same with what came through alone. -/
theorem copyOf_appendedBy {p : Preparation} {first : CallLedger} {k : SpanKey}
    (behind : k ∉ (Evald.ingestBatch first p spans).1.map spanKey) (n : Nat)
    (ledger : CallLedger) :
    copyOf spanKey k (appendedBy p spans n ledger) =
      copyOf spanKey k (returned p spans first n ledger) := by
  induction n generalizing ledger with
  | zero => rfl
  | succ n inductionHypothesis =>
    have here : copyOf spanKey k (Evald.ingestBatch ledger p spans).1 =
        copyOf spanKey k (((ledger.keptOf spans).1.filter first.remembered).map p.prepare) := by
      show copyOf spanKey k ((ledger.keptOf spans).1.map p.prepare) = _
      apply copyOf_map_filter
      intro s kept fresh same
      have keptFirst := CallLedger.mem_keptOf_of_not_remembered kept fresh
      exact behind (List.mem_map.mpr ⟨p.prepare s, List.mem_map_of_mem keptFirst, same⟩)
    rw [appendedBy, returned, copyOf_append, copyOf_append, inductionHypothesis, here]

/-- Of the calls that the first one's ledger remembered, none comes through later that
shows: its key is among the hot spans or those the first call keeps, or a block shows the
very copy. -/
def NothingReturns (config : IngestConfig) (node : IngestNode) (spans : List NormalizedSpan)
    (failed : Nat) : Prop :=
  let (first, ledger) := Evald.ingestBatch node.ledger config.preparation spans
  ∀ k s, copyOf spanKey k (returned config.preparation spans node.ledger failed ledger) = some s →
    k ∈ (node.hot.allSpans ++ first).map spanKey ∨ copyOf spanKey k node.coldRows = some s

theorem nothingReturns_iff {failed : Nat} :
    node.NothingReturns config spans failed ↔
      let (first, ledger) := Evald.ingestBatch node.ledger config.preparation spans
      ∀ k s, copyOf spanKey k (appendedBy config.preparation spans failed ledger) = some s →
        k ∈ (node.hot.allSpans ++ first).map spanKey ∨
          copyOf spanKey k node.coldRows = some s := by
  unfold NothingReturns
  simp only
  refine forall_congr' (fun k => forall_congr' (fun s => ?_))
  by_cases front : k ∈ (Evald.ingestBatch node.ledger config.preparation spans).1.map spanKey
  · have ahead : k ∈ (node.hot.allSpans ++
        (Evald.ingestBatch node.ledger config.preparation spans).1).map spanKey := by
      rw [List.map_append]
      exact List.mem_append_right _ front
    simp only [ahead, true_or, implies_true]
  · rw [copyOf_appendedBy front]

theorem failedAtScores_once {scores : List Score} {once : Attempt} {single : IngestNode}
    (ran : node.callUntilOk config spans scores [once] = some single) :
    node.failedAtScores config spans scores [once] = 0 := by
  unfold failedAtScores
  unfold callUntilOk at ran
  split
  · rfl
  · rename_i failed
    rw [failed] at ran
    contradiction

/-- Calling until it succeeds reads like one call that succeeds exactly when nothing comes
through that the first call dropped. -/
theorem retried_iff {scores : List Score} {attempts : List Attempt} {once : Attempt}
    {final single : IngestNode} (sound : node.Sound)
    (ran : node.callUntilOk config spans scores attempts = some final)
    (ranOnce : node.callUntilOk config spans scores [once] = some single) :
    final.SameReads config.codec single ↔
      node.NothingReturns config spans (node.failedAtScores config spans scores attempts) := by
  have called := called_of_callUntilOk sound ran
  have calledOnce := called_of_callUntilOk sound ranOnce
  rw [failedAtScores_once ranOnce] at calledOnce
  -- the scores are stored once each way, so only the spans can differ
  obtain ⟨_, stored⟩ := called.scores
  obtain ⟨_, storedOnce⟩ := calledOnce.scores
  have sameScores : final.scores = single.scores := ScoreStore.putBatch_fault stored storedOnce
  have rows : final.coldRows = node.coldRows := by rw [coldRows, called.cold, coldRows]
  have rowsOnce : single.coldRows = node.coldRows := by rw [coldRows, calledOnce.cold, coldRows]
  have spansIff : (∀ k, final.shown k = single.shown k) ↔
      node.NothingReturns config spans (node.failedAtScores config spans scores attempts) := by
    rw [nothingReturns_iff]
    simp only
    rw [← copyOf_between_iff]
    refine forall_congr' (fun k => ?_)
    rw [shown_eq called.sound, shown_eq calledOnce.sound, called.hot, calledOnce.hot, rows,
      rowsOnce, appendedBy, appendedBy, appendedBy, List.append_nil]
    simp only [List.append_assoc]
  rw [← spansIff]
  constructor
  · intro same
    exact same.spans
  · intro same
    exact ⟨same, fun id => by rw [sameScores], fun key => by rw [sameScores]⟩

open ScoreStore (moved movedCodec)

/-- A tool span with the key of its call. -/
def callSpan (spanId key : String) : NormalizedSpan :=
  { traceId := "t"
    spanId := spanId
    name := "claude_code.tool"
    startUnixNano := 1
    rawAttributes := (∅ : Attributes).insert Logs.ClaudeCode.callKey (.str key) }

def plainConfig : IngestConfig :=
  { preparation := { scrub := id, cap := 0, put := fun _ => none }
    sealThreshold := 1
    maxHotSpans := 0
    codec := movedCodec }

/-- The fsync fails with its frame in the segment, then the scores are not stored. -/
theorem retried_iff_twoFailures : ∃ final single : IngestNode,
    callUntilOk plainConfig {} [callSpan "a" "k"] [moved (.span "aa") 10]
      [{ synced := false }, { scoreFault := fun _ => true }, {}] = some final ∧
    (final.SameReads movedCodec single ↔
      NothingReturns plainConfig {} [callSpan "a" "k"]
        (failedAtScores plainConfig {} [callSpan "a" "k"] [moved (.span "aa") 10]
          [{ synced := false }, { scoreFault := fun _ => true }, {}])) := by
  have sound : ({} : IngestNode).Sound := ⟨by simp, traceInvariant_empty⟩
  exact ⟨_, _, rfl, @retried_iff plainConfig {} [callSpan "a" "k"] [moved (.span "aa") 10]
    [{ synced := false }, { scoreFault := fun _ => true }, {}] {} _ _ sound rfl rfl⟩

/-! ## A call that is forgotten between -/

/-- One key less than the ledger holds. -/
def laterKeys : List String :=
  (List.range (CallLedger.capacity - 1)).map (fun n => String.ofList (List.replicate (n + 2) 'x'))

/-- The ledger is full, and the key "o" is the oldest in it. -/
def fullLedger : CallLedger := ({} : CallLedger).remember ("o" :: laterKeys)

def copyAndCall : List NormalizedSpan := [callSpan "s" "o", callSpan "u" "n"]

theorem keyOf_callSpan (spanId key : String) :
    CallLedger.keyOf (callSpan spanId key) = some key := by
  unfold CallLedger.keyOf callSpan
  rw [Std.ExtTreeMap.getElem?_insert_self]
  rfl

theorem anchorOf_callSpan (spanId key : String) :
    CallLedger.anchorOf (callSpan spanId key) = none := by
  unfold CallLedger.anchorOf callSpan
  rw [Std.ExtTreeMap.getElem?_insert, if_neg (by decide)]
  rfl

theorem spanKey_prepare_callSpan (spanId key : String) :
    spanKey (plainConfig.preparation.prepare (callSpan spanId key)) =
      spanKey (callSpan spanId key) := rfl

theorem nodup_laterKeys : ("o" :: laterKeys).Nodup := by
  rw [List.nodup_cons]
  constructor
  · intro member
    obtain ⟨n, -, same⟩ := List.mem_map.mp member
    have letters := congrArg String.toList same
    simp [List.replicate_succ] at letters
  · apply List.nodup_range.map
    intro n m same
    have letters := congrArg (fun key => key.toList.length) same
    simpa using letters

theorem length_laterKeys : ("o" :: laterKeys).length = CallLedger.capacity := by
  simp [laterKeys, CallLedger.capacity]

theorem fullLedger_eq :
    fullLedger = ("o" :: laterKeys).foldl CallLedger.insertKey {} ∧
      fullLedger.order = "o" :: laterKeys := by
  have order : (("o" :: laterKeys).foldl CallLedger.insertKey {}).order = "o" :: laterKeys :=
    CallLedger.order_foldl_insertKey nodup_laterKeys (by simp)
  have all : fullLedger = ("o" :: laterKeys).foldl CallLedger.insertKey {} := by
    unfold fullLedger CallLedger.remember
    simp only
    rw [order, CallLedger.forgetOldest_of_room length_laterKeys.le]
    generalize ("o" :: laterKeys).foldl CallLedger.insertKey {} = ledger at order ⊢
    cases ledger
    exact congrArg _ order.symm
  exact ⟨all, all ▸ order⟩

theorem known_fullLedger : "o" ∈ fullLedger.set := by
  rw [fullLedger_eq.1, CallLedger.mem_foldl_insertKey]
  exact .inr List.mem_cons_self

theorem new_fullLedger : "n" ∉ fullLedger.set := by
  intro member
  rw [fullLedger_eq.1, CallLedger.mem_foldl_insertKey] at member
  have listed := member.resolve_left (by simp)
  obtain ⟨n, -, same⟩ := List.mem_map.mp (List.mem_of_ne_of_mem (by decide) listed)
  have letters := congrArg String.toList same
  simp [List.replicate_succ] at letters

/-- The first call drops the copy; to remember its own key it forgets the oldest. -/
theorem first_call {full : CallLedger} {rest : List String} (order : full.order = "o" :: rest)
    (length : ("o" :: rest).length = CallLedger.capacity) (known : "o" ∈ full.set)
    (new : "n" ∉ full.set) : ∃ ledger : CallLedger,
    Evald.ingestBatch full plainConfig.preparation copyAndCall =
      ([plainConfig.preparation.prepare (callSpan "u" "n")], ledger) ∧ "o" ∉ ledger.set ∧
      "n" ∈ ledger.set := by
  have named : startsWith (callSpan "s" "o").name "claude_code." = true := by decide
  have kept : full.keptOf copyAndCall = ([callSpan "u" "n"], ["n"]) := by
    rw [copyAndCall, CallLedger.keptOf_of_named List.mem_cons_self named,
      CallLedger.filterFrom_copy (anchorOf_callSpan _ _) (keyOf_callSpan _ _) (.inl known),
      CallLedger.filterFrom_first (anchorOf_callSpan _ _) (keyOf_callSpan _ _) (by simp [new])]
    rfl
  refine ⟨full.remember ["n"], ?_, ?_, ?_⟩
  · rw [CallLedger.ingestBatch_eq, kept]
    rfl
  · rw [CallLedger.remember_full order length new]
    simp
  · rw [CallLedger.remember_full order length new]
    simp

/-- The next call lets the copy through. -/
theorem second_call {ledger : CallLedger} (forgotten : "o" ∉ ledger.set)
    (known : "n" ∈ ledger.set) : ∃ ledger',
    Evald.ingestBatch ledger plainConfig.preparation copyAndCall =
      ([plainConfig.preparation.prepare (callSpan "s" "o")], ledger') := by
  have named : startsWith (callSpan "s" "o").name "claude_code." = true := by decide
  have kept : ledger.keptOf copyAndCall = ([callSpan "s" "o"], ["o"]) := by
    rw [copyAndCall, CallLedger.keptOf_of_named List.mem_cons_self named,
      CallLedger.filterFrom_first (anchorOf_callSpan _ _) (keyOf_callSpan _ _)
        (by simp [forgotten]),
      CallLedger.filterFrom_copy (anchorOf_callSpan _ _) (keyOf_callSpan _ _) (.inl known)]
    rfl
  refine ⟨ledger.remember ["o"], ?_⟩
  rw [CallLedger.ingestBatch_eq, kept]
  rfl

/-- The scores of the first call are not stored. -/
def scoresOnce : List Attempt := [{ scoreFault := fun _ => true }, {}]

/-- What the two calls leave in the hot tier, and what one of them does. -/
theorem hot_after_calls {full ledger ledger' : CallLedger} {s u : NormalizedSpan}
    (first : Evald.ingestBatch full plainConfig.preparation copyAndCall = ([u], ledger))
    (second : Evald.ingestBatch ledger plainConfig.preparation copyAndCall = ([s], ledger')) :
    (∃ final, callUntilOk plainConfig { ledger := full } copyAndCall [moved (.span "aa") 10]
      scoresOnce = some final ∧ final.hot.allSpans = [u, s] ∧ final.coldRows = [] ∧ final.Sound) ∧
    ∃ single, callUntilOk plainConfig { ledger := full } copyAndCall [moved (.span "aa") 10]
      [{}] = some single ∧ single.hot.allSpans = [u] ∧ single.coldRows = [] ∧ single.Sound := by
  have sound : ({ ledger := full } : IngestNode).Sound := ⟨by simp, traceInvariant_empty⟩
  -- the spans are pushed before the scores fail, and the ledger knows the call
  have failed : ingestBatch plainConfig { ledger := full } { scoreFault := fun _ => true }
      copyAndCall [moved (.span "aa") 10] = (.error .io,
        { ledger := ledger, hot := (∅ : HotTier).push 0 [u], walActive := 1,
          wal := [(0, [u])] }) := by
    unfold ingestBatch
    rw [first]
    rfl
  constructor
  · have ran : ∃ final, callUntilOk plainConfig { ledger := full } copyAndCall
        [moved (.span "aa") 10] scoresOnce = some final ∧
          final.hot = ((∅ : HotTier).push 0 [u]).push 1 [s] := by
      unfold scoresOnce callUntilOk
      rw [failed]
      simp only
      unfold callUntilOk ingestBatch
      rw [second]
      exact ⟨_, rfl, rfl⟩
    obtain ⟨final, ran, hot⟩ := ran
    have called := called_of_callUntilOk sound ran
    refine ⟨final, ran, by rw [hot]; rfl, ?_, called.sound⟩
    rw [coldRows, called.cold]
    rfl
  · have ran : ∃ single, callUntilOk plainConfig { ledger := full } copyAndCall
        [moved (.span "aa") 10] [{}] = some single ∧ single.hot = (∅ : HotTier).push 0 [u] := by
      unfold callUntilOk ingestBatch
      rw [first]
      exact ⟨_, rfl, rfl⟩
    obtain ⟨single, ran, hot⟩ := ran
    have called := called_of_callUntilOk sound ran
    refine ⟨single, ran, by rw [hot]; rfl, ?_, called.sound⟩
    rw [coldRows, called.cold]
    rfl

/-- The scores of the first call are not stored, and its retry appends the copy that the
first call dropped. -/
theorem dropped_copy_returns : ∃ final single : IngestNode,
    callUntilOk plainConfig { ledger := fullLedger } copyAndCall [moved (.span "aa") 10]
      scoresOnce = some final ∧
    callUntilOk plainConfig { ledger := fullLedger } copyAndCall [moved (.span "aa") 10]
      [{}] = some single ∧
    ¬ final.SameReads movedCodec single := by
  obtain ⟨ledger, first, forgotten, known⟩ :=
    first_call fullLedger_eq.2 length_laterKeys known_fullLedger new_fullLedger
  obtain ⟨ledger', second⟩ := second_call forgotten known
  obtain ⟨⟨final, ran, hot, rows, sound⟩, single, ranOnce, hotOnce, rowsOnce, soundOnce⟩ :=
    hot_after_calls first second
  refine ⟨final, single, ran, ranOnce, fun same => ?_⟩
  -- the read shows the copy after the two calls, and nothing after the one
  have shows := same.spans (spanKey (callSpan "s" "o"))
  rw [shown_eq sound, shown_eq soundOnce, hot, hotOnce, rows, rowsOnce] at shows
  have here : spanKey (plainConfig.preparation.prepare (callSpan "s" "o")) =
      spanKey (callSpan "s" "o") := spanKey_prepare_callSpan _ _
  have other : spanKey (plainConfig.preparation.prepare (callSpan "u" "n")) ≠
      spanKey (callSpan "s" "o") := by
    rw [spanKey_prepare_callSpan]
    decide
  simp [copyOf, here, other] at shows

end IngestNode

end Evald.Store
