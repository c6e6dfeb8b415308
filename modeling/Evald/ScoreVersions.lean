import Evald.Rollup
import Evald.Store.Scores

/-! # Which version of a score is rolled up

The store returns the scores of a target newest first.  A span's score is the first one of
its name, the newest.  The scores of the trace itself are read into a map one after the
other, so that the last one stays, the oldest (`readsNewest_iff`).
-/

namespace Evald.Rollup

open Evald.Lib

/-! ## The order of the store -/

/-- The scores of one target come newest first. -/
def NewestFirst (scores : List Score) : Prop :=
  scores.Pairwise (fun a b => a.target = b.target → b.tsUnixNano ≤ a.tsUnixNano)

/-- The newest of some scores; the first of them where several are. -/
def newestOf (scores : List Score) : Option Score := scores.argmax Score.tsUnixNano

/-- The numeric scores of a name on the trace itself. -/
def onTrace (traceId name : String) (scores : List Score) : List Score :=
  scores.filter (fun s => s.target = .trace traceId && s.name = name && s.numValue.isSome)

/-- The numeric scores of a name on a span, of a type that can be combined. -/
def onSpan (q name : String) (scores : List Score) : List Score :=
  scores.filter (fun s => s.target = .span q && s.name = name && s.numValue.isSome &&
    !(s.dataType = .categorical || s.dataType = .text))

theorem newestOf_eq_head? {scores : List Score}
    (sorted : scores.Pairwise (fun a b => b.tsUnixNano ≤ a.tsUnixNano)) :
    newestOf scores = scores.head? := by
  cases scores with
  | nil => rfl
  | cons s rest =>
    obtain ⟨first, -⟩ := List.pairwise_cons.mp sorted
    unfold newestOf
    rw [List.head?_cons, List.argmax_eq_some_iff]
    refine ⟨List.mem_cons_self, ?_, ?_⟩
    · intro other listed
      cases List.mem_cons.mp listed with
      | inl same => rw [same]
      | inr later => exact first other later
    · intro other listed _
      rw [List.idxOf_cons_self]
      exact Nat.zero_le _

/-- Scores of one target that are kept stay in the order of the store. -/
theorem NewestFirst.filter {scores : List Score} (newestFirst : NewestFirst scores)
    (target : ScoreTarget) {keep : Score → Bool}
    (onTarget : ∀ s, keep s = true → s.target = target) :
    (scores.filter keep).Pairwise (fun a b => b.tsUnixNano ≤ a.tsUnixNano) := by
  have kept := (List.Pairwise.filter keep newestFirst)
  rw [List.pairwise_iff_forall_sublist] at kept ⊢
  intro a b inOrder
  have isKept {s : Score} (listed : s ∈ [a, b]) : s.target = target :=
    onTarget s (List.mem_filter.mp (inOrder.subset listed)).2
  exact kept inOrder ((isKept (by simp)).trans (isKept (by simp)).symm)

theorem NewestFirst.onTrace {scores : List Score} (newestFirst : NewestFirst scores)
    (traceId name : String) :
    newestOf (onTrace traceId name scores) = (onTrace traceId name scores).head? := by
  apply newestOf_eq_head?
  apply newestFirst.filter (.trace traceId)
  intro s kept
  simp only [Bool.and_eq_true, decide_eq_true_eq] at kept
  exact kept.1.1

theorem NewestFirst.onSpan {scores : List Score} (newestFirst : NewestFirst scores)
    (q name : String) : newestOf (onSpan q name scores) = (onSpan q name scores).head? := by
  apply newestOf_eq_head?
  apply newestFirst.filter (.span q)
  intro s kept
  simp only [Bool.and_eq_true, decide_eq_true_eq] at kept
  exact kept.1.1.1

/-! ## What the store returns for a trace -/

section Store

variable {codec : Store.ScoreCodec}

variable (codec) in
/-- `trace_scores`: of the trace, and of each of its spans. -/
def traceScores (store : Store.ScoreStore) (traceId : String) (spans : List NormalizedSpan) :
    Option (List Score) := do
  let own ← store.byTargetKey codec (Store.targetKey (.trace traceId))
  let attached ← spans.mapM (fun span =>
    store.byTargetKey codec (Store.targetKey (.span span.spanId)))
  pure (own ++ attached.flatten)

/-- What the store returns for a trace comes newest first per target. -/
theorem newestFirst_traceScores {calls : List Store.ScoreStore.PutBatch}
    (keeps : ∀ batch ∈ calls, ∀ score ∈ batch.scores, codec.Keeps score) (traceId : String)
    {spans : List NormalizedSpan} (distinct : (spans.map NormalizedSpan.spanId).Nodup) :
    ∃ scores, traceScores codec (Store.ScoreStore.afterPuts codec calls).1 traceId spans =
        some scores ∧
      NewestFirst scores := by
  have isExact := Store.ScoreStore.exact_afterPuts keeps
  have ofTarget (key : String) : ∃ found,
      (Store.ScoreStore.afterPuts codec calls).1.byTargetKey codec key = some found ∧
        (∀ s ∈ found, Store.targetKey s.target = key) ∧ NewestFirst found := by
    obtain ⟨mem, -, sorted⟩ := isExact.reads (isExact.byTargetKey key)
    refine ⟨_, isExact.byTargetKey key, fun s listed => ?_, ?_⟩
    · obtain ⟨written, isCurrent, onKey, rfl⟩ := (mem s).mp listed
      rw [(isExact.kept _ written isCurrent).readBack.2.1, onKey]
    apply sorted.imp
    intro a b newer _
    exact newer
  choose read isRead onKey sorted using ofTarget
  refine ⟨read (Store.targetKey (.trace traceId)) ++
    (spans.map (fun span => read (Store.targetKey (.span span.spanId)))).flatten, ?_, ?_⟩
  · unfold traceScores
    simp only [isRead]
    have attached := List.mapM_pure (m := Option) (l := spans)
      (f := fun span => read (Store.targetKey (.span span.spanId)))
    rw [Option.pure_def] at attached
    rw [Option.bind_eq_bind, Option.bind_some, attached]
    rfl
  -- scores of two targets are never versions of one
  · have apart {key key' : String} (differ : key ≠ key') :
        ∀ a ∈ read key, ∀ b ∈ read key', a.target = b.target → b.tsUnixNano ≤ a.tsUnixNano := by
      intro a ofKey b ofKey' same
      exact absurd ((onKey key a ofKey).symm.trans ((congrArg Store.targetKey same).trans
        (onKey key' b ofKey'))) differ
    unfold NewestFirst
    rw [List.pairwise_append, List.pairwise_flatten, List.pairwise_map]
    refine ⟨sorted _, ⟨?_, ?_⟩, ?_⟩
    · intro found listed
      obtain ⟨span, -, isRead⟩ := List.mem_map.mp listed
      exact isRead ▸ sorted _
    · apply (List.pairwise_map.mp distinct).imp
      intro span span' differ
      exact apart (fun same => differ (ScoreTarget.span.inj (Store.targetKey_inj same)))
    · intro a ofTrace b ofSpan
      obtain ⟨found, listed, isFound⟩ := List.mem_flatten.mp ofSpan
      obtain ⟨span, -, isRead⟩ := List.mem_map.mp listed
      rw [← isRead] at isFound
      have differ : Store.targetKey (.trace traceId) ≠ Store.targetKey (.span span.spanId) := by
        intro same
        cases Store.targetKey_inj same
      exact apart differ a ofTrace b isFound

end Store

/-! ## The measured scores -/

/-- The entry is the score, verbatim. -/
def Verbatim (r : RolledScore) (s : Score) : Prop :=
  r.measured = true ∧ some r.value = s.numValue ∧ r.dataType = s.dataType

theorem mem_onTrace {traceId name : String} {scores : List Score} {s : Score} :
    s ∈ onTrace traceId name scores ↔ s ∈ scores ∧ s.target = .trace traceId ∧ s.name = name ∧
      s.numValue.isSome = true := by
  simp [onTrace, and_assoc]

/-- A score of the name on the trace replaces the entry, any other one leaves it. -/
theorem getElem?_measuredScore (traceId name : String) (out : Std.ExtTreeMap String RolledScore)
    (s : Score) :
    (onTrace traceId name [s] = [s] ∧
        ∃ r, (measuredScore traceId out s)[name]? = some r ∧ Verbatim r s) ∨
      (onTrace traceId name [s] = [] ∧ (measuredScore traceId out s)[name]? = out[name]?) := by
  by_cases counted : s.target = .trace traceId ∧ s.name = name ∧ s.numValue.isSome = true
  · obtain ⟨target, named, number⟩ := counted
    obtain ⟨value, isValue⟩ := Option.isSome_iff_exists.mp number
    left
    constructor
    · simp [onTrace, target, named, number]
    · simp only [measuredScore, target, isValue, if_true, named]
      rw [Std.ExtTreeMap.getElem?_insert_self]
      exact ⟨_, rfl, rfl, isValue.symm ▸ rfl, rfl⟩
  · right
    constructor
    · rw [List.eq_nil_iff_forall_not_mem]
      intro s' listed
      obtain ⟨isS, onIt⟩ := mem_onTrace.mp listed
      rw [List.mem_singleton.mp isS] at onIt
      exact counted onIt
    · obtain same | ⟨r, inserted, -, measured⟩ := measuredScore_cases traceId out s
      · rw [same]
      · rw [inserted, Std.ExtTreeMap.getElem?_insert, if_neg]
        intro same
        rw [Std.LawfulEqOrd.compare_eq_iff_eq] at same
        obtain ⟨t, isS, target, -, number⟩ := measured
        rw [List.mem_singleton.mp isS] at target number
        exact counted ⟨target, same, number⟩

/-- The last score of the name on the trace is the one that stays. -/
theorem getElem?_foldl_measuredScore (traceId name : String) (scores : List Score) :
    match (onTrace traceId name scores).getLast? with
    | some s => ∃ r, (scores.foldl (measuredScore traceId) ∅)[name]? = some r ∧ Verbatim r s
    | none => (scores.foldl (measuredScore traceId) ∅)[name]? = none := by
  induction scores using List.reverseRecOn with
  | nil => simp [onTrace]
  | append_singleton scores s inductionHypothesis =>
    have split : onTrace traceId name (scores ++ [s]) =
        onTrace traceId name scores ++ onTrace traceId name [s] := List.filter_append ..
    rw [List.foldl_concat, split]
    obtain ⟨counted, entry⟩ | ⟨other, entry⟩ := getElem?_measuredScore traceId name
      (scores.foldl (measuredScore traceId) ∅) s
    · rw [counted, List.getLast?_concat]
      exact entry
    · rw [other, List.append_nil, entry]
      exact inductionHypothesis

/-! ## The entries of the rollup -/

section Entries

variable (float : FloatOps) (config : RollupConfig) (traceId : String)
  (spans : List NormalizedSpan) (scores : List Score)

theorem rollup_eq_foldl : rollup float traceId spans scores config =
    (scoredNames (indexBySpan scores)).foldl
      (rollName float config (SpanTree.build spans) (indexBySpan scores))
      (scores.foldl (measuredScore traceId) ∅) := by
  unfold rollup
  dsimp only
  split
  · next none =>
    have noName : scoredNames ∅ = [] := by decide
    rw [Std.ExtTreeMap.isEmpty_iff.mp none, noName, List.foldl_nil]
  · rfl

/-- A name with an entry keeps it. -/
theorem getElem?_foldl_rollName {out : Std.ExtTreeMap String RolledScore} {tree : SpanTree}
    {bySpan : BySpan} {name : String} {r : RolledScore} (entry : out[name]? = some r)
    (names : List String) :
    (names.foldl (rollName float config tree bySpan) out)[name]? = some r := by
  induction names generalizing out with
  | nil => exact entry
  | cons next names inductionHypothesis =>
    rw [List.foldl_cons]
    apply inductionHypothesis
    unfold rollName
    split
    · exact entry
    · next fresh =>
      split
      · rw [Std.ExtTreeMap.getElem?_insert, if_neg, entry]
        intro same
        rw [Std.LawfulEqOrd.compare_eq_iff_eq.mp same,
          Std.ExtTreeMap.mem_iff_isSome_getElem?, entry] at fresh
        exact fresh rfl
      · exact entry

theorem keyed_foldl_measuredScore : Keyed (scores.foldl (measuredScore traceId) ∅) := by
  induction scores using List.reverseRecOn with
  | nil => exact fun k r found => by simp at found
  | append_singleton scores s inductionHypothesis =>
    rw [List.foldl_concat]
    obtain same | ⟨r, inserted, own, -⟩ := measuredScore_cases traceId
      (scores.foldl (measuredScore traceId) ∅) s
    · rwa [same]
    · rw [inserted, ← own]
      exact inductionHypothesis.insert r

theorem keyed_rollup : Keyed (rollup float traceId spans scores config) := by
  rw [rollup_eq_foldl]
  generalize scoredNames (indexBySpan scores) = names
  induction names using List.reverseRecOn with
  | nil => exact keyed_foldl_measuredScore traceId scores
  | append_singleton names name inductionHypothesis =>
    rw [List.foldl_concat, rollName]
    split
    · exact inductionHypothesis
    · split
      · next r derived =>
        have own := ((derivedScore_spec float config _ scores name).1 r derived).1
        rw [← own]
        exact inductionHypothesis.insert r
      · exact inductionHypothesis

theorem mem_rollupTrace {r : RolledScore} : r ∈ rollupTrace float traceId spans scores config ↔
    (rollup float traceId spans scores config)[r.name]? = some r := by
  unfold rollupTrace
  rw [List.mem_map]
  constructor
  · intro ⟨entry, listed, isR⟩
    have found := Std.ExtTreeMap.mem_toList_iff_getElem?_eq_some.mp listed
    rw [isR] at found
    rwa [keyed_rollup float config traceId spans scores entry.1 r found]
  · intro found
    exact ⟨(r.name, r), Std.ExtTreeMap.mem_toList_iff_getElem?_eq_some.mpr found, rfl⟩

/-- The entry of a name on the trace is its last score there. -/
theorem rollup_of_measured {name : String} {s : Score}
    (last : (onTrace traceId name scores).getLast? = some s) :
    ∃ r, (rollup float traceId spans scores config)[name]? = some r ∧ Verbatim r s := by
  have measured := getElem?_foldl_measuredScore traceId name scores
  rw [last] at measured
  obtain ⟨r, entry, verbatim⟩ := measured
  refine ⟨r, ?_, verbatim⟩
  rw [rollup_eq_foldl]
  exact getElem?_foldl_rollName float config entry _

/-- A name that is not on the trace is derived. -/
theorem rollup_of_unmeasured {name : String} {r : RolledScore}
    (none : onTrace traceId name scores = [])
    (entry : (rollup float traceId spans scores config)[name]? = some r) :
    derivedScore float config (SpanTree.build spans) (indexBySpan scores) name = some r := by
  have measured := getElem?_foldl_measuredScore traceId name scores
  rw [none] at measured
  have derived := (foldl_rollName float config (SpanTree.build spans) scores
    (scoredNames (indexBySpan scores)) (keyed_foldl_measuredScore traceId scores) name measured).2
  rw [← rollup_eq_foldl, entry] at derived
  split at derived
  · exact derived.symm
  · cases derived

end Entries

/-! ## The version that is read -/

/-- A measured entry is the newest numeric score of its name on the trace, and a derived one
combines the newest score of its name of every span it names. -/
structure ReadsNewest (float : FloatOps) (config : RollupConfig) (traceId : String)
    (scores : List Score) (rolled : List RolledScore) : Prop where
  measured : ∀ name s, newestOf (onTrace traceId name scores) = some s →
    ∃ r ∈ rolled, r.name = name ∧ Verbatim r s
  derived : ∀ r ∈ rolled, r.measured = false → ∃ used : List Score,
    used.map (fun s => some s) =
        r.contributingSpanIds.map (fun q => newestOf (onSpan q r.name scores)) ∧
      r.dataType = (used.foldl (fun seen s => joinType seen s.dataType) none).getD .numeric ∧
      r.value = (config.functionFor r.name r.dataType).apply float
        (used.filterMap Score.numValue)

/-- The score a span carries is the first of its scores of the name. -/
theorem carriedScore_eq_head? (scores : List Score) (name q : String) :
    carriedScore (indexBySpan scores) name q = (onSpan q name scores).head? := by
  rw [carriedScore_indexBySpan]
  induction scores with
  | nil => rfl
  | cons s scores inductionHypothesis =>
    cases numeric : numericSpanScore s with
    | none =>
      rw [List.filterMap_cons_none numeric, inductionHypothesis]
      have other : onSpan q name [s] = [] := by
        rw [List.eq_nil_iff_forall_not_mem]
        intro s' listed
        simp only [onSpan, List.mem_filter, List.mem_singleton, Bool.and_eq_true,
          decide_eq_true_eq, Bool.not_eq_true', Bool.or_eq_false_iff,
          decide_eq_false_iff_not] at listed
        obtain ⟨isS, ⟨⟨target, -⟩, number⟩, notCategorical, notText⟩ := listed
        rw [isS] at target number notCategorical notText
        rw [numericSpanScore_eq_some (e := (q, s)) |>.mpr
          ⟨rfl, target, number, notCategorical, notText⟩] at numeric
        cases numeric
      have split : onSpan q name (s :: scores) = onSpan q name [s] ++ onSpan q name scores :=
        List.filter_append [s] scores
      rw [split, other, List.nil_append]
    | some e =>
      obtain ⟨isS, target, number, notCategorical, notText⟩ := numericSpanScore_eq_some.mp numeric
      rw [List.filterMap_cons_some numeric]
      by_cases here : e.1 = q
      · rw [List.filter_cons_of_pos (by simpa using here), List.map_cons, isS]
        by_cases named : s.name = name
        · rw [List.find?_cons_of_pos (by simpa using named)]
          simp [onSpan, target, here, named, number, notCategorical, notText]
        · rw [List.find?_cons_of_neg (by simpa using named), inductionHypothesis]
          simp [onSpan, named]
      · rw [List.filter_cons_of_neg (by simpa using here), inductionHypothesis]
        simp [onSpan, target, here]

section ReadsNewest

variable {float : FloatOps} {config : RollupConfig} {traceId : String}
  {spans : List NormalizedSpan} {scores : List Score}

theorem derivedScore_newest (newestFirst : NewestFirst scores) {tree : SpanTree} {name : String}
    {r : RolledScore}
    (derived : derivedScore float config tree (indexBySpan scores) name = some r) :
    r.measured = false ∧ r.name = name ∧ ∃ used : List Score,
      used.map (fun s => some s) =
          r.contributingSpanIds.map (fun q => newestOf (onSpan q name scores)) ∧
        r.dataType = (used.foldl (fun seen s => joinType seen s.dataType) none).getD .numeric ∧
        r.value = (config.functionFor name r.dataType).apply float
          (used.filterMap Score.numValue) := by
  have carried (c) (found : c ∈ tree.shallowestCarriers name (indexBySpan scores)) :
      some c.2 = newestOf (onSpan c.1 name scores) := by
    rw [newestFirst.onSpan, ← carriedScore_eq_head?, carrier_carried found]
  have combined := foldl_combineCarrier (tree.shallowestCarriers name (indexBySpan scores))
    (fun c found => ((carriedScore_spec scores name c.1).1 c.2 (carrier_carried found)).1) [] []
    none
  unfold derivedScore at derived
  simp only [combined, List.nil_append] at derived
  split at derived
  · cases derived
  · split at derived
    · cases derived
    · cases derived
      refine ⟨rfl, rfl, (tree.shallowestCarriers name (indexBySpan scores)).map Prod.snd, ?_, ?_, ?_⟩
      · rw [List.map_map, List.map_map]
        exact List.map_congr_left carried
      · rw [List.foldl_map]
      · rw [List.filterMap_map]
        rfl

theorem newest_last (newestFirst : NewestFirst scores) {name : String} {s : Score}
    (newest : newestOf (onTrace traceId name scores) = some s) :
    ∃ oldest, (onTrace traceId name scores).getLast? = some oldest := by
  rw [newestFirst.onTrace] at newest
  cases listed : onTrace traceId name scores with
  | nil => simp [listed] at newest
  | cons first rest => exact ⟨_, List.getLast?_eq_some_getLast (List.cons_ne_nil first rest)⟩

/-- The entry of a name on the trace is the newest score exactly where the oldest one, which
is read, has the same value and type. -/
theorem measured_newest_iff {name : String} {s oldest : Score}
    (last : (onTrace traceId name scores).getLast? = some oldest) :
    (∃ r ∈ rollupTrace float traceId spans scores config, r.name = name ∧ Verbatim r s) ↔
      oldest.numValue = s.numValue ∧ oldest.dataType = s.dataType := by
  obtain ⟨r, entry, measured, value, dataType⟩ :=
    rollup_of_measured float config traceId spans scores last
  constructor
  · intro ⟨r', listed, named, _, value', dataType'⟩
    rw [mem_rollupTrace, named, entry] at listed
    cases listed
    exact ⟨value.symm.trans value', dataType.symm.trans dataType'⟩
  · intro ⟨sameValue, sameType⟩
    have named := keyed_rollup float config traceId spans scores name r entry
    refine ⟨r, ?_, named, measured, value.trans sameValue, dataType.trans sameType⟩
    rw [mem_rollupTrace, named]
    exact entry

/-- Derived entries always read the newest scores; the measured ones do exactly where the
newest and the oldest score of each name on the trace agree in value and type. -/
theorem readsNewest_iff (float : FloatOps) (config : RollupConfig) (traceId : String)
    (spans : List NormalizedSpan) (newestFirst : NewestFirst scores) :
    ReadsNewest float config traceId scores (rollupTrace float traceId spans scores config) ↔
      ∀ name s oldest, newestOf (onTrace traceId name scores) = some s →
        (onTrace traceId name scores).getLast? = some oldest →
          oldest.numValue = s.numValue ∧ oldest.dataType = s.dataType := by
  constructor
  · intro reads name s oldest newest last
    exact (measured_newest_iff last).mp (reads.measured name s newest)
  · intro agree
    constructor
    · intro name s newest
      obtain ⟨oldest, last⟩ := newest_last newestFirst newest
      exact (measured_newest_iff last).mpr (agree name s oldest newest last)
    · intro r listed derived
      have entry := (mem_rollupTrace float config traceId spans scores).mp listed
      cases last : (onTrace traceId r.name scores).getLast? with
      | some oldest =>
        obtain ⟨r', entry', measured, -⟩ := rollup_of_measured float config traceId spans scores last
        rw [entry] at entry'
        cases entry'
        rw [measured] at derived
        cases derived
      | none =>
        have unmeasured := List.getLast?_eq_none_iff.mp last
        exact (derivedScore_newest newestFirst
          (rollup_of_unmeasured float config traceId spans scores unmeasured entry)).2.2

end ReadsNewest

/-- A trace judged twice: 1, and earlier 0. -/
def rejudged : List Score :=
  [{ id := "b", target := .trace "t", name := "q", numValue := some (.finite 1), tsUnixNano := 2 },
    { id := "a", target := .trace "t", name := "q", numValue := some (.finite 0), tsUnixNano := 1 }]

theorem rejudged_newestFirst : NewestFirst rejudged := by
  simp [NewestFirst, rejudged]

theorem readsNewest_iff_rejudged :
    ReadsNewest exactOps {} "t" rejudged (rollupTrace exactOps "t" [] rejudged {}) ↔
      ∀ name s oldest, newestOf (onTrace "t" name rejudged) = some s →
        (onTrace "t" name rejudged).getLast? = some oldest →
          oldest.numValue = s.numValue ∧ oldest.dataType = s.dataType :=
  readsNewest_iff exactOps {} "t" [] rejudged_newestFirst

/-- The trace is rolled up to the earlier verdict. -/
theorem oldest_is_read : NewestFirst rejudged ∧
    ¬ ReadsNewest exactOps {} "t" rejudged (rollupTrace exactOps "t" [] rejudged {}) := by
  refine ⟨rejudged_newestFirst, ?_⟩
  intro reads
  have newest : newestOf (onTrace "t" "q" rejudged) = rejudged.head? := by decide
  have entry := reads.measured "q" _ newest
  have last : (onTrace "t" "q" rejudged).getLast? = some (rejudged.getLast (by decide)) := by decide
  rw [measured_newest_iff last] at entry
  exact absurd entry.1 (by decide)

end Evald.Rollup
