import Evald.Store.QueryRun

/-! # The SQL view beside the running store

`register_spans` one step at a time: the committed blocks are listed and each is
looked for on disk (once more from a new listing when one has vanished), and only then
is the hot tier copied.  A segment that is flushed and dropped between the two reads is
in neither; `view_complete` says that nothing else is ever missed.
-/

namespace Evald.Store

open Evald.Lib

/-- A registered block: its path, and the rows of the file found there. -/
abbrev Url := BlockPath × List NormalizedSpan

inductive SqlPc where
  | idle
  | called
  /-- `cold_urls` on a listing; `listedAt` is the watermark at that listing. -/
  | checking (attempts listedAt : Nat) (urls : List Url) (todo : List BlockPath)
  /-- `cold_spans` is registered. -/
  | registered (listedAt : Nat) (urls : List Url)
  | done (urls : List Url) (hot : List NormalizedSpan)
  | failed

structure SqlRun where
  acked : List NormalizedSpan := []
  pc : SqlPc := .idle

/-- The blocks the query has listed and not looked for yet. -/
def SqlRun.pending (run : SqlRun) : List BlockPath :=
  match run.pc with
  | .checking _ _ _ todo => todo
  | _ => []

/-- One span per key: the first to arrive. -/
def HotTier.hotSpans (hot : HotTier) : List NormalizedSpan :=
  firstCopies spanKey [] hot.allSpans

inductive SqlStep (s : Live) : SqlRun → SqlRun → Prop where
  | call : SqlStep s {} { acked := s.settled, pc := .called }
  | list {acked : List NormalizedSpan} :
      SqlStep s { acked := acked, pc := .called }
        { acked := acked
          pc := .checking 1 s.disk.watermark [] s.disk.cold.index.allBlockPaths }
  | found {acked : List NormalizedSpan} {attempts listedAt : Nat} {urls : List Url}
      {todo : List BlockPath} {p : BlockPath} {file : BlockFile}
      (there : s.disk.cold.files[p]? = some file) :
      SqlStep s { acked := acked, pc := .checking attempts listedAt urls (p :: todo) }
        { acked := acked, pc := .checking attempts listedAt (urls ++ [(p, file.rows)]) todo }
  | relist {acked : List NormalizedSpan} {listedAt : Nat} {urls : List Url}
      {todo : List BlockPath} {p : BlockPath} (vanished : s.disk.cold.files[p]? = none) :
      SqlStep s { acked := acked, pc := .checking 1 listedAt urls (p :: todo) }
        { acked := acked
          pc := .checking 2 s.disk.watermark [] s.disk.cold.index.allBlockPaths }
  | fail {acked : List NormalizedSpan} {attempts listedAt : Nat} {urls : List Url}
      {todo : List BlockPath} {p : BlockPath} (vanished : s.disk.cold.files[p]? = none)
      (again : attempts ≠ 1) :
      SqlStep s { acked := acked, pc := .checking attempts listedAt urls (p :: todo) }
        { acked := acked, pc := .failed }
  | register {acked : List NormalizedSpan} {attempts listedAt : Nat} {urls : List Url} :
      SqlStep s { acked := acked, pc := .checking attempts listedAt urls [] }
        { acked := acked, pc := .registered listedAt urls }
  | snapshot {acked : List NormalizedSpan} {listedAt : Nat} {urls : List Url} :
      SqlStep s { acked := acked, pc := .registered listedAt urls }
        { acked := acked, pc := .done urls s.proc.hot.hotSpans }

/-- The store or the query moves.  A merge, where one runs, is to a path that is neither
indexed nor one the query still has to look for. -/
inductive SqlSystemStep : Live × SqlRun → Live × SqlRun → Prop where
  | store {wrote : Option BlockPath} {s s' : Live} {run : SqlRun}
      (stepped : StoreStep wrote s s')
      (fresh : ∀ p, wrote = some p → ¬ s.disk.cold.index.Names p ∧ p ∉ run.pending) :
      SqlSystemStep (s, run) (s', run)
  | query {s : Live} {run run' : SqlRun} (stepped : SqlStep s run run') :
      SqlSystemStep (s, run) (s, run')

/-- The watermark at the listing, while the hot tier is still to be copied. -/
def SqlRun.listedAt (run : SqlRun) : Option Nat :=
  match run.pc with
  | .checking _ listedAt _ _ => some listedAt
  | .registered listedAt _ => some listedAt
  | _ => none

/-- The step drops a segment from the hot tier that was committed after the query listed
the blocks, before the query has copied the hot tier. -/
def Overtakes (a b : Live × SqlRun) : Prop :=
  ∃ seqno rest listedAt, a.1.proc.compactor = .deleted seqno rest ∧
    b.1.proc.compactor = .listed rest ∧ a.2.listedAt = some listedAt ∧ listedAt < seqno

def SqlStart (a : Live × SqlRun) : Prop := SystemReachable (.live a.1) ∧ a.2 = {}

abbrev SqlReachable : Live × SqlRun → Prop := Reachable SqlStart SqlSystemStep

/-- Runs in which no segment is both committed and dropped between the two reads. -/
abbrev SqlReachableInTime : Live × SqlRun → Prop :=
  Reachable SqlStart (fun a b => SqlSystemStep a b ∧ ¬ Overtakes a b)

/-! ## The invariant -/

/-- The key is in a segment that was not committed at the listing. -/
def Live.Unflushed (s : Live) (listedAt : Nat) (k : SpanKey) : Prop :=
  ∃ n, listedAt < n ∧ HasKey (s.proc.hot.spansOf n) k

/-- The key is in one of the registered blocks. -/
def InBlocks (urls : List Url) (k : SpanKey) : Prop := ∃ block ∈ urls, HasKey block.2 k

def SqlOk (s : Live) (acked : List NormalizedSpan) : SqlPc → Prop
  | .idle => True
  | .called => True
  | .failed => True
  | .checking _ listedAt urls todo => (∀ p ∈ todo, s.Past p) ∧
    ∀ k, HasKey acked k → s.Unflushed listedAt k ∨ InBlocks urls k ∨ s.OnList todo k
  | .registered listedAt urls =>
    ∀ k, HasKey acked k → s.Unflushed listedAt k ∨ InBlocks urls k
  | .done urls hot => ∀ k, HasKey acked k → HasKey hot k ∨ InBlocks urls k

structure SqlInvariant (a : Live × SqlRun) : Prop where
  live : LiveInvariant a.1
  acked : ∀ k, HasKey a.2.acked k → HasKey a.1.settled k
  pc : SqlOk a.1 a.2.acked a.2.pc

/-- A listing and the segments above its watermark have everything that is settled. -/
theorem LiveInvariant.listed_or_unflushed {s : Live} (invariant : LiveInvariant s) {k : SpanKey}
    (settled : HasKey s.settled k) :
    s.Unflushed s.disk.watermark k ∨ s.OnList s.disk.cold.index.allBlockPaths k := by
  have onList : s.disk.cold.Holds k → s.OnList s.disk.cold.index.allBlockPaths k := by
    rintro ⟨p, named, held⟩
    exact ⟨p, Index.mem_allBlockPaths.mpr named, .inr held⟩
  rcases (invariant.readable k).mpr (.inl settled) with inHot | holds
  · obtain ⟨n, held⟩ := HotTier.mem_keys_allSpans.mp inHot
    rcases le_or_gt n s.disk.watermark with flushed | above
    · exact .inr (onList (invariant.retired n flushed k (.inl held)))
    · exact .inl ⟨n, above, held⟩
  · exact .inr (onList holds)

/-- A store step that drops no segment above `listedAt` takes none of its keys. -/
theorem StoreStep.unflushed {s s' : Live} {wrote : Option BlockPath}
    (stepped : StoreStep wrote s s') {listedAt : Nat}
    (inTime : ∀ seqno rest, s.proc.compactor = .deleted seqno rest →
      s'.proc.compactor = .listed rest → seqno ≤ listedAt)
    {k : SpanKey} (held : s.Unflushed listedAt k) : s'.Unflushed listedAt k := by
  obtain ⟨n, above, inSegment⟩ := held
  cases stepped with
  | live stepped =>
    rcases stepped.hot_cases n with ⟨more, grown⟩ | ⟨rest, deleted, dropped⟩
    · exact ⟨n, above, grown ▸ hasKey_append.mpr (.inl inSegment)⟩
    · exact absurd (inTime n rest deleted dropped) (not_le.mpr above)
  | merge stamp dir chunk locked named apart ran => exact ⟨n, above, inSegment⟩
  | sweep paths locked unindexed => exact ⟨n, above, inSegment⟩

theorem SqlInvariant.store {s s' : Live} {run : SqlRun} {wrote : Option BlockPath}
    (invariant : SqlInvariant (s, run)) (stepped : StoreStep wrote s s')
    (fresh : ∀ p, wrote = some p → ¬ s.disk.cold.index.Names p ∧ p ∉ run.pending)
    (inTime : ¬ Overtakes (s, run) (s', run)) : SqlInvariant (s', run) := by
  obtain ⟨live, keeps⟩ := stepped.keeps invariant.live (fun p same => (fresh p same).1)
  refine ⟨live, fun k held => keeps.settled k (invariant.acked k held), ?_⟩
  have ok := invariant.pc
  have apart : ∀ p, wrote = some p → p ∉ run.pending := fun p same => (fresh p same).2
  have dropsBelow : ∀ listedAt, run.listedAt = some listedAt → ∀ seqno rest,
      s.proc.compactor = .deleted seqno rest → s'.proc.compactor = .listed rest →
      seqno ≤ listedAt := by
    intro listedAt waiting seqno rest deleted dropped
    by_contra above
    exact inTime ⟨seqno, rest, listedAt, deleted, dropped, waiting, not_le.mp above⟩
  obtain ⟨acked, pc⟩ := run
  cases pc with
  | idle => trivial
  | called => trivial
  | failed => trivial
  | checking attempts listedAt urls todo =>
    obtain ⟨past, found⟩ := ok
    refine ⟨fun p member => keeps.past (past p member), fun k held => ?_⟩
    exact (found k held).imp (stepped.unflushed (dropsBelow listedAt rfl))
      (Or.imp_right (keeps.onList past apart))
  | registered listedAt urls =>
    exact fun k held => (ok k held).imp_left (stepped.unflushed (dropsBelow listedAt rfl))
  | done urls hot => exact ok

theorem SqlInvariant.query {s : Live} {run run' : SqlRun} (invariant : SqlInvariant (s, run))
    (stepped : SqlStep s run run') : SqlInvariant (s, run') := by
  have ok := invariant.pc
  have listing : (∀ p ∈ s.disk.cold.index.allBlockPaths, s.Past p) ∧
      ∀ k, HasKey run.acked k → s.Unflushed s.disk.watermark k ∨ InBlocks [] k ∨
        s.OnList s.disk.cold.index.allBlockPaths k :=
    ⟨fun p member => invariant.live.past (Index.mem_allBlockPaths.mp member),
      fun k held => (invariant.live.listed_or_unflushed (invariant.acked k held)).imp_right .inr⟩
  cases stepped with
  | call => exact ⟨invariant.live, fun k held => held, trivial⟩
  | list => exact ⟨invariant.live, invariant.acked, listing⟩
  -- the block moves from the list to the ones found
  | @found acked attempts listedAt urls todo p file there =>
    refine ⟨invariant.live, invariant.acked,
      fun q member => ok.1 q (List.mem_cons_of_mem p member), fun k held => ?_⟩
    refine (ok.2 k held).imp_right ?_
    rintro (⟨block, member, inBlock⟩ | ⟨q, member, onDisk⟩)
    · exact .inl ⟨block, List.mem_append_left _ member, inBlock⟩
    · rcases List.mem_cons.mp member with rfl | later
      · rw [rowsAt, there] at onDisk
        exact .inl ⟨(q, file.rows), by simp, onDisk.resolve_left (by simp)⟩
      · exact .inr ⟨q, later, onDisk⟩
  | relist vanished => exact ⟨invariant.live, invariant.acked, listing⟩
  | fail vanished again => exact ⟨invariant.live, invariant.acked, trivial⟩
  | register =>
    refine ⟨invariant.live, invariant.acked, fun k held => (ok.2 k held).imp_right ?_⟩
    rintro (inBlocks | ⟨p, member, -⟩)
    · exact inBlocks
    · cases member
  -- what no block has is still resident when the hot tier is copied
  | snapshot =>
    refine ⟨invariant.live, invariant.acked, fun k held => (ok k held).imp_left ?_⟩
    rintro ⟨n, -, inSegment⟩
    exact (mem_keys_firstCopies_nil _ _ _).mpr (HotTier.mem_keys_allSpans.mpr ⟨n, inSegment⟩)

theorem SqlReachableInTime.invariant {a : Live × SqlRun} (reached : SqlReachableInTime a) :
    SqlInvariant a := by
  refine Reachable.invariant ?_ ?_ reached
  · rintro ⟨s, run⟩ ⟨opened, rfl⟩
    exact ⟨(SystemReachable.invariant opened).1, fun k held => absurd held not_hasKey_nil, trivial⟩
  · rintro a b invariant ⟨stepped, inTime⟩
    cases stepped with
    | store stepped fresh => exact invariant.store stepped fresh inTime
    | query stepped => exact invariant.query stepped

/-- The `spans` view: the hot spans, and the cold ones that are no copy of one. -/
def spansView (urls : List Url) (hot : List NormalizedSpan) : List NormalizedSpan :=
  hot ++ (urls.flatMap Prod.snd).filter (fun s => spanKey s ∉ hot.map spanKey)

theorem mem_keys_spansView {urls : List Url} {hot : List NormalizedSpan} {k : SpanKey} :
    HasKey (spansView urls hot) k ↔ HasKey hot k ∨ InBlocks urls k := by
  have inBlocks : HasKey (urls.flatMap Prod.snd) k ↔ InBlocks urls k := by
    rw [HasKey, List.map_flatMap, List.mem_flatMap]
    rfl
  rw [spansView, hasKey_append, ← inBlocks]
  constructor
  · rintro (inHot | inCold)
    · exact .inl inHot
    · exact .inr (List.map_subset spanKey List.filter_sublist.subset inCold)
  · rintro (inHot | inCold)
    · exact .inl inHot
    · by_cases hidden : HasKey hot k
      · exact .inl hidden
      · obtain ⟨s, member, rfl⟩ := List.mem_map.mp inCold
        exact .inr (List.mem_map_of_mem (List.mem_filter.mpr ⟨member, decide_eq_true hidden⟩))

/-- In every run in which no segment is both committed and dropped between the listing and
the copy of the hot tier, every span ACKed before the query is in `hot_spans` or in a
registered block, and so in the view. -/
theorem view_complete {s : Live} {run : SqlRun} {urls : List Url} {hot : List NormalizedSpan}
    (reached : SqlReachableInTime (s, run)) (registered : run.pc = .done urls hot) :
    ∀ span ∈ run.acked, (HasKey hot (spanKey span) ∨ InBlocks urls (spanKey span)) ∧
      HasKey (spansView urls hot) (spanKey span) := by
  have ok := (SqlReachableInTime.invariant reached).pc
  rw [registered] at ok
  intro span member
  have found := ok _ (List.mem_map_of_mem member)
  exact ⟨found, mem_keys_spansView.mpr found⟩

/-- Steps of the store before the query lists the blocks. -/
theorem SqlReachableInTime.liveSteps {s s' : Live} {run : SqlRun}
    (reached : SqlReachableInTime (s, run)) (early : run.listedAt = none)
    (moved : LiveSteps s s') : SqlReachableInTime (s', run) := by
  induction moved with
  | refl => exact reached
  | tail _ stepped inductionHypothesis =>
    refine .next inductionHypothesis ⟨.store (.live stepped) (fun p impossible => ?_), ?_⟩
    · cases impossible
    · rintro ⟨seqno, rest, listedAt, -, -, waiting, -⟩
      rw [early] at waiting
      cases waiting

theorem SqlReachableInTime.query {s : Live} {run run' : SqlRun}
    (reached : SqlReachableInTime (s, run)) (stepped : SqlStep s run run') :
    SqlReachableInTime (s, run') := by
  refine .next reached ⟨.query stepped, ?_⟩
  rintro ⟨seqno, rest, listedAt, deleted, dropped, -⟩
  rw [deleted] at dropped
  cases dropped

/-- The segment of the span is committed, and still resident. -/
def committedSpan : Live := (aboutToFlush [oneSpan]).unlinked "t" 0 1 [oneSpan] []

/-- The segment is committed after the call, and dropped after the blocks are listed. -/
theorem view_complete_pushed : ∃ urls,
    SqlReachableInTime ((committedSpan.dropSegment 1).setCompactor (.listed []),
        ⟨[oneSpan], .done urls []⟩) ∧
      ∀ span ∈ [oneSpan], (HasKey [] (spanKey span) ∨ InBlocks urls (spanKey span)) ∧
        HasKey (spansView urls []) (spanKey span) := by
  have pending : (pushed [oneSpan]).pendingSegments 2 = [1] := by decide
  have start : SqlReachableInTime (aboutToFlush [oneSpan], {}) :=
    .start ⟨reachable_aboutToFlush [oneSpan] pending, rfl⟩
  have committed : SqlReachableInTime (committedSpan, ⟨[oneSpan], .called⟩) :=
    (start.query .call).liveSteps rfl (unlink_run "t" 0 rfl (segment_pushed [oneSpan]))
  obtain ⟨p, block⟩ : ∃ p, committedSpan.disk.cold.index.allBlockPaths = [p] :=
    List.length_eq_one_iff.mp (by decide)
  have stored : ∀ p ∈ committedSpan.disk.cold.index.allBlockPaths,
      (committedSpan.disk.cold.files[p]?).isSome = true := by decide
  obtain ⟨file, there⟩ := Option.isSome_iff_exists.mp (stored p (block ▸ List.mem_singleton_self p))
  have listed := committed.query .list
  rw [block] at listed
  have found : SqlReachableInTime
      (committedSpan, ⟨[oneSpan], .checking 1 1 [(p, file.rows)] []⟩) := listed.query (.found there)
  -- the segment goes after the listing that already has its block
  have dropped : SqlReachableInTime ((committedSpan.dropSegment 1).setCompactor (.listed []),
      ⟨[oneSpan], .checking 1 1 [(p, file.rows)] []⟩) := by
    refine .next found ⟨.store (.live (.dropSegment rfl)) (fun p impossible => ?_), ?_⟩
    · cases impossible
    · rintro ⟨seqno, rest, listedAt, deleted, -, waiting, above⟩
      cases deleted
      cases waiting
      exact absurd above (by decide)
  have none : (committedSpan.dropSegment 1).proc.hot.hotSpans.map spanKey = [] := by decide
  have returned := (dropped.query .register).query .snapshot
  have empty : ((committedSpan.dropSegment 1).setCompactor (.listed [])).proc.hot.hotSpans = [] :=
    List.map_eq_nil_iff.mp none
  rw [empty] at returned
  exact ⟨_, returned, view_complete returned rfl⟩

/-! ### A flush between the two reads -/

theorem SqlReachable.liveSteps {s s' : Live} {run : SqlRun} (reached : SqlReachable (s, run))
    (moved : LiveSteps s s') : SqlReachable (s', run) := by
  induction moved with
  | refl => exact reached
  | tail _ stepped inductionHypothesis =>
    exact .next inductionHypothesis (.store (.live stepped) (fun p impossible => by cases impossible))

/-- A query lists the blocks, the one segment is flushed and dropped, and the query then
copies an empty hot tier: the ACKed span is in neither. -/
theorem view_misses_acked : ∃ s run urls hot,
    SqlReachable (s, run) ∧ run.pc = .done urls hot ∧
      ∃ span ∈ run.acked, ¬ HasKey hot (spanKey span) ∧ ¬ InBlocks urls (spanKey span) := by
  have pending : (pushed [oneSpan]).pendingSegments 2 = [1] := by decide
  have called : SqlReachable (aboutToFlush [oneSpan], ⟨[oneSpan], .called⟩) :=
    .next (.start ⟨reachable_aboutToFlush [oneSpan] pending, rfl⟩) (.query .call)
  have listed := Reachable.next called (.query .list)
  have noBlock : (aboutToFlush [oneSpan]).disk.cold.index.allBlockPaths = [] := by decide
  rw [noBlock] at listed
  have registered := Reachable.next listed (.query .register)
  -- between the two reads the only copy moves from one to the other
  have flushed := SqlReachable.liveSteps registered (flush_run "t" 0 rfl (segment_pushed [oneSpan]))
  have returned := Reachable.next flushed (.query .snapshot)
  refine ⟨_, _, [], _, returned, rfl, oneSpan, List.mem_singleton_self _, ?_, ?_⟩
  · have empty : ((aboutToFlush [oneSpan]).flushed "t" 0 1 [oneSpan] []).proc.hot.hotSpans.map
        spanKey = [] := by decide
    rw [HasKey, empty]
    exact List.not_mem_nil
  · rintro ⟨block, member, -⟩
    cases member

end Evald.Store
