import Evald.Store.Cold
import Evald.Lib.Newest

/-! # The read path

`Store::query`: the hot tier first, then the blocks the index lists, each span
once, newest first and at most `limit` of them.  The bounded accumulator is a
heap whose maximum loses next; it is kept here as the sorted list that
`into_sorted_vec` gives.  `query_eq` is the closed form of the two loops.
-/

namespace Evald.Store

open Evald.Lib

/-! ## The hot tier -/

/-- Un-flushed spans grouped by their WAL segment. -/
abbrev HotTier := Std.ExtTreeMap Nat (List NormalizedSpan)

namespace HotTier

def loadSegment (hot : HotTier) (seqno : Nat) (spans : List NormalizedSpan) : HotTier :=
  if spans.isEmpty then hot else hot.insert seqno spans

def push (hot : HotTier) (seqno : Nat) (spans : List NormalizedSpan) : HotTier :=
  hot.insert seqno (hot.getD seqno [] ++ spans)

def dropSegment (hot : HotTier) (seqno : Nat) : HotTier := hot.erase seqno

def segment (hot : HotTier) (seqno : Nat) : Option (List NormalizedSpan) := hot[seqno]?

def segnos (hot : HotTier) : List Nat := hot.keys

def allSpans (hot : HotTier) : List NormalizedSpan := (hot.toList.map Prod.snd).flatten

/-- What `max_hot_spans` bounds. -/
def len (hot : HotTier) : Nat := (hot.toList.map (fun entry => entry.2.length)).sum

/-- The spans of one segment (none where it is not resident). -/
def spansOf (hot : HotTier) (seqno : Nat) : List NormalizedSpan := hot.getD seqno []

@[simp] theorem spansOf_empty (n : Nat) : spansOf ∅ n = [] := Std.ExtTreeMap.getD_empty

theorem spansOf_of_segment {hot : HotTier} {n : Nat} {spans : List NormalizedSpan}
    (resident : hot.segment n = some spans) : hot.spansOf n = spans := by
  rw [spansOf, Std.ExtTreeMap.getD_eq_getD_getElem?]
  exact congrArg (Option.getD · []) resident

theorem spansOf_of_segment_none {hot : HotTier} {n : Nat} (absent : hot.segment n = none) :
    hot.spansOf n = [] := by
  rw [spansOf, Std.ExtTreeMap.getD_eq_getD_getElem?]
  exact congrArg (Option.getD · []) absent

theorem segment_of_mem_segnos {hot : HotTier} {n : Nat} (member : n ∈ hot.segnos) :
    ∃ spans, hot.segment n = some spans :=
  ⟨_, Std.ExtTreeMap.getElem?_eq_some_getElem (Std.ExtTreeMap.mem_keys.mp member)⟩

theorem mem_segnos_of_segment {hot : HotTier} {n : Nat} {spans : List NormalizedSpan}
    (resident : hot.segment n = some spans) : n ∈ hot.segnos := by
  apply Std.ExtTreeMap.mem_keys.mpr
  rw [Std.ExtTreeMap.mem_iff_isSome_getElem?]
  exact Option.isSome_of_mem resident

theorem segment_none_of_not_mem_segnos {hot : HotTier} {n : Nat} (absent : n ∉ hot.segnos) :
    hot.segment n = none := by
  rw [segnos, Std.ExtTreeMap.mem_keys] at absent
  exact Std.ExtTreeMap.getElem?_eq_none absent

theorem spansOf_push (hot : HotTier) (seqno n : Nat) (spans : List NormalizedSpan) :
    (hot.push seqno spans).spansOf n =
      if seqno = n then hot.spansOf n ++ spans else hot.spansOf n := by
  rw [spansOf, push, Std.ExtTreeMap.getD_insert]
  simp only [Std.LawfulEqOrd.compare_eq_iff_eq]
  split
  · next same => rw [same, spansOf]
  · rfl

theorem segment_push_other {hot : HotTier} {seqno n : Nat} (spans : List NormalizedSpan)
    (other : seqno ≠ n) : (hot.push seqno spans).segment n = hot.segment n := by
  rw [segment, push, Std.ExtTreeMap.getElem?_insert, if_neg]
  · rfl
  · exact fun same => other (Std.LawfulEqOrd.compare_eq_iff_eq.mp same)

theorem spansOf_dropSegment (hot : HotTier) (seqno n : Nat) :
    (hot.dropSegment seqno).spansOf n = if seqno = n then [] else hot.spansOf n := by
  rw [spansOf, dropSegment, Std.ExtTreeMap.getD_erase]
  simp only [Std.LawfulEqOrd.compare_eq_iff_eq]
  rfl

theorem segment_dropSegment_other {hot : HotTier} {seqno n : Nat} (other : seqno ≠ n) :
    (hot.dropSegment seqno).segment n = hot.segment n := by
  rw [segment, dropSegment, Std.ExtTreeMap.getElem?_erase, if_neg]
  · rfl
  · exact fun same => other (Std.LawfulEqOrd.compare_eq_iff_eq.mp same)

theorem spansOf_loadSegment (hot : HotTier) (seqno n : Nat) (spans : List NormalizedSpan)
    (fresh : hot.spansOf seqno = []) :
    (hot.loadSegment seqno spans).spansOf n = if seqno = n then spans else hot.spansOf n := by
  unfold loadSegment
  split
  · next empty =>
    rw [List.isEmpty_iff] at empty
    by_cases same : seqno = n
    · rw [if_pos same, ← same, fresh, empty]
    · rw [if_neg same]
  · rw [spansOf, Std.ExtTreeMap.getD_insert]
    simp only [Std.LawfulEqOrd.compare_eq_iff_eq]
    rfl

theorem mem_allSpans {hot : HotTier} {s : NormalizedSpan} :
    s ∈ hot.allSpans ↔ ∃ n, s ∈ hot.spansOf n := by
  simp only [allSpans, List.mem_flatten, List.mem_map]
  constructor
  · rintro ⟨spans, ⟨⟨n, spans⟩, listed, rfl⟩, member⟩
    rw [Std.ExtTreeMap.mem_toList_iff_getElem?_eq_some] at listed
    exact ⟨n, by rw [spansOf_of_segment listed]; exact member⟩
  · rintro ⟨n, member⟩
    cases resident : hot.segment n with
    | none =>
      rw [spansOf_of_segment_none resident] at member
      cases member
    | some spans =>
      rw [spansOf_of_segment resident] at member
      exact ⟨spans, ⟨(n, spans), Std.ExtTreeMap.mem_toList_iff_getElem?_eq_some.mpr resident, rfl⟩,
        member⟩

theorem mem_keys_allSpans {hot : HotTier} {k : SpanKey} :
    k ∈ hot.allSpans.map spanKey ↔ ∃ n, k ∈ (hot.spansOf n).map spanKey := by
  simp only [List.mem_map, mem_allSpans]
  constructor
  · rintro ⟨s, ⟨n, member⟩, same⟩
    exact ⟨n, s, member, same⟩
  · rintro ⟨n, s, member, same⟩
    exact ⟨s, ⟨n, member⟩, same⟩

end HotTier

/-! ## Accumulating rows -/

def usizeMax : Nat := 2 ^ 64 - 1

/-- A candidate; greater means "loses first". -/
structure Loser where
  start : Nat
  seq : Nat
  item : NormalizedSpan

/-- Older loses first, then later insertion. -/
def Loser.le (a b : Loser) : Prop := b.start < a.start ∨ b.start = a.start ∧ a.seq ≤ b.seq

instance : DecidableRel Loser.le := fun a b =>
  inferInstanceAs (Decidable (b.start < a.start ∨ b.start = a.start ∧ a.seq ≤ b.seq))

structure TopN where
  /-- In ascending order: the last one is the heap's maximum. -/
  heap : List Loser
  limit : Nat
  seq : Nat

def TopN.new (limit : Nat) : TopN := { heap := [], limit := limit, seq := 0 }

def TopN.push (top : TopN) (start : Nat) (item : NormalizedSpan) : TopN :=
  let pushed := top.heap.orderedInsert Loser.le { start := start, seq := top.seq, item := item }
  { top with
    heap := if top.limit < pushed.length then pushed.dropLast else pushed
    seq := top.seq + 1 }

def TopN.intoVec (top : TopN) : List NormalizedSpan := top.heap.map Loser.item

/-- How a read accumulates its result. -/
inductive Rows where
  | top (selection : TopN)
  | all (spans : List NormalizedSpan)

def Rows.new (limit : Nat) : Rows :=
  if limit = usizeMax then .all [] else .top (TopN.new limit)

def Rows.push (rows : Rows) (span : NormalizedSpan) : Rows :=
  match rows with
  | .top selection => .top (selection.push span.startUnixNano span)
  | .all spans => .all (spans ++ [span])

def Rows.intoVec : Rows → List NormalizedSpan
  | .top selection => selection.intoVec
  | .all spans => newestFirst NormalizedSpan.startUnixNano spans

/-! ## The two loops -/

/-- The rows so far and the keys seen. -/
abbrev Selection := Rows × List SpanKey

def selectHot (traceId : Option String) (state : Selection) (s : NormalizedSpan) : Selection :=
  if traceMatches traceId s && decide (spanKey s ∉ state.2) then
    (state.1.push s, spanKey s :: state.2)
  else state

def selectCold (traceId : Option String) (hotSeen : List SpanKey) (state : Selection)
    (s : NormalizedSpan) : Selection :=
  if !traceMatches traceId s then state
  else if decide (spanKey s ∉ hotSeen) && decide (spanKey s ∉ state.2) then
    (state.1.push s, spanKey s :: state.2)
  else state

/-- The hot part of a read, under the read lock. -/
def readHot (hot : HotTier) (traceId : Option String) (limit : Nat) : Selection :=
  hot.allSpans.foldl (selectHot traceId) (Rows.new limit, [])

/-- One block of the cold part; `none` where the file is gone. -/
def readBlock (files : Files) (traceId : Option String) (hotSeen : List SpanKey)
    (state : Selection) (rel : BlockPath) : Option Selection :=
  (files[rel]?).map (fun file => file.rows.foldl (selectCold traceId hotSeen) state)

def listBlocks (index : Index) (traceId : Option String) : List BlockPath :=
  match traceId with
  | some t => index.blockPathsForTrace t
  | none => index.allBlockPaths

/-- Cold rows are merged in behind the hot ones in result order. -/
def mergeRows (hot cold : Rows) : List NormalizedSpan :=
  (cold.intoVec.foldl Rows.push hot).intoVec

/-- One attempt at the cold part. -/
def attempt (cold : ColdState) (traceId : Option String) (hotSeen : List SpanKey) (limit : Nat) :
    Option Selection :=
  (listBlocks cold.index traceId).foldlM (readBlock cold.files traceId hotSeen)
    (Rows.new limit, [])

/-- A read of a store at rest.  A file that has vanished is looked for once more, in
a new listing. -/
def query (hot : HotTier) (cold : ColdState) (traceId : Option String) (limit : Nat) :
    Option (List NormalizedSpan) :=
  if limit = 0 then some []
  else
    let (rows, hotSeen) := readHot hot traceId limit
    (attempt cold traceId hotSeen limit <|> attempt cold traceId hotSeen limit).map
      (fun selected => mergeRows rows selected.1)

/-! ## The accumulator keeps the newest -/

/-- The first `limit`, where `usize::MAX` is no limit. -/
def upTo (limit : Nat) (spans : List NormalizedSpan) : List NormalizedSpan :=
  if limit = usizeMax then spans else spans.take limit

theorem map_item_orderedInsert (entry : Loser) {heap : List Loser}
    (older : ∀ l ∈ heap, l.seq < entry.seq ∧ l.item.startUnixNano = l.start)
    (own : entry.item.startUnixNano = entry.start) :
    (heap.orderedInsert Loser.le entry).map Loser.item =
      place NormalizedSpan.startUnixNano entry.item (heap.map Loser.item) := by
  induction heap with
  | nil => rfl
  | cons l heap inductionHypothesis =>
    obtain ⟨⟨earlier, lOwn⟩, rest⟩ := List.forall_mem_cons.mp older
    rw [List.orderedInsert_cons, List.map_cons, place, own, lOwn]
    by_cases behind : entry.start ≤ l.start
    · have stays : ¬ Loser.le entry l := by
        rintro (newer | ⟨-, sooner⟩) <;> omega
      rw [if_neg stays, if_pos behind, List.map_cons, inductionHypothesis rest]
    · have wins : Loser.le entry l := .inl (by omega)
      rw [if_pos wins, if_neg behind, List.map_cons, List.map_cons]

/-- The entries are numbered in the order they came and carry their own start. -/
structure TopN.Numbered (top : TopN) : Prop where
  within : top.heap.length ≤ top.limit
  entries : ∀ l ∈ top.heap, l.seq < top.seq ∧ l.item.startUnixNano = l.start

theorem TopN.push_numbered {top : TopN} (numbered : top.Numbered) (s : NormalizedSpan) :
    (top.push s.startUnixNano s).Numbered ∧
      (top.push s.startUnixNano s).intoVec =
        (place NormalizedSpan.startUnixNano s top.intoVec).take top.limit := by
  have length := List.orderedInsert_length Loser.le top.heap
    { start := s.startUnixNano, seq := top.seq, item := s }
  have selected := map_item_orderedInsert
    { start := s.startUnixNano, seq := top.seq, item := s } numbered.entries rfl
  have fromHeap : ∀ l ∈ top.heap.orderedInsert Loser.le
      { start := s.startUnixNano, seq := top.seq, item := s },
      l.seq < top.seq + 1 ∧ l.item.startUnixNano = l.start := by
    intro l member
    rcases List.mem_orderedInsert Loser.le |>.mp member with rfl | old
    · exact ⟨Nat.lt_succ_self _, rfl⟩
    · exact ⟨(numbered.entries l old).1.trans (Nat.lt_succ_self _), (numbered.entries l old).2⟩
  have within := numbered.within
  unfold TopN.push TopN.intoVec
  dsimp only
  rw [← selected]
  split
  · next full =>
    refine ⟨⟨?_, fun l member => fromHeap l (List.dropLast_sublist _ |>.subset member)⟩, ?_⟩
    · dsimp only
      rw [List.length_dropLast]
      omega
    · rw [List.map_dropLast, List.dropLast_eq_take, List.length_map]
      congr 1
      omega
  · next room =>
    refine ⟨⟨by dsimp only; omega, fromHeap⟩, ?_⟩
    rw [List.take_of_length_le]
    rw [List.length_map]
    omega

theorem TopN.foldl_push {top : TopN} (numbered : top.Numbered) (spans : List NormalizedSpan) :
    (spans.foldl (fun t s => t.push s.startUnixNano s) top).intoVec =
      spans.foldl (fun kept s => (place NormalizedSpan.startUnixNano s kept).take top.limit)
        top.intoVec := by
  induction spans generalizing top with
  | nil => rfl
  | cons s spans inductionHypothesis =>
    obtain ⟨pushed, vec⟩ := TopN.push_numbered numbered s
    have sameLimit : (top.push s.startUnixNano s).limit = top.limit := rfl
    rw [List.foldl_cons, List.foldl_cons, inductionHypothesis pushed, vec, sameLimit]

theorem Rows.foldl_push_all (spans more : List NormalizedSpan) :
    more.foldl Rows.push (.all spans) = .all (spans ++ more) := by
  induction more generalizing spans with
  | nil => rw [List.append_nil]; rfl
  | cons s more inductionHypothesis =>
    rw [List.foldl_cons, Rows.push, inductionHypothesis, List.append_assoc, List.singleton_append]

theorem Rows.foldl_push_top (top : TopN) (more : List NormalizedSpan) :
    more.foldl Rows.push (.top top) =
      .top (more.foldl (fun t s => t.push s.startUnixNano s) top) := by
  induction more generalizing top with
  | nil => rfl
  | cons s more inductionHypothesis =>
    rw [List.foldl_cons, Rows.push, inductionHypothesis, List.foldl_cons]

/-- Pushing spans and taking the result sorts them and keeps the newest. -/
theorem Rows.intoVec_foldl_push (limit : Nat) (spans : List NormalizedSpan) :
    (spans.foldl Rows.push (Rows.new limit)).intoVec =
      upTo limit (newestFirst NormalizedSpan.startUnixNano spans) := by
  unfold Rows.new upTo
  split
  · rw [Rows.foldl_push_all, List.nil_append, Rows.intoVec]
  · have numbered : (TopN.new limit).Numbered := ⟨Nat.zero_le _, fun l member => by cases member⟩
    rw [Rows.foldl_push_top, Rows.intoVec, TopN.foldl_push numbered]
    exact newest_eq_take limit spans

theorem mergeRows_eq (limit : Nat) (hot cold : List NormalizedSpan) :
    mergeRows (hot.foldl Rows.push (Rows.new limit)) (cold.foldl Rows.push (Rows.new limit)) =
      upTo limit (newestFirst NormalizedSpan.startUnixNano (hot ++ cold)) := by
  rw [mergeRows, Rows.intoVec_foldl_push, ← List.foldl_append, Rows.intoVec_foldl_push]
  unfold upTo
  split
  · exact newestFirst_append_newestFirst hot cold
  · exact take_newestFirst_append_take limit hot cold

/-! ## The loops keep first copies -/

theorem foldl_selectHot (traceId : Option String) (spans : List NormalizedSpan) (rows : Rows)
    (seen : List SpanKey) :
    ∃ seen', spans.foldl (selectHot traceId) (rows, seen) =
        ((firstCopies spanKey seen (spans.filter (traceMatches traceId))).foldl Rows.push rows,
          seen') ∧
      ∀ k, k ∈ seen' ↔ k ∈ (spans.filter (traceMatches traceId)).map spanKey ∨ k ∈ seen := by
  induction spans generalizing rows seen with
  | nil => exact ⟨seen, rfl, fun k => by simp⟩
  | cons s spans inductionHypothesis =>
    rw [List.foldl_cons]
    by_cases wanted : traceMatches traceId s = true
    · rw [List.filter_cons_of_pos wanted]
      by_cases known : spanKey s ∈ seen
      · have skips : selectHot traceId (rows, seen) s = (rows, seen) := by
          simp [selectHot, known]
        obtain ⟨seen', loop, keys⟩ := inductionHypothesis rows seen
        refine ⟨seen', by rw [skips, loop, firstCopies_cons_seen _ known], fun k => ?_⟩
        rw [keys, List.map_cons, List.mem_cons]
        constructor
        · exact Or.imp_left .inr
        · rintro ((rfl | later) | old)
          · exact .inr known
          · exact .inl later
          · exact .inr old
      · have takes : selectHot traceId (rows, seen) s = (rows.push s, spanKey s :: seen) := by
          simp [selectHot, wanted, known]
        obtain ⟨seen', loop, keys⟩ := inductionHypothesis (rows.push s) (spanKey s :: seen)
        refine ⟨seen', by rw [takes, loop, firstCopies_cons_new _ known, List.foldl_cons],
          fun k => ?_⟩
        rw [keys, List.map_cons, List.mem_cons, List.mem_cons]
        tauto
    · have skips : selectHot traceId (rows, seen) s = (rows, seen) := by
        simp [selectHot, wanted]
      rw [skips, List.filter_cons_of_neg wanted]
      exact inductionHypothesis rows seen

/-- What a read takes from cold rows: those of the trace that the hot part has not
shown. -/
def coldWanted (traceId : Option String) (hotSeen : List SpanKey) (spans : List NormalizedSpan) :
    List NormalizedSpan :=
  (spans.filter (traceMatches traceId)).filter (fun s => spanKey s ∉ hotSeen)

theorem foldl_selectCold (traceId : Option String) (hotSeen : List SpanKey)
    (spans : List NormalizedSpan) (rows : Rows) (seen : List SpanKey) :
    ∃ seen', spans.foldl (selectCold traceId hotSeen) (rows, seen) =
        ((firstCopies spanKey seen (coldWanted traceId hotSeen spans)).foldl Rows.push rows,
          seen') ∧
      ∀ k, k ∈ seen' ↔ k ∈ (coldWanted traceId hotSeen spans).map spanKey ∨ k ∈ seen := by
  unfold coldWanted
  -- on the rows: not asked for, shown by the hot tier, seen already, or new
  induction spans generalizing rows seen with
  | nil => exact ⟨seen, rfl, fun k => by simp⟩
  | cons s spans inductionHypothesis =>
    rw [List.foldl_cons]
    by_cases wanted : traceMatches traceId s = true
    · rw [List.filter_cons_of_pos wanted]
      by_cases shown : spanKey s ∈ hotSeen
      · have skips : selectCold traceId hotSeen (rows, seen) s = (rows, seen) := by
          simp [selectCold, shown]
        rw [skips, List.filter_cons_of_neg (by simpa using shown)]
        exact inductionHypothesis rows seen
      · rw [List.filter_cons_of_pos (by simpa using shown)]
        by_cases known : spanKey s ∈ seen
        · have skips : selectCold traceId hotSeen (rows, seen) s = (rows, seen) := by
            simp [selectCold, known]
          obtain ⟨seen', loop, keys⟩ := inductionHypothesis rows seen
          refine ⟨seen', by rw [skips, loop, firstCopies_cons_seen _ known], fun k => ?_⟩
          rw [keys, List.map_cons, List.mem_cons]
          constructor
          · exact Or.imp_left .inr
          · rintro ((rfl | later) | old)
            · exact .inr known
            · exact .inl later
            · exact .inr old
        · have takes : selectCold traceId hotSeen (rows, seen) s =
              (rows.push s, spanKey s :: seen) := by
            simp [selectCold, wanted, shown, known]
          obtain ⟨seen', loop, keys⟩ := inductionHypothesis (rows.push s) (spanKey s :: seen)
          refine ⟨seen', by rw [takes, loop, firstCopies_cons_new _ known, List.foldl_cons],
            fun k => ?_⟩
          rw [keys, List.map_cons, List.mem_cons, List.mem_cons]
          tauto
    · have skips : selectCold traceId hotSeen (rows, seen) s = (rows, seen) := by
        simp [selectCold, wanted]
      rw [skips, List.filter_cons_of_neg wanted]
      exact inductionHypothesis rows seen

/-- All rows of the listed blocks, in listing order. -/
def listedRows (files : Files) (paths : List BlockPath) : List NormalizedSpan :=
  paths.flatMap (rowsAt files)

theorem foldlM_readBlock {files : Files} {traceId : Option String} {hotSeen : List SpanKey}
    {paths : List BlockPath} (stored : ∀ p ∈ paths, ∃ file, files[p]? = some file)
    (state : Selection) :
    paths.foldlM (readBlock files traceId hotSeen) state =
      some ((listedRows files paths).foldl (selectCold traceId hotSeen) state) := by
  induction paths generalizing state with
  | nil => rfl
  | cons p paths inductionHypothesis =>
    obtain ⟨⟨file, found⟩, storedLater⟩ := List.forall_mem_cons.mp stored
    have read : readBlock files traceId hotSeen state p =
        some ((rowsAt files p).foldl (selectCold traceId hotSeen) state) := by
      rw [readBlock, rowsAt, found]
      rfl
    rw [List.foldlM_cons, read]
    change paths.foldlM (readBlock files traceId hotSeen) _ = _
    rw [inductionHypothesis storedLater, ← List.foldl_append]
    rfl

/-- The spans of a read, before they are sorted and cut: the hot ones, then those of
`rows` the hot tier does not have. -/
def combine (hot : HotTier) (traceId : Option String) (rows : List NormalizedSpan) :
    List NormalizedSpan :=
  let shown := hot.allSpans.filter (traceMatches traceId)
  firstCopies spanKey [] shown ++
    firstCopies spanKey [] (coldWanted traceId (shown.map spanKey) rows)

/-- A read of the blocks the index lists. -/
def readSpans (hot : HotTier) (cold : ColdState) (traceId : Option String) : List NormalizedSpan :=
  combine hot traceId (listedRows cold.files (listBlocks cold.index traceId))

theorem coldWanted_congr {traceId : Option String} {hotSeen hotSeen' : List SpanKey}
    (same : ∀ k, k ∈ hotSeen ↔ k ∈ hotSeen') (spans : List NormalizedSpan) :
    coldWanted traceId hotSeen spans = coldWanted traceId hotSeen' spans := by
  unfold coldWanted
  exact List.filter_congr (fun s _ => by simp [same])

/-- The two loops, merged, for the cold rows `rows`. -/
theorem mergeRows_readHot (hot : HotTier) (traceId : Option String) (limit : Nat)
    (rows : List NormalizedSpan) :
    mergeRows (readHot hot traceId limit).1
        (rows.foldl (selectCold traceId (readHot hot traceId limit).2) (Rows.new limit, [])).1 =
      upTo limit (newestFirst NormalizedSpan.startUnixNano (combine hot traceId rows)) := by
  obtain ⟨hotSeen, hotLoop, hotKeys⟩ :=
    foldl_selectHot traceId hot.allSpans (Rows.new limit) []
  obtain ⟨coldSeen, coldLoop, -⟩ := foldl_selectCold traceId hotSeen rows (Rows.new limit) []
  have sameSeen : ∀ k, k ∈ hotSeen ↔
      k ∈ (hot.allSpans.filter (traceMatches traceId)).map spanKey := by
    intro k
    rw [hotKeys]
    simp
  rw [readHot, hotLoop]
  dsimp only
  rw [coldLoop, mergeRows_eq, combine, coldWanted_congr sameSeen]

/-- A read of a store whose listed blocks are all on disk succeeds, and this is its
result. -/
theorem query_eq {hot : HotTier} {cold : ColdState} {traceId : Option String} {limit : Nat}
    (stored : ∀ p ∈ listBlocks cold.index traceId, ∃ file, cold.files[p]? = some file)
    (positive : limit ≠ 0) :
    query hot cold traceId limit =
      some (upTo limit (newestFirst NormalizedSpan.startUnixNano
        (readSpans hot cold traceId))) := by
  have attempted : attempt cold traceId (readHot hot traceId limit).2 limit =
      some ((listedRows cold.files (listBlocks cold.index traceId)).foldl
        (selectCold traceId (readHot hot traceId limit).2) (Rows.new limit, [])) :=
    foldlM_readBlock stored _
  rw [query, if_neg positive]
  dsimp only
  rw [attempted, readSpans, ← mergeRows_readHot]
  rfl

/-! ## The keys of a read -/

/-- No span is read twice. -/
theorem nodup_keys_combine (hot : HotTier) (traceId : Option String) (rows : List NormalizedSpan) :
    ((combine hot traceId rows).map spanKey).Nodup := by
  rw [combine, List.map_append, List.nodup_append]
  refine ⟨nodup_keys_firstCopies _ _ _, nodup_keys_firstCopies _ _ _, ?_⟩
  rintro k inHot _ inCold rfl
  rw [mem_keys_firstCopies_nil] at inHot inCold
  obtain ⟨s, member, rfl⟩ := List.mem_map.mp inCold
  have hidden := (List.mem_filter.mp member).2
  exact absurd inHot (of_decide_eq_true hidden)

theorem mem_keys_combine {hot : HotTier} {traceId : Option String} {rows : List NormalizedSpan}
    {k : SpanKey} :
    k ∈ (combine hot traceId rows).map spanKey ↔
      k ∈ (hot.allSpans.filter (traceMatches traceId)).map spanKey ∨
        k ∈ (rows.filter (traceMatches traceId)).map spanKey := by
  rw [combine, List.map_append, List.mem_append, mem_keys_firstCopies_nil,
    mem_keys_firstCopies_nil]
  constructor
  · rintro (inHot | inCold)
    · exact .inl inHot
    · obtain ⟨s, member, rfl⟩ := List.mem_map.mp inCold
      exact .inr (List.mem_map_of_mem (List.mem_filter.mp member).1)
  · rintro (inHot | inCold)
    · exact .inl inHot
    · by_cases shown : k ∈ (hot.allSpans.filter (traceMatches traceId)).map spanKey
      · exact .inl shown
      · obtain ⟨s, member, rfl⟩ := List.mem_map.mp inCold
        exact .inr (List.mem_map_of_mem (List.mem_filter.mpr ⟨member, decide_eq_true shown⟩))

/-- A read of everything succeeds where every indexed block is on disk, shows each key
once, and shows the keys of the two tiers. -/
theorem query_everything (hot : HotTier) {cold : ColdState}
    (stored : ∀ p, cold.index.Names p → ∃ file, cold.files[p]? = some file) :
    ∃ spans, query hot cold none usizeMax = some spans ∧ (spans.map spanKey).Nodup ∧
      ∀ k, k ∈ spans.map spanKey ↔ k ∈ hot.allSpans.map spanKey ∨ cold.Holds k := by
  have storedListed : ∀ p ∈ listBlocks cold.index none, ∃ file, cold.files[p]? = some file :=
    fun p listed => stored p (Index.mem_allBlockPaths.mp listed)
  have perm := newestFirst_perm NormalizedSpan.startUnixNano (readSpans hot cold none)
  have whole : ∀ spans, upTo usizeMax spans = spans := fun spans => if_pos rfl
  have everything : ∀ spans : List NormalizedSpan, spans.filter (traceMatches none) = spans :=
    fun spans => List.filter_eq_self.mpr (fun _ _ => rfl)
  refine ⟨_, query_eq storedListed (by decide), ?_, fun k => ?_⟩
  · rw [whole]
    exact (perm.map spanKey).nodup_iff.mpr (nodup_keys_combine hot none _)
  · rw [whole, (perm.map spanKey).mem_iff, readSpans, mem_keys_combine, everything, everything]
    refine or_congr .rfl ?_
    rw [listedRows, List.map_flatMap, List.mem_flatMap]
    simp only [listBlocks, Index.mem_allBlockPaths, ColdState.Holds]

/-! ## A bounded read -/

/-- Every listed block is on disk, or a pass over the listing fails whatever it has
selected so far. -/
theorem foldlM_readBlock_none {files : Files} {paths : List BlockPath} {p : BlockPath}
    (listed : p ∈ paths) (gone : files[p]? = none) (traceId : Option String)
    (hotSeen : List SpanKey) (state : Selection) :
    paths.foldlM (readBlock files traceId hotSeen) state = none := by
  induction paths generalizing state with
  | nil => cases listed
  | cons q paths inductionHypothesis =>
    rw [List.foldlM_cons]
    cases found : files[q]? with
    | none =>
      rw [readBlock, found]
      rfl
    | some file =>
      rw [readBlock, found]
      have later : p ∈ paths := by
        cases listed with
        | head => rw [gone] at found; cases found
        | tail _ later => exact later
      exact inductionHypothesis later _

/-- A read succeeds at one limit when it succeeds at another. -/
theorem stored_of_query {hot : HotTier} {cold : ColdState} {traceId : Option String}
    {limit : Nat} {spans : List NormalizedSpan} (positive : limit ≠ 0)
    (read : query hot cold traceId limit = some spans) :
    ∀ p ∈ listBlocks cold.index traceId, ∃ file, cold.files[p]? = some file := by
  intro p listed
  cases found : cold.files[p]? with
  | some file => exact ⟨file, rfl⟩
  | none =>
    have fails := foldlM_readBlock_none listed found traceId (readHot hot traceId limit).2
      (Rows.new limit, [])
    rw [query, if_neg positive] at read
    dsimp only at read
    rw [attempt, fails] at read
    cases read

/-- A read bounded by `limit` is the unbounded read cut after `limit` spans, whatever
the two tiers hold. -/
theorem query_prefix (hot : HotTier) (cold : ColdState) (traceId : Option String)
    (limit : Nat) :
    ∀ spans, query hot cold traceId usizeMax = some spans →
      ∃ kept, query hot cold traceId limit = some kept ∧
        (limit < usizeMax → kept = spans.take limit) ∧ (limit = usizeMax → kept = spans) := by
  intro spans read
  have stored := stored_of_query (by decide) read
  have whole : query hot cold traceId usizeMax = some (upTo usizeMax
      (newestFirst NormalizedSpan.startUnixNano (readSpans hot cold traceId))) :=
    query_eq stored (by decide)
  rw [read, upTo, if_pos rfl, Option.some.injEq] at whole
  by_cases zero : limit = 0
  · subst zero
    exact ⟨[], if_pos rfl, fun _ => List.take_zero.symm, fun atMax => by cases atMax⟩
  · refine ⟨upTo limit spans, by rw [whole, query_eq stored zero], fun below => ?_, fun atMax => ?_⟩
    · exact if_neg (by omega)
    · exact if_pos atMax

/-- Two spans of the hot tier, the older one first. -/
def twoHot : HotTier := HotTier.push ∅ 1
  [{ traceId := "a", spanId := "1", startUnixNano := 1 },
    { traceId := "a", spanId := "2", startUnixNano := 2 }]

theorem query_prefix_twoHot : ∃ spans kept, query twoHot {} none usizeMax = some spans ∧
    query twoHot {} none 1 = some kept ∧ (1 < usizeMax → kept = spans.take 1) ∧
      (1 = usizeMax → kept = spans) := by
  have noBlock : ∀ p ∈ listBlocks ({} : ColdState).index none,
      ∃ file, ({} : ColdState).files[p]? = some file :=
    fun p listed => absurd (Index.mem_allBlockPaths.mp listed) (Index.names_empty p)
  have read : query twoHot {} none usizeMax = some (upTo usizeMax
      (newestFirst NormalizedSpan.startUnixNano (readSpans twoHot {} none))) :=
    query_eq noBlock (by decide)
  obtain ⟨kept, bounded⟩ := query_prefix twoHot {} none 1 _ read
  exact ⟨_, kept, read, bounded⟩

end Evald.Store
