import Evald.Store.CrashSafety

/-! # The store beside a reader

A read takes several steps, and between any two of them the writer and the compactor
may move, a merge may swap blocks and files the index no longer names may be swept.
`StoreStep` is one such move, labelled with the path a merge writes, and `Keeps` says
what a reader may rely on across it.  `flush_run` runs the compactor over one segment
and gets what `flushOne` computes.
-/

namespace Evald.Store

open Evald.Lib

/-- Every block the store has had so far: a flush block of a segment at or below the
watermark, or a merge output. -/
def Live.Past (s : Live) (p : BlockPath) : Prop :=
  ∀ hour seqno idx, p = .flush hour seqno idx → seqno ≤ s.disk.watermark

def Live.setCold (s : Live) (cold : ColdState) : Live :=
  { s with disk := { s.disk with cold := cold } }

/-- One move of the store.  A merge and a sweep take the compaction lock, so no pass is
under way. -/
inductive StoreStep : Option BlockPath → Live → Live → Prop where
  | live {s s' : Live} (stepped : LiveStep s s') : StoreStep none s s'
  | merge {s : Live} {after : MergeRun} (stamp : Nat) (dir : Slot) (chunk : List Candidate)
      (locked : s.proc.compactor = .idle)
      (named : ∀ c ∈ chunk, s.disk.cold.index.Names c.rel)
      (apart : ∀ c ∈ chunk, c.rel ≠ outRel dir chunk)
      (ran : mergeChunk stamp dir false
        { cold := s.disk.cold, report := { dryRun := false } } chunk = some after) :
      StoreStep (some (outRel dir chunk)) s (s.setCold after.cold)
  | sweep {s : Live} (paths : List BlockPath) (locked : s.proc.compactor = .idle)
      (unindexed : ∀ p ∈ paths, ¬ s.disk.cold.index.Names p) :
      StoreStep none s (s.setFiles (eraseAll s.disk.cold.files paths))

/-! ## What one step does to each tier -/

/-- Everything a step can do to the cold tier. -/
theorem LiveStep.cold_cases {s s' : Live} (invariant : LiveInvariant s)
    (stepped : LiveStep s s') :
    s'.disk.cold = s.disk.cold ∨
    (∃ hour seqno idx file, s.disk.watermark < seqno ∧
      s'.disk.cold =
        { s.disk.cold with files := s.disk.cold.files.insert (.flush hour seqno idx) file }) ∨
    ∃ seqno spans, s.disk.watermark < seqno ∧
      Written s.disk.cold.files (flushPlan seqno spans) ∧
      s'.disk.cold =
        { s.disk.cold with
          index := s.disk.cold.index.commitFlush seqno
            ((flushPlan seqno spans).map (fun b => blockMeta b.1 b.2)) } := by
  have compactorOk := invariant.compactor
  cases stepped with
  | @writeBlock seqno written todo block rest priceTable now pc =>
    rw [pc] at compactorOk
    obtain ⟨pending, spans, -, plan, -⟩ := compactorOk
    have planned := plan ▸ List.mem_append_right _ List.mem_cons_self
    obtain ⟨hour, idx, path, -⟩ := mem_flushPlan planned
    refine .inr (.inl ⟨hour, seqno, idx,
      ⟨block.2, (Provenance.flush seqno).withPriceTables [priceTable], some now⟩,
      (pending.between _ List.mem_cons_self).1, ?_⟩)
    rw [← path]
    rfl
  | commit pc =>
    rw [pc] at compactorOk
    obtain ⟨pending, spans, -, plan, onDisk⟩ := compactorOk
    rw [List.append_nil] at plan
    subst plan
    exact .inr (.inr ⟨_, spans, (pending.between _ List.mem_cons_self).1, onDisk, rfl⟩)
  | _ => exact .inl rfl

/-- A segment of the hot tier only grows, until the compactor drops it. -/
theorem LiveStep.hot_cases {s s' : Live} (stepped : LiveStep s s') (n : Nat) :
    (∃ more, s'.proc.hot.spansOf n = s.proc.hot.spansOf n ++ more) ∨
      ∃ rest, s.proc.compactor = .deleted n rest ∧ s'.proc.compactor = .listed rest := by
  have same : s'.proc.hot = s.proc.hot →
      ∃ more, s'.proc.hot.spansOf n = s.proc.hot.spansOf n ++ more :=
    fun equal => ⟨[], by rw [equal, List.append_nil]⟩
  cases stepped with
  | @push seqno spans pending pc =>
    refine .inl ?_
    change ∃ more, (s.proc.hot.push seqno spans).spansOf n = _
    rw [HotTier.spansOf_push]
    split
    · exact ⟨spans, rfl⟩
    · exact ⟨[], (List.append_nil _).symm⟩
  | @dropSegment seqno rest pc =>
    by_cases here : seqno = n
    · subst here
      exact .inr ⟨rest, pc, rfl⟩
    · refine .inl ⟨[], ?_⟩
      change (s.proc.hot.dropSegment seqno).spansOf n = _
      rw [HotTier.spansOf_dropSegment, if_neg here, List.append_nil]
  | _ => exact .inl (same rfl)

theorem LiveStep.settled_prefix {s s' : Live} (stepped : LiveStep s s') :
    s.settled <+: s'.settled := by
  cases stepped with
  | push pc => exact List.prefix_append _ _
  | _ => exact List.prefix_rfl

/-! ## What a reader may rely on -/

/-- What stays across a step, but for what is at the path `avoid`. -/
structure Keeps (avoid : Option BlockPath) (s s' : Live) : Prop where
  holds : ∀ k, s.disk.cold.Holds k → s'.disk.cold.Holds k
  watermark : s.disk.watermark ≤ s'.disk.watermark
  settled : ∀ k, HasKey s.settled k → HasKey s'.settled k
  gone : ∀ p, s.Past p → avoid ≠ some p → s.disk.cold.files[p]? = none →
    s'.disk.cold.files[p]? = none
  rows : ∀ p, s.Past p → avoid ≠ some p → s'.disk.cold.files[p]? = none ∨
    rowsAt s'.disk.cold.files p = rowsAt s.disk.cold.files p

theorem Keeps.past {avoid : Option BlockPath} {s s' : Live} (keeps : Keeps avoid s s')
    {p : BlockPath} (past : s.Past p) : s'.Past p :=
  fun hour seqno idx path => (past hour seqno idx path).trans keeps.watermark

theorem LiveInvariant.past {s : Live} (invariant : LiveInvariant s) {p : BlockPath}
    (named : s.disk.cold.index.Names p) : s.Past p :=
  fun hour seqno idx path => invariant.cold.flushed hour seqno idx (path ▸ named)

theorem LiveStep.keeps {s s' : Live} (invariant : LiveInvariant s) (stepped : LiveStep s s') :
    Keeps none s s' := by
  have settled : ∀ k, HasKey s.settled k → HasKey s'.settled k :=
    fun k held => List.map_subset spanKey stepped.settled_prefix.subset held
  have watermarkOf : ∀ t : Live, t.disk.watermark = t.disk.cold.index.watermark := fun _ => rfl
  rcases stepped.cold_cases invariant with
    same | ⟨hour, seqno, idx, file, above, wrote⟩ | ⟨seqno, spans, above, onDisk, committed⟩
  · refine ⟨fun k held => ?_, ?_, settled, fun p _ _ gone => ?_, fun p _ _ => .inr ?_⟩
    · rwa [same]
    · rw [watermarkOf, watermarkOf, same]
    · rwa [same]
    · rw [same]
  · have other : ∀ p, s.Past p →
        (s.disk.cold.files.insert (.flush hour seqno idx) file)[p]? = s.disk.cold.files[p]? := by
      intro p past
      rw [Std.ExtTreeMap.getElem?_insert, if_neg]
      intro equal
      rw [Std.LawfulEqOrd.compare_eq_iff_eq] at equal
      exact absurd (past hour seqno idx equal.symm) (not_le.mpr above)
    refine ⟨fun k held => ?_, ?_, settled, fun p past _ gone => ?_, fun p past _ => .inr ?_⟩
    · rw [wrote]
      exact (ColdState.holds_refile (fun p named => other p (invariant.past named)) k).mpr held
    · rw [watermarkOf, watermarkOf, wrote]
    · rw [wrote]
      exact (other p past).trans gone
    · rw [wrote]
      exact rowsAt_eq_of_getElem? (other p past)
  · refine ⟨fun k held => ?_, ?_, settled, fun p _ _ gone => ?_, fun p _ _ => .inr ?_⟩
    · rw [committed]
      exact (holds_commitPlan onDisk k).mpr (.inl held)
    · rw [watermarkOf s', committed]
      exact above.le
    · rwa [committed]
    · rw [committed]

/-- A merge whose output is at a path the index does not name, and what it keeps. -/
theorem LiveInvariant.merged {s : Live} (invariant : LiveInvariant s) {after : MergeRun}
    {stamp : Nat} {dir : Slot} {chunk : List Candidate} (locked : s.proc.compactor = .idle)
    (named : ∀ c ∈ chunk, s.disk.cold.index.Names c.rel)
    (apart : ∀ c ∈ chunk, c.rel ≠ outRel dir chunk)
    (ran : mergeChunk stamp dir false
      { cold := s.disk.cold, report := { dryRun := false } } chunk = some after)
    (fresh : ¬ s.disk.cold.index.Names (outRel dir chunk)) :
    LiveInvariant (s.setCold after.cold) ∧
      Keeps (some (outRel dir chunk)) s (s.setCold after.cold) := by
  have swapped : ∃ after', mergeChunk stamp dir false _ chunk = some after' ∧
      Swaps stamp dir chunk { cold := s.disk.cold, report := { dryRun := false } } after' :=
    mergeChunk_swaps stamp (fun c member => invariant.cold.stored c.rel (named c member)) apart
  obtain ⟨after', ran', swaps⟩ := swapped
  rw [ran] at ran'
  cases ran'
  have watermark : (s.setCold after.cold).disk.watermark = s.disk.watermark := swaps.watermark
  -- the swap keeps the keys on disk, and the rest is about nothing else
  have holds : ∀ k, after.cold.Holds k ↔ s.disk.cold.Holds k := swaps.holds_iff named fresh
  constructor
  · refine ⟨invariant.cold.swap fresh swaps, ?_, invariant.published, invariant.beyond, ?_, ?_,
      invariant.writer, ?_, invariant.fsynced, ?_⟩
    · rw [watermark]
      exact invariant.above
    · rw [watermark]
      exact invariant.mirrors
    · rw [watermark]
      exact fun n low k held => (holds k).mpr (invariant.retired n low k held)
    · change CompactorOk _ s.proc.compactor
      rw [locked]
      trivial
    · intro k
      rw [watermark]
      exact (invariant.account k).trans (or_congr_left (holds k).symm)
  · refine ⟨fun k => (holds k).mpr, watermark.ge, fun _ held => held, fun p _ other gone => ?_,
      fun p _ other => .inr ?_⟩
    · have content := swaps.contents p (fun same => other (congrArg some same.symm))
      dsimp only at content
      rw [gone] at content
      exact Option.map_eq_none_iff.mp content
    · exact swaps.rowsAt_other (fun same => other (congrArg some same.symm))

theorem LiveInvariant.swept {s : Live} (invariant : LiveInvariant s) {paths : List BlockPath}
    (locked : s.proc.compactor = .idle)
    (unindexed : ∀ p ∈ paths, ¬ s.disk.cold.index.Names p) :
    LiveInvariant (s.setFiles (eraseAll s.disk.cold.files paths)) ∧
      Keeps none s (s.setFiles (eraseAll s.disk.cold.files paths)) := by
  have kept : ∀ p, s.disk.cold.index.Names p →
      (eraseAll s.disk.cold.files paths)[p]? = s.disk.cold.files[p]? :=
    fun p named => getElem?_eraseAll_not_mem (fun gone => unindexed p gone named)
  have holds := ColdState.holds_refile kept
  have gone_or_kept : ∀ p : BlockPath, (eraseAll s.disk.cold.files paths)[p]? = none ∨
      (eraseAll s.disk.cold.files paths)[p]? = s.disk.cold.files[p]? := by
    intro p
    by_cases removed : p ∈ paths
    · exact .inl (getElem?_eraseAll_mem removed)
    · exact .inr (getElem?_eraseAll_not_mem removed)
  constructor
  · refine ⟨invariant.cold.refile rfl kept, invariant.above, invariant.published, invariant.beyond,
      invariant.mirrors, ?_, invariant.writer, ?_, invariant.fsynced, ?_⟩
    · exact fun n low k held => (holds k).mpr (invariant.retired n low k held)
    · change CompactorOk _ s.proc.compactor
      rw [locked]
      trivial
    · exact fun k => (invariant.account k).trans (or_congr_left (holds k).symm)
  · refine ⟨fun k => (holds k).mpr, le_rfl, fun _ held => held, fun p _ _ gone => ?_,
      fun p _ _ => ?_⟩
    · rcases gone_or_kept p with absent | same
      · exact absent
      · exact same.trans gone
    · rcases gone_or_kept p with absent | same
      · exact .inl absent
      · exact .inr (rowsAt_eq_of_getElem? same)

/-- A store step that writes over no indexed block keeps the invariant, and keeps what a
reader relies on. -/
theorem StoreStep.keeps {s s' : Live} {wrote : Option BlockPath} (invariant : LiveInvariant s)
    (stepped : StoreStep wrote s s')
    (fresh : ∀ p, wrote = some p → ¬ s.disk.cold.index.Names p) :
    LiveInvariant s' ∧ Keeps wrote s s' := by
  cases stepped with
  | live stepped => exact ⟨invariant.step stepped, stepped.keeps invariant⟩
  | merge stamp dir chunk locked named apart ran =>
    exact invariant.merged locked named apart ran (fresh _ rfl)
  | sweep paths locked unindexed => exact invariant.swept locked unindexed

/-- One of the listed files is gone or holds the key. -/
def Live.OnList (s : Live) (paths : List BlockPath) (k : SpanKey) : Prop :=
  ∃ p ∈ paths, s.disk.cold.files[p]? = none ∨ HasKey (rowsAt s.disk.cold.files p) k

theorem Keeps.onList {s s' : Live} {wrote : Option BlockPath} (keeps : Keeps wrote s s')
    {paths : List BlockPath} (past : ∀ p ∈ paths, s.Past p)
    (apart : ∀ p, wrote = some p → p ∉ paths) {k : SpanKey} (listed : s.OnList paths k) :
    s'.OnList paths k := by
  obtain ⟨p, member, gone | held⟩ := listed
  · exact ⟨p, member, .inl (keeps.gone p (past p member) (fun same => apart p same member) gone)⟩
  · refine ⟨p, member, ?_⟩
    rcases keeps.rows p (past p member) (fun same => apart p same member) with gone | same
    · exact .inl gone
    · exact .inr (same ▸ held)

/-! ## A flush, step by step -/

/-- `s'` can be reached by steps of the writer and the compactor. -/
abbrev LiveSteps : Live → Live → Prop := Relation.ReflTransGen LiveStep

theorem write_run (priceTable : String) (now : Nat) {seqno : Nat} {rest : List Nat}
    (todo : List (BlockPath × List NormalizedSpan)) {s : Live}
    {written : List (BlockPath × List NormalizedSpan)}
    (pc : s.proc.compactor = .flushing seqno written todo rest) :
    LiveSteps s
      ((s.setFiles (todo.foldl (writePlanned priceTable now seqno) s.disk.cold.files)).setCompactor
        (.flushing seqno (written ++ todo) [] rest)) := by
  induction todo generalizing s written with
  | nil =>
    have same : (s.setFiles s.disk.cold.files).setCompactor
        (.flushing seqno (written ++ []) [] rest) = s := by
      rw [List.append_nil, ← pc]
      rfl
    rw [List.foldl_nil, same]
  | cons block todo inductionHypothesis =>
    have first := LiveStep.writeBlock priceTable now pc
    have later := inductionHypothesis (s := (s.setFiles
      (writePlanned priceTable now seqno s.disk.cold.files block)).setCompactor
        (.flushing seqno (written ++ [block]) todo rest)) rfl
    rw [List.append_cons]
    exact .head first later

/-- The state after the compactor has committed segment `seqno` and deleted its file, with the
segment still resident. -/
def Live.unlinked (s : Live) (priceTable : String) (now seqno : Nat)
    (spans : List NormalizedSpan) (rest : List Nat) : Live :=
  { s with
    disk :=
      { segments := s.disk.segments.erase seqno
        cold := flushOne priceTable now s.disk.cold seqno spans }
    proc := { s.proc with compactor := .deleted seqno rest }
    flushedSurvivors := s.flushedSurvivors ++ s.disk.unsyncedOf seqno }

/-- The state after the compactor has flushed segment `seqno`. -/
def Live.flushed (s : Live) (priceTable : String) (now seqno : Nat)
    (spans : List NormalizedSpan) (rest : List Nat) : Live :=
  ((s.unlinked priceTable now seqno spans rest).dropSegment seqno).setCompactor (.listed rest)

/-- The compactor's steps over one segment compute `flushOne`. -/
theorem unlink_run (priceTable : String) (now : Nat) {s : Live} {seqno : Nat} {rest : List Nat}
    {spans : List NormalizedSpan} (pc : s.proc.compactor = .listed (seqno :: rest))
    (resident : s.proc.hot.segment seqno = some spans) :
    LiveSteps s (s.unlinked priceTable now seqno spans rest) := by
  have taken := LiveStep.snapshot pc resident
  have wrote := write_run priceTable now (flushPlan seqno spans)
    (s := s.setCompactor (.flushing seqno [] (flushPlan seqno spans) rest)) rfl
  rw [List.nil_append] at wrote
  refine .head taken (wrote.trans ?_)
  exact .head (.commit rfl) (.single (.deleteSegment rfl))

theorem flush_run (priceTable : String) (now : Nat) {s : Live} {seqno : Nat} {rest : List Nat}
    {spans : List NormalizedSpan} (pc : s.proc.compactor = .listed (seqno :: rest))
    (resident : s.proc.hot.segment seqno = some spans) :
    LiveSteps s (s.flushed priceTable now seqno spans rest) :=
  (unlink_run priceTable now pc resident).tail (.dropSegment rfl)

end Evald.Store
