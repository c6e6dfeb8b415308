import Evald.Lib.Escape
import Evald.Usage

/-! # The usage samples of a scrape

Each series is rendered under the names of its labels, escaped.  Label value `0` is rendered
as `other`, which a span may also carry as a name: where none does, or nothing is folded, no
two samples share a name and a label set (`samples_distinct`).
-/

namespace Evald.Usage

open Evald.Lib

/-! ## Rendering -/

/-- Every `c` replaced. -/
def replaceChar (c : Char) (replacement : List Char) (s : List Char) : List Char :=
  s.flatMap (fun x => if x = c then replacement else [x])

/-- In a label value, the backslash, the quote and the line end are escaped. -/
def escapeLabel (s : String) : String :=
  String.ofList (replaceChar '\n' ['\\', 'n'] (replaceChar '"' ['\\', '"']
    (replaceChar '\\' ['\\', '\\'] s.toList)))

structure Sample where
  name : String
  labels : String
  value : F64

def Interner.name (i : Interner) (id : Nat) : String := (i.names[id]?).getD ""

section Render

variable (inner : Inner)

def seriesNames (k : SeriesKey) : String × String × String :=
  (inner.providers.name k.1, inner.models.name k.2.1, inner.services.name k.2.2)

def seriesLabels (k : SeriesKey) : String :=
  "gen_ai_provider_name=\"" ++ escapeLabel (inner.providers.name k.1) ++
    "\",gen_ai_request_model=\"" ++ escapeLabel (inner.models.name k.2.1) ++
    "\",service_name=\"" ++ escapeLabel (inner.services.name k.2.2) ++ "\""

def toolNames (k : Nat × Nat) : String × String :=
  (inner.services.name k.1, inner.tools.name k.2)

def toolLabels (k : Nat × Nat) : String :=
  "gen_ai_tool_name=\"" ++ escapeLabel (inner.tools.name k.2) ++
    "\",service_name=\"" ++ escapeLabel (inner.services.name k.1) ++ "\""

/-- A count, as the value of a sample. -/
def counted (n : Nat) : F64 := .finite n

/-- The counters of a series, each read off it. -/
def counters : List (String × (Series → F64)) :=
  [("evald_llm_requests_total", fun e => counted e.requests),
    ("evald_llm_request_errors_total", fun e => counted e.errors),
    ("evald_llm_cost_usd_total", Series.costUsd),
    ("evald_llm_spans_without_cost_total", fun e => counted e.withoutCost),
    ("evald_llm_input_tokens_total", fun e => counted e.inputTokens),
    ("evald_llm_output_tokens_total", fun e => counted e.outputTokens),
    ("evald_llm_cache_read_tokens_total", fun e => counted e.cacheRead),
    ("evald_llm_cache_write_tokens_total", fun e => counted e.cacheWrite),
    ("evald_llm_reasoning_tokens_total", fun e => counted e.reasoning)]

/-- The counts up to and including each bucket. -/
def cumulated (counts : List Nat) : List Nat := (counts.scanl (· + ·) 0).tail

/-- The labels of one bucket. -/
def bucketLabels (labels bound : String) : String :=
  labels ++ (if labels.isEmpty then "" else ",") ++ "le=\"" ++ bound ++ "\""

def Hist.samples (h : Hist) (name labels : String) : List Sample :=
  (timeBuckets.zip (cumulated h.counts)).map (fun b =>
      { name := name ++ "_bucket", labels := bucketLabels labels b.1.1, value := counted b.2 }) ++
    [{ name := name ++ "_bucket", labels := bucketLabels labels "+Inf", value := counted h.count },
      { name := name ++ "_sum", labels := labels, value := h.sum },
      { name := name ++ "_count", labels := labels, value := counted h.count }]

/-- In the order of their label texts, so that the body is stable between scrapes. -/
def sortedSeries : List (SeriesKey × Series) :=
  inner.series.mergeSort (fun a b =>
    let x := seriesNames inner a.1
    let y := seriesNames inner b.1
    x.1 < y.1 || (x.1 = y.1 && (x.2.1 < y.2.1 || (x.2.1 = y.2.1 && x.2.2 ≤ y.2.2))))

def sortedTools : List ((Nat × Nat) × Nat × Nat) :=
  inner.toolSeries.mergeSort (fun a b =>
    let x := toolNames inner a.1
    let y := toolNames inner b.1
    x.1 < y.1 || (x.1 = y.1 && x.2 ≤ y.2))

/-- Every usage sample; a series without a time to first token has none for it. -/
def samples : List Sample :=
  [{ name := "evald_usage_series", labels := "", value := counted inner.series.length },
    { name := "evald_usage_labels_folded_total", labels := "", value := counted inner.folded }] ++
    counters.flatMap (fun c => (sortedSeries inner).map (fun e =>
      { name := c.1, labels := seriesLabels inner e.1, value := c.2 e.2 })) ++
    (sortedSeries inner).flatMap (fun e =>
      e.2.duration.samples "gen_ai_client_operation_duration_seconds" (seriesLabels inner e.1)) ++
    ((sortedSeries inner).filter (fun e => 0 < e.2.ttft.count)).flatMap (fun e =>
      e.2.ttft.samples "gen_ai_client_operation_time_to_first_chunk_seconds"
        (seriesLabels inner e.1)) ++
    (sortedTools inner).map (fun e =>
      { name := "evald_tool_calls_total", labels := toolLabels inner e.1, value := counted e.2.1 }) ++
    (sortedTools inner).map (fun e =>
      { name := "evald_tool_call_errors_total", labels := toolLabels inner e.1
        value := counted e.2.2 })

end Render

/-- What must be unique in a scrape. -/
def Sample.identity (s : Sample) : String × String := (s.name, s.labels)

/-! ## Label texts -/

/-- The three passes of `escapeLabel` in one. -/
def labelCode (c : Char) : List Char :=
  if c = '\\' then ['\\', '\\'] else if c = '"' then ['\\', '"']
  else if c = '\n' then ['\\', 'n'] else [c]

theorem escapeLabel_eq (s : String) :
    escapeLabel s = String.ofList (s.toList.flatMap labelCode) := by
  unfold escapeLabel replaceChar
  rw [List.flatMap_assoc, List.flatMap_assoc]
  congr 2
  funext c
  unfold labelCode
  by_cases backslash : c = '\\'
  · rw [backslash]
    rfl
  · by_cases quote : c = '"'
    · rw [quote]
      rfl
    · simp [backslash, quote]

theorem labelCode_escapes : Escapes labelCode '"' := by
  constructor
  · intro c d rest rest' same
    unfold labelCode at same
    grind
  · intro c rest rest' same
    unfold labelCode at same
    grind

/-- A label text ends at its quote. -/
theorem escapeLabel_inj {s s' : String} {rest rest' : List Char}
    (same : (escapeLabel s).toList ++ '"' :: rest = (escapeLabel s').toList ++ '"' :: rest') :
    s = s' ∧ rest = rest' := by
  rw [escapeLabel_eq, escapeLabel_eq, String.toList_ofList, String.toList_ofList] at same
  obtain ⟨text, after⟩ := labelCode_escapes.quoted_inj same
  exact ⟨String.toList_inj.mp text, after⟩

theorem seriesLabels_inj {inner : Inner} {k k' : SeriesKey}
    (same : seriesLabels inner k = seriesLabels inner k') :
    seriesNames inner k = seriesNames inner k' := by
  have chars := congrArg String.toList same
  unfold seriesLabels at chars
  simp only [String.toList_append, List.append_assoc,
    show "\",gen_ai_request_model=\"".toList = '"' :: ",gen_ai_request_model=\"".toList from rfl,
    show "\",service_name=\"".toList = '"' :: ",service_name=\"".toList from rfl,
    show "\"".toList = ['"'] from rfl, List.cons_append] at chars
  obtain ⟨provider, rest⟩ := escapeLabel_inj (List.append_cancel_left chars)
  obtain ⟨model, rest⟩ := escapeLabel_inj (List.append_cancel_left rest)
  obtain ⟨service, -⟩ := escapeLabel_inj (List.append_cancel_left rest)
  unfold seriesNames
  rw [provider, model, service]

theorem toolLabels_inj {inner : Inner} {k k' : Nat × Nat}
    (same : toolLabels inner k = toolLabels inner k') :
    toolNames inner k = toolNames inner k' := by
  have chars := congrArg String.toList same
  unfold toolLabels at chars
  simp only [String.toList_append, List.append_assoc,
    show "\",service_name=\"".toList = '"' :: ",service_name=\"".toList from rfl,
    show "\"".toList = ['"'] from rfl, List.cons_append] at chars
  obtain ⟨tool, rest⟩ := escapeLabel_inj (List.append_cancel_left chars)
  obtain ⟨service, -⟩ := escapeLabel_inj (List.append_cancel_left rest)
  unfold toolNames
  rw [tool, service]

/-! ## Samples that differ -/

/-- The bounds of a histogram, as they are rendered. -/
def boundTexts : List String := timeBuckets.map Prod.fst ++ ["+Inf"]

/-- No bound's text ends another's. -/
theorem boundTexts_apart : ∀ b ∈ boundTexts, ∀ b' ∈ boundTexts,
    (",le=\"" ++ b ++ "\"").toList <:+ (",le=\"" ++ b' ++ "\"").toList → b = b' := by
  decide

theorem bucketLabels_inj {labels labels' b b' : String} (some : labels ≠ "") (some' : labels' ≠ "")
    (isBound : b ∈ boundTexts) (isBound' : b' ∈ boundTexts)
    (same : bucketLabels labels b = bucketLabels labels' b') : labels = labels' ∧ b = b' := by
  have ending {l : String} (x : String) (full : l ≠ "") :
      bucketLabels l x = l ++ (",le=\"" ++ x ++ "\"") := by
    simp [bucketLabels, full, String.append_assoc]
  rw [ending b some, ending b' some'] at same
  have chars : labels.toList ++ (",le=\"" ++ b ++ "\"").toList =
      labels'.toList ++ (",le=\"" ++ b' ++ "\"").toList := by
    rw [← String.toList_append, ← String.toList_append, same]
  have bounds : b = b' := by
    obtain ⟨w, -, longer⟩ | ⟨w, -, longer⟩ := List.append_eq_append_iff.mp chars
    · exact (boundTexts_apart b' isBound' b isBound ⟨w, longer.symm⟩).symm
    · exact boundTexts_apart b isBound b' isBound' ⟨w, longer.symm⟩
  rw [bounds] at chars
  exact ⟨String.toList_inj.mp (List.append_cancel_right chars), bounds⟩

theorem map_fst_zip_sublist {α β : Type} (xs : List α) (ys : List β) :
    ((xs.zip ys).map Prod.fst).Sublist xs := by
  induction xs generalizing ys with
  | nil => simp
  | cons x xs inductionHypothesis =>
    cases ys with
    | nil => simp
    | cons y ys => simpa using inductionHypothesis ys

/-- The samples of a histogram, by name and labels. -/
theorem Hist.identity_samples (h : Hist) (name labels : String) :
    ∃ bounds : List String, bounds.Sublist boundTexts ∧
      (h.samples name labels).map Sample.identity =
        bounds.map (fun b => (name ++ "_bucket", bucketLabels labels b)) ++
          [(name ++ "_sum", labels), (name ++ "_count", labels)] := by
  refine ⟨((timeBuckets.zip (cumulated h.counts)).map Prod.fst).map Prod.fst ++ ["+Inf"], ?_, ?_⟩
  · exact ((map_fst_zip_sublist _ _).map Prod.fst).append (List.Sublist.refl _)
  · simp [Hist.samples, Sample.identity]

theorem nodup_histograms {entries : List (String × Hist)} {name : String}
    (distinct : (entries.map Prod.fst).Nodup) (full : ∀ e ∈ entries, e.1 ≠ "")
    (names : [name ++ "_bucket", name ++ "_sum", name ++ "_count"].Nodup) :
    (entries.flatMap (fun e => (e.2.samples name e.1).map Sample.identity)).Nodup := by
  simp only [List.nodup_cons, List.mem_cons, List.not_mem_nil, or_false, not_or] at names
  obtain ⟨⟨bucketSum, bucketCount⟩, sumCount, -⟩ := names
  rw [List.nodup_flatMap]
  constructor
  · intro e listed
    obtain ⟨bounds, sublist, identities⟩ := e.2.identity_samples name e.1
    rw [identities, List.nodup_append]
    refine ⟨?_, by simp, ?_⟩
    · apply ((show boundTexts.Nodup by decide).sublist sublist).map_on
      intro b isBound b' isBound' same
      exact (bucketLabels_inj (full e listed) (full e listed) (sublist.subset isBound)
        (sublist.subset isBound') (Prod.ext_iff.mp same).2).2
    · intro x isBucket y other same
      obtain ⟨b, -, rfl⟩ := List.mem_map.mp isBucket
      simp only [List.mem_cons, List.not_mem_nil, or_false] at other
      cases other with
      | inl isSum => exact bucketSum (Prod.ext_iff.mp (same.trans isSum)).1
      | inr isCount => exact bucketCount (Prod.ext_iff.mp (same.trans isCount)).1
  -- samples of two series differ by their labels, or by their names
  · have apart : entries.Pairwise (fun e e' => e.1 ≠ e'.1) := List.pairwise_map.mp distinct
    refine apart.imp_of_mem (fun {e e'} listed listed' differ => ?_)
    show List.Disjoint _ _
    intro x among among'
    obtain ⟨bounds, sublist, identities⟩ := e.2.identity_samples name e.1
    obtain ⟨bounds', sublist', identities'⟩ := e'.2.identity_samples name e'.1
    simp only [identities, identities', List.mem_append, List.mem_map, List.mem_cons,
      List.not_mem_nil, or_false] at among among'
    obtain ⟨b, isBound, rfl⟩ | rfl | rfl := among
    · obtain ⟨b', isBound', same⟩ | same | same := among'
      · exact differ (bucketLabels_inj (full e listed) (full e' listed') (sublist.subset isBound)
          (sublist'.subset isBound') (Prod.ext_iff.mp same).2.symm).1
      · exact bucketSum (Prod.ext_iff.mp same).1
      · exact bucketCount (Prod.ext_iff.mp same).1
    · obtain ⟨b', isBound', same⟩ | same | same := among'
      · exact bucketSum (Prod.ext_iff.mp same).1
      · exact differ (Prod.ext_iff.mp same).2
      · exact sumCount (Prod.ext_iff.mp same).1
    · obtain ⟨b', isBound', same⟩ | same | same := among'
      · exact bucketCount (Prod.ext_iff.mp same).1
      · exact sumCount (Prod.ext_iff.mp same).1.symm
      · exact differ (Prod.ext_iff.mp same).2

/-- Parts whose elements carry different tags share nothing. -/
theorem nodup_tagged {α : Type} (tag : α → Nat) {parts : List (Nat × List α)}
    (tags : (parts.map Prod.fst).Nodup) (nodup : ∀ part ∈ parts, part.2.Nodup)
    (tagged : ∀ part ∈ parts, ∀ x ∈ part.2, tag x = part.1) : (parts.flatMap Prod.snd).Nodup := by
  rw [List.nodup_flatMap]
  refine ⟨nodup, ?_⟩
  have apart : parts.Pairwise (fun p q => p.1 ≠ q.1) := List.pairwise_map.mp tags
  refine apart.imp_of_mem (fun {p q} listed listed' differ => ?_)
  show List.Disjoint _ _
  intro x among among'
  exact differ ((tagged p listed x among).symm.trans (tagged q listed' x among'))

/-- The family of a sample, by its name. -/
def familyOf (name : String) : Nat :=
  if name ∈ ["evald_usage_series", "evald_usage_labels_folded_total"] then 0
  else if name ∈ counters.map Prod.fst then 1
  else if startsWith name "gen_ai_client_operation_duration_seconds_" then 2
  else if startsWith name "gen_ai_client_operation_time_to_first_chunk_seconds_" then 3
  else if name = "evald_tool_calls_total" then 4
  else 5

theorem seriesLabels_ne_empty (inner : Inner) (k : SeriesKey) : seriesLabels inner k ≠ "" := by
  intro empty
  have chars := congrArg String.toList empty
  unfold seriesLabels at chars
  rw [String.toList_append] at chars
  exact absurd (List.append_eq_nil_iff.mp chars).2 (by decide)

theorem familyOf_histogram {name : String} {n : Nat} (isFamily : ∀ x ∈ [name ++ "_bucket",
      name ++ "_sum", name ++ "_count"], familyOf x = n) {entries : List (String × Hist)} :
    ∀ x ∈ entries.flatMap (fun e => (e.2.samples name e.1).map Sample.identity),
      familyOf x.1 = n := by
  intro x among
  obtain ⟨e, -, among⟩ := List.mem_flatMap.mp among
  obtain ⟨bounds, -, identities⟩ := e.2.identity_samples name e.1
  simp only [identities, List.mem_append, List.mem_map, List.mem_cons, List.not_mem_nil,
    or_false] at among
  obtain ⟨b, -, rfl⟩ | rfl | rfl := among
  · exact isFamily _ (by simp)
  · exact isFamily _ (by simp)
  · exact isFamily _ (by simp)

/-- Where the label texts differ from series to series, so do the samples. -/
theorem nodup_samples {inner : Inner}
    (series : (inner.series.map (fun e => seriesLabels inner e.1)).Nodup)
    (tools : (inner.toolSeries.map (fun e => toolLabels inner e.1)).Nodup) :
    ((samples inner).map Sample.identity).Nodup := by
  have series' : ((sortedSeries inner).map (fun e => seriesLabels inner e.1)).Nodup :=
    ((List.mergeSort_perm _ _).map _).nodup_iff.mpr series
  have tools' : ((sortedTools inner).map (fun e => toolLabels inner e.1)).Nodup :=
    ((List.mergeSort_perm _ _).map _).nodup_iff.mpr tools
  -- the families, numbered so that samples of two of them differ by name
  have parts : (samples inner).map Sample.identity = List.flatMap Prod.snd
      [(0, [("evald_usage_series", ""), ("evald_usage_labels_folded_total", "")]),
        (1, (counters.map Prod.fst).product ((sortedSeries inner).map (fun e => seriesLabels inner e.1))),
        (2, ((sortedSeries inner).map (fun e => (seriesLabels inner e.1, e.2.duration))).flatMap
          (fun e => (e.2.samples "gen_ai_client_operation_duration_seconds" e.1).map
            Sample.identity)),
        (3, (((sortedSeries inner).filter (fun e => 0 < e.2.ttft.count)).map
          (fun e => (seriesLabels inner e.1, e.2.ttft))).flatMap
          (fun e => (e.2.samples "gen_ai_client_operation_time_to_first_chunk_seconds" e.1).map
            Sample.identity)),
        (4, ((sortedTools inner).map (fun e => toolLabels inner e.1)).map
          (Prod.mk "evald_tool_calls_total")),
        (5, ((sortedTools inner).map (fun e => toolLabels inner e.1)).map
          (Prod.mk "evald_tool_call_errors_total"))] := by
    simp [samples, Sample.identity, List.product, List.map_flatMap, List.flatMap_map,
      List.map_map, Function.comp_def]
  have full (entries : List (SeriesKey × Series)) (h : Series → Hist) :
      ∀ e ∈ entries.map (fun e => (seriesLabels inner e.1, h e.2)), e.1 ≠ "" := by
    intro e among
    obtain ⟨k, -, rfl⟩ := List.mem_map.mp among
    exact seriesLabels_ne_empty inner k.1
  rw [parts]
  apply nodup_tagged (fun x => familyOf x.1)
  · simp only [List.map_cons, List.map_nil]
    decide
  · simp only [List.forall_mem_cons, List.not_mem_nil, false_implies, implies_true, and_true]
    refine ⟨by decide, ?_, ?_, ?_, ?_, ?_⟩
    · exact (show (counters.map Prod.fst).Nodup by decide).product series'
    · exact nodup_histograms (by simpa [Function.comp_def] using series')
        (full _ Series.duration) (by decide)
    · have kept := series'.sublist
        ((List.filter_sublist (p := fun e => decide (0 < e.2.ttft.count))).map _)
      exact nodup_histograms (by simpa [Function.comp_def] using kept) (full _ Series.ttft)
        (by decide)
    · exact tools'.map (Prod.mk_right_injective _)
    · exact tools'.map (Prod.mk_right_injective _)
  · simp only [List.forall_mem_cons, List.not_mem_nil, false_implies, implies_true, and_true]
    refine ⟨by decide, ?_, ?_, ?_, ?_, ?_⟩
    · intro x among
      have isCounter : x.1 ∈ counters.map Prod.fst := (List.mem_product.mp among).1
      exact (show ∀ c ∈ counters.map Prod.fst, familyOf c = 1 by decide) x.1 isCounter
    · exact familyOf_histogram (by decide)
    · exact familyOf_histogram (by decide)
    · intro x among
      obtain ⟨_, -, rfl⟩ := List.mem_map.mp among
      show familyOf "evald_tool_calls_total" = 4
      decide
    · intro x among
      obtain ⟨_, -, rfl⟩ := List.mem_map.mp among
      show familyOf "evald_tool_call_errors_total" = 5
      decide

/-- Series with one label text have two samples with one identity. -/
theorem nodup_labels_of_samples {inner : Inner}
    (distinct : ((samples inner).map Sample.identity).Nodup) :
    (inner.series.map (fun e => seriesLabels inner e.1)).Nodup := by
  have requests : (((sortedSeries inner).map (fun e => seriesLabels inner e.1)).map
      (Prod.mk "evald_llm_requests_total")).Sublist ((samples inner).map Sample.identity) := by
    simp only [samples, counters, List.flatMap_cons, List.map_append, List.map_map,
      List.append_assoc]
    exact (List.sublist_append_left _ _).trans (List.sublist_append_right _ _)
  have labels := (distinct.sublist requests).of_map
  exact ((List.mergeSort_perm _ _).map _).nodup_iff.mp labels

/-! ## What ids name -/

/-- Every id names something, and apart from `other` at `0` no name occurs twice. -/
structure Interner.WellFormed (i : Interner) : Prop where
  head : i.names.head? = some "other"
  distinct : i.names.tail.Nodup
  listed : ∀ v ∈ i.names.tail, v ∈ i.ids
  within : ∀ (v : String) (id : Nat), i.ids[v]? = some id → id < i.names.length
  short : i.names.length ≤ i.cap + 1
  positive : i.cap < 2 ^ 32 → ∀ (v : String) (id : Nat), i.ids[v]? = some id → 0 < id

namespace Interner.WellFormed

variable {i : Interner}

theorem new (cap : Nat) : Interner.WellFormed { cap := cap } where
  head := rfl
  distinct := List.nodup_nil
  listed := fun _ never => nomatch never
  within := fun v id held => by simp at held
  short := by simp
  positive := fun _ v id held => by simp at held

theorem length_pos (wellFormed : i.WellFormed) : 0 < i.names.length := by
  cases names : i.names with
  | nil =>
    have head := wellFormed.head
    rw [names] at head
    cases head
  | cons => exact Nat.zero_lt_succ _

theorem enter (wellFormed : i.WellFormed) {value : String} (absent : i.ids[value]? = none)
    (room : i.names.length - 1 < i.cap) : (i.enter value).WellFormed := by
  have some := wellFormed.length_pos
  -- the first name is "other" and stays the first
  have tail : (i.names ++ [value]).tail = i.names.tail ++ [value] := by
    cases names : i.names with
    | nil => simp [names] at some
    | cons => rfl
  have length : (i.enter value).names.length = i.names.length + 1 := by simp [Interner.enter]
  have short := wellFormed.short
  constructor
  · show (i.names ++ [value]).head? = _
    rw [List.head?_append, wellFormed.head]
    rfl
  · show (i.names ++ [value]).tail.Nodup
    rw [tail, List.nodup_append]
    refine ⟨wellFormed.distinct, List.nodup_singleton value, ?_⟩
    intro v listed w isValue same
    rw [List.mem_singleton] at isValue
    have held := wellFormed.listed v listed
    rw [same, isValue, Std.ExtTreeMap.mem_iff_isSome_getElem?, absent] at held
    cases held
  · intro v listed
    show v ∈ i.ids.insert value _
    change v ∈ (i.names ++ [value]).tail at listed
    rw [tail, List.mem_append, List.mem_singleton] at listed
    rw [Std.ExtTreeMap.mem_insert, Std.LawfulEqOrd.compare_eq_iff_eq]
    cases listed with
    | inl earlier => exact .inr (wellFormed.listed v earlier)
    | inr isValue => exact .inl isValue.symm
  · intro v id held
    rw [length]
    simp only [Interner.enter, getElem?_insert_if] at held
    split at held
    · cases held
      have small := Nat.mod_le i.names.length (2 ^ 32)
      omega
    · have earlier := wellFormed.within v id held
      omega
  · rw [length]
    show _ ≤ i.cap + 1
    omega
  · intro narrow v id held
    change i.cap < 2 ^ 32 at narrow
    simp only [Interner.enter, getElem?_insert_if] at held
    split at held
    · cases held
      rw [Nat.mod_eq_of_lt (by omega)]
      exact some
    · exact wellFormed.positive narrow v id held

/-- Interning keeps the ids that are in use. -/
theorem intern (wellFormed : i.WellFormed) (value : String) :
    (i.intern value).2.2.WellFormed ∧ (i.intern value).2.2.cap = i.cap ∧
      i.names.length ≤ (i.intern value).2.2.names.length ∧
      (i.intern value).1 < (i.intern value).2.2.names.length ∧
      (i.cap < 2 ^ 32 → (i.intern value).2.1 = false → 0 < (i.intern value).1) ∧
      ("other" ∉ i.names.tail → value ≠ "other" →
        "other" ∉ (i.intern value).2.2.names.tail) := by
  -- the name is known, or new with room for it, or folded into the first
  obtain ⟨id, held, result⟩ | ⟨absent, room, result⟩ | ⟨absent, full, result⟩ :=
    i.intern_cases value
  · rw [result]
    exact ⟨wellFormed, rfl, le_refl _, wellFormed.within value id held,
      fun narrow _ => wellFormed.positive narrow value id held, fun without _ => without⟩
  · rw [result]
    have some := wellFormed.length_pos
    have length : (i.enter value).names.length = i.names.length + 1 := by simp [Interner.enter]
    have small := Nat.mod_le i.names.length (2 ^ 32)
    have grown : i.names.length ≤ (i.enter value).names.length := by omega
    have inUse : i.names.length % 2 ^ 32 < (i.enter value).names.length := by omega
    refine ⟨wellFormed.enter absent room, rfl, grown, inUse, ?_, ?_⟩
    · intro narrow _
      show 0 < i.names.length % 2 ^ 32
      rw [Nat.mod_eq_of_lt (by omega)]
      exact some
    · intro without different listed
      change "other" ∈ (i.names ++ [value]).tail at listed
      cases names : i.names with
      | nil => simp [names] at some
      | cons head rest =>
        rw [names] at without listed
        simp only [List.cons_append, List.tail_cons, List.mem_append, List.mem_singleton] at listed
        cases listed with
        | inl earlier => exact without earlier
        | inr isValue => exact different isValue.symm
  · rw [result]
    exact ⟨wellFormed, rfl, le_refl _, wellFormed.length_pos, fun _ never => (by cases never),
      fun without _ => without⟩

/-- Two ids in use have different names, unless one is the folded one and the other that of a
value called `other`. -/
theorem name_inj (wellFormed : i.WellFormed) {a b : Nat} (inUse : a < i.names.length)
    (inUse' : b < i.names.length) (apart : "other" ∉ i.names.tail ∨ 0 < a ∧ 0 < b)
    (same : i.name a = i.name b) : a = b := by
  have head := wellFormed.head
  have distinct := wellFormed.distinct
  unfold Interner.name at same
  cases names : i.names with
  | nil =>
    rw [names] at head
    cases head
  | cons other rest =>
    rw [names] at head distinct inUse inUse' apart same
    simp only [List.head?_cons, Option.some.injEq] at head
    simp only [List.tail_cons, List.length_cons] at distinct inUse inUse' apart
    have listed {n : Nat} (small : n < rest.length) :
        ((other :: rest)[n + 1]?).getD "" = rest[n] := by simp [small]
    -- the first id has the name "other", the later ones have distinct names
    cases a with
    | zero =>
      cases b with
      | zero => rfl
      | succ b =>
        rw [listed (by omega)] at same
        simp only [List.getElem?_cons_zero, Option.getD_some, head] at same
        cases apart with
        | inl without => exact absurd (same ▸ List.getElem_mem _) without
        | inr positive => omega
    | succ a =>
      rw [listed (by omega)] at same
      cases b with
      | zero =>
        simp only [List.getElem?_cons_zero, Option.getD_some, head] at same
        cases apart with
        | inl without => exact absurd (same ▸ List.getElem_mem _) without
        | inr positive => omega
      | succ b =>
        rw [listed (by omega)] at same
        rw [(distinct.getElem_inj_iff).mp same]

end Interner.WellFormed

/-! ## A run -/

/-- Every key is made of ids in use. -/
structure Labelled (inner : Inner) : Prop where
  providers : inner.providers.WellFormed
  models : inner.models.WellFormed
  services : inner.services.WellFormed
  tools : inner.tools.WellFormed
  distinct : (inner.series.map Prod.fst).Nodup
  toolsDistinct : (inner.toolSeries.map Prod.fst).Nodup
  inUse : ∀ k ∈ inner.series.map Prod.fst, k.1 < inner.providers.names.length ∧
    k.2.1 < inner.models.names.length ∧ k.2.2 < inner.services.names.length
  toolsInUse : ∀ k ∈ inner.toolSeries.map Prod.fst, k.1 < inner.services.names.length ∧
    k.2 < inner.tools.names.length

/-- No value called `other` has been admitted. -/
structure NoOther (inner : Inner) : Prop where
  providers : "other" ∉ inner.providers.names.tail
  models : "other" ∉ inner.models.names.tail
  services : "other" ∉ inner.services.names.tail
  tools : "other" ∉ inner.tools.names.tail

/-- Ids fit in 32 bits, and while nothing has been folded no key has the folded id. -/
structure Unfolded (inner : Inner) : Prop where
  providers : inner.providers.cap < 2 ^ 32
  models : inner.models.cap < 2 ^ 32
  services : inner.services.cap < 2 ^ 32
  tools : inner.tools.cap < 2 ^ 32
  keys : inner.folded = 0 → ∀ k ∈ inner.series.map Prod.fst, 0 < k.1 ∧ 0 < k.2.1 ∧ 0 < k.2.2
  toolKeys : inner.folded = 0 → ∀ k ∈ inner.toolSeries.map Prod.fst, 0 < k.1 ∧ 0 < k.2

/-- A span that is recorded under no value called `other`. -/
def WithoutOther (s : NormalizedSpan) : Prop :=
  if isLlmSpan s then
    label s.provider ≠ "other" ∧ label s.model ≠ "other" ∧ label s.serviceName ≠ "other"
  else if Agent.isKind s "TOOL" then
    label s.serviceName ≠ "other" ∧ label (Agent.toolName s) ≠ "other"
  else True

section Steps

variable {inner : Inner}

theorem Labelled.recordTool (labelled : Labelled inner) (s : NormalizedSpan) :
    Labelled (recordTool inner s) := by
  obtain ⟨services, -, moreServices, service, -, -⟩ := labelled.services.intern (label s.serviceName)
  obtain ⟨tools, -, moreTools, tool, -, -⟩ := labelled.tools.intern (label (Agent.toolName s))
  constructor
  · exact labelled.providers
  · exact labelled.models
  · exact services
  · exact tools
  · exact labelled.distinct
  · exact nodup_keys_upsert labelled.toolsDistinct
  · intro k listed
    obtain ⟨p, m, sv⟩ := labelled.inUse k listed
    exact ⟨p, m, sv.trans_le moreServices⟩
  · intro k listed
    rw [Usage.recordTool] at listed
    simp only [mem_keys_upsert] at listed
    cases listed with
    | inl isKey =>
      rw [isKey]
      split
      · exact ⟨services.length_pos, tools.length_pos⟩
      · exact ⟨service, tool⟩
    | inr earlier =>
      obtain ⟨sv, t⟩ := labelled.toolsInUse k earlier
      exact ⟨sv.trans_le moreServices, t.trans_le moreTools⟩

theorem Labelled.charge (labelled : Labelled inner) (deps : Deps) {ids : SeriesKey}
    (inUse : ids.1 < inner.providers.names.length ∧ ids.2.1 < inner.models.names.length ∧
      ids.2.2 < inner.services.names.length) (folded : Bool) (s : NormalizedSpan) :
    Labelled (charge deps inner ids folded s) := by
  constructor
  · exact labelled.providers
  · exact labelled.models
  · exact labelled.services
  · exact labelled.tools
  · exact nodup_keys_upsert labelled.distinct
  · exact labelled.toolsDistinct
  · intro k listed
    rw [Usage.charge] at listed
    simp only [mem_keys_upsert] at listed
    cases listed with
    | inl isKey =>
      rw [isKey]
      split
      · exact ⟨labelled.providers.length_pos, labelled.models.length_pos,
          labelled.services.length_pos⟩
      · exact inUse
    | inr earlier => exact labelled.inUse k earlier
  · exact labelled.toolsInUse

theorem Labelled.internLabels (labelled : Labelled inner) (labels : Labels) :
    Labelled (internLabels inner labels).2 ∧
      (internLabels inner labels).1.1.1 < (internLabels inner labels).2.providers.names.length ∧
      (internLabels inner labels).1.1.2.1 < (internLabels inner labels).2.models.names.length ∧
      (internLabels inner labels).1.1.2.2 <
        (internLabels inner labels).2.services.names.length := by
  obtain ⟨providers, -, moreProviders, provider, -, -⟩ := labelled.providers.intern labels.provider
  obtain ⟨models, -, moreModels, model, -, -⟩ := labelled.models.intern labels.model
  obtain ⟨services, -, moreServices, service, -, -⟩ := labelled.services.intern labels.service
  refine ⟨⟨providers, models, services, labelled.tools, labelled.distinct, labelled.toolsDistinct,
    ?_, ?_⟩, provider, model, service⟩
  · intro k listed
    obtain ⟨p, m, sv⟩ := labelled.inUse k listed
    exact ⟨p.trans_le moreProviders, m.trans_le moreModels, sv.trans_le moreServices⟩
  · intro k listed
    obtain ⟨sv, t⟩ := labelled.toolsInUse k listed
    exact ⟨sv.trans_le moreServices, t⟩

theorem Labelled.recordOne (labelled : Labelled inner) (deps : Deps) (s : NormalizedSpan) :
    Labelled (recordOne deps inner s) := by
  rw [recordOne_eq]
  split
  · obtain ⟨interned, inUse⟩ := labelled.internLabels (labelsOf s)
    exact interned.charge deps inUse _ s
  · split
    · exact labelled.recordTool s
    · exact labelled

theorem NoOther.recordOne (labelled : Labelled inner) (noOther : NoOther inner) (deps : Deps)
    {s : NormalizedSpan} (without : WithoutOther s) : NoOther (recordOne deps inner s) := by
  rw [recordOne_eq]
  unfold WithoutOther at without
  split at without
  · next llm =>
    rw [if_pos llm]
    obtain ⟨provider, model, service⟩ := without
    exact ⟨(labelled.providers.intern _).2.2.2.2.2 noOther.providers provider,
      (labelled.models.intern _).2.2.2.2.2 noOther.models model,
      (labelled.services.intern _).2.2.2.2.2 noOther.services service, noOther.tools⟩
  · next notLlm =>
    rw [if_neg notLlm]
    split at without
    · next tool =>
      rw [if_pos tool]
      obtain ⟨service, toolName⟩ := without
      exact ⟨noOther.providers, noOther.models,
        (labelled.services.intern _).2.2.2.2.2 noOther.services service,
        (labelled.tools.intern _).2.2.2.2.2 noOther.tools toolName⟩
    · next notTool =>
      rw [if_neg notTool]
      exact noOther

theorem Unfolded.recordTool (labelled : Labelled inner) (unfolded : Unfolded inner)
    (s : NormalizedSpan) : Unfolded (recordTool inner s) := by
  obtain ⟨-, serviceCap, -, -, service, -⟩ := labelled.services.intern (label s.serviceName)
  obtain ⟨-, toolCap, -, -, tool, -⟩ := labelled.tools.intern (label (Agent.toolName s))
  have before (nothing : (Usage.recordTool inner s).folded = 0) : inner.folded = 0 := by
    rw [Usage.recordTool] at nothing
    simp only at nothing
    omega
  constructor
  · exact unfolded.providers
  · exact unfolded.models
  · exact serviceCap ▸ unfolded.services
  · exact toolCap ▸ unfolded.tools
  · exact fun nothing => unfolded.keys (before nothing)
  · intro nothing k listed
    have earlier := unfolded.toolKeys (before nothing) k
    rw [Usage.recordTool] at nothing listed
    simp only [mem_keys_upsert] at nothing listed
    split at nothing
    · omega
    · next none =>
      simp only [Bool.or_eq_true, decide_eq_true_eq, not_or, Bool.not_eq_true] at none
      cases listed with
      | inl isKey =>
        rw [isKey, if_neg none.2]
        exact ⟨service unfolded.services none.1.1, tool unfolded.tools none.1.2⟩
      | inr listed => exact earlier listed

theorem Unfolded.recordOne (labelled : Labelled inner) (unfolded : Unfolded inner) (deps : Deps)
    (s : NormalizedSpan) : Unfolded (recordOne deps inner s) := by
  rw [recordOne_eq]
  split
  · obtain ⟨-, providerCap, -, -, provider, -⟩ := labelled.providers.intern (labelsOf s).provider
    obtain ⟨-, modelCap, -, -, model, -⟩ := labelled.models.intern (labelsOf s).model
    obtain ⟨-, serviceCap, -, -, service, -⟩ := labelled.services.intern (labelsOf s).service
    have before (nothing : (charge deps (Usage.internLabels inner (labelsOf s)).2
        (Usage.internLabels inner (labelsOf s)).1.1
        (Usage.internLabels inner (labelsOf s)).1.2 s).folded = 0) : inner.folded = 0 := by
      rw [Usage.charge, Usage.internLabels] at nothing
      simp only at nothing
      omega
    constructor
    · exact providerCap ▸ unfolded.providers
    · exact modelCap ▸ unfolded.models
    · exact serviceCap ▸ unfolded.services
    · exact unfolded.tools
    · intro nothing k listed
      have earlier := unfolded.keys (before nothing) k
      rw [Usage.charge, Usage.internLabels] at nothing listed
      simp only [mem_keys_upsert] at nothing listed
      -- a folded label is counted, so with none counted each id is a real one
      split at nothing
      · omega
      · next none =>
        simp only [Bool.or_eq_true, decide_eq_true_eq, not_or, Bool.not_eq_true] at none
        cases listed with
        | inl isKey =>
          rw [isKey, if_neg none.2]
          exact ⟨provider unfolded.providers none.1.1.1, model unfolded.models none.1.1.2,
            service unfolded.services none.1.2⟩
        | inr listed => exact earlier listed
    · exact fun nothing => unfolded.toolKeys (before nothing)
  · split
    · exact unfolded.recordTool labelled s
    · exact unfolded

end Steps

/-- Label texts differ from series to series while the folded id and `other` as a value do not
meet. -/
theorem nodup_labels {inner : Inner} (labelled : Labelled inner)
    (apart : NoOther inner ∨ Unfolded inner ∧ inner.folded = 0) :
    ((samples inner).map Sample.identity).Nodup := by
  -- an id is told by its name, unless both may be the folded one
  have ids {i : Interner} (wellFormed : i.WellFormed) {a b : Nat} (inUse : a < i.names.length)
      (inUse' : b < i.names.length) (same : i.name a = i.name b)
      (apart : "other" ∉ i.names.tail ∨ 0 < a ∧ 0 < b) : a = b :=
    wellFormed.name_inj inUse inUse' apart same
  apply nodup_samples
  · rw [show inner.series.map (fun e => seriesLabels inner e.1) =
      (inner.series.map Prod.fst).map (seriesLabels inner) by simp]
    apply labelled.distinct.map_on
    intro k listed k' listed' same
    have names := seriesLabels_inj same
    simp only [seriesNames, Prod.mk.injEq] at names
    obtain ⟨p, m, sv⟩ := labelled.inUse k listed
    obtain ⟨p', m', sv'⟩ := labelled.inUse k' listed'
    refine Prod.ext (ids labelled.providers p p' names.1 ?_)
      (Prod.ext (ids labelled.models m m' names.2.1 ?_) (ids labelled.services sv sv' names.2.2 ?_))
    all_goals
      obtain noOther | ⟨unfolded, nothing⟩ := apart
    · exact .inl noOther.providers
    · exact .inr ⟨(unfolded.keys nothing k listed).1, (unfolded.keys nothing k' listed').1⟩
    · exact .inl noOther.models
    · exact .inr ⟨(unfolded.keys nothing k listed).2.1, (unfolded.keys nothing k' listed').2.1⟩
    · exact .inl noOther.services
    · exact .inr ⟨(unfolded.keys nothing k listed).2.2, (unfolded.keys nothing k' listed').2.2⟩
  · rw [show inner.toolSeries.map (fun e => toolLabels inner e.1) =
      (inner.toolSeries.map Prod.fst).map (toolLabels inner) by simp]
    apply labelled.toolsDistinct.map_on
    intro k listed k' listed' same
    have names := toolLabels_inj same
    simp only [toolNames, Prod.mk.injEq] at names
    obtain ⟨sv, t⟩ := labelled.toolsInUse k listed
    obtain ⟨sv', t'⟩ := labelled.toolsInUse k' listed'
    refine Prod.ext (ids labelled.services sv sv' names.1 ?_) (ids labelled.tools t t' names.2 ?_)
    all_goals
      obtain noOther | ⟨unfolded, nothing⟩ := apart
    · exact .inl noOther.services
    · exact .inr ⟨(unfolded.toolKeys nothing k listed).1, (unfolded.toolKeys nothing k' listed').1⟩
    · exact .inl noOther.tools
    · exact .inr ⟨(unfolded.toolKeys nothing k listed).2, (unfolded.toolKeys nothing k' listed').2⟩

theorem labelled_new (modelCap : Nat) : Labelled (Inner.new modelCap) where
  providers := .new _
  models := .new _
  services := .new _
  tools := .new _
  distinct := List.nodup_nil
  toolsDistinct := List.nodup_nil
  inUse := fun _ never => nomatch never
  toolsInUse := fun _ never => nomatch never

/-- No two samples of a scrape share a name and a label set, when no span was recorded under
a value called `other`, or none has been folded. -/
theorem samples_distinct (deps : Deps) (modelCap : Nat) (batches : List (List NormalizedSpan))
    (apart : (∀ s ∈ batches.flatten, WithoutOther s) ∨
      modelCap < 2 ^ 32 ∧ (batches.foldl (record deps) (Inner.new modelCap)).folded = 0) :
    ((samples (batches.foldl (record deps) (Inner.new modelCap))).map Sample.identity).Nodup := by
  rw [foldl_record_eq] at apart ⊢
  have run (spans : List NormalizedSpan) (inner : Inner) (labelled : Labelled inner) :
      Labelled (spans.foldl (recordOne deps) inner) ∧
        (NoOther inner → (∀ s ∈ spans, WithoutOther s) →
          NoOther (spans.foldl (recordOne deps) inner)) ∧
        (Unfolded inner → Unfolded (spans.foldl (recordOne deps) inner)) := by
    induction spans generalizing inner with
    | nil => exact ⟨labelled, fun noOther _ => noOther, fun unfolded => unfolded⟩
    | cons s spans inductionHypothesis =>
      obtain ⟨last, noOther', unfolded'⟩ := inductionHypothesis _ (labelled.recordOne deps s)
      refine ⟨last, fun noOther without => ?_, fun unfolded => ?_⟩
      · exact noOther' (noOther.recordOne labelled deps (without s List.mem_cons_self))
          (fun x listed => without x (List.mem_cons_of_mem _ listed))
      · exact unfolded' (unfolded.recordOne labelled deps s)
  obtain ⟨labelled, noOther, unfolded⟩ := run batches.flatten _ (labelled_new modelCap)
  apply nodup_labels labelled
  cases apart with
  | inl without =>
    exact .inl (noOther ⟨List.not_mem_nil, List.not_mem_nil, List.not_mem_nil,
      List.not_mem_nil⟩ without)
  | inr nothing =>
    refine .inr ⟨unfolded ⟨show 16 < 2 ^ 32 by decide, ?_, show 32 < 2 ^ 32 by decide,
      show 64 < 2 ^ 32 by decide, ?_, ?_⟩, nothing.2⟩
    · show max modelCap 1 < 2 ^ 32
      have narrow := nothing.1
      omega
    · exact fun _ _ never => nomatch never
    · exact fun _ _ never => nomatch never

/-- A model call. -/
def call (model : String) : NormalizedSpan :=
  { traceId := "t", spanId := "s", startUnixNano := 1, model := some model }

theorem samples_distinct_call :
    ((samples ([[call "a", call "b"]].foldl (record .hashing) (Inner.new 2))).map
      Sample.identity).Nodup := by
  apply samples_distinct .hashing 2 [[call "a", call "b"]]
  left
  simp only [List.flatten_cons, List.flatten_nil, List.append_nil, List.forall_mem_cons]
  exact ⟨⟨by decide, by decide, by decide⟩, ⟨by decide, by decide, by decide⟩,
    fun _ never => nomatch never⟩

/-- With room for two models, a third is folded beside one that is called `other`. -/
theorem other_rendered_twice :
    ¬ ((samples ([[call "a", call "other", call "c"]].foldl (record .hashing)
      (Inner.new 2))).map Sample.identity).Nodup := by
  intro distinct
  exact absurd (nodup_labels_of_samples distinct) (by decide)

end Evald.Usage
