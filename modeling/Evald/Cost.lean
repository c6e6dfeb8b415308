import Evald.Attributes
import Evald.Basis
import Evald.Encodings
import Evald.JsonText
import Evald.Lib.Regex
import Evald.Lib.Tally
import Evald.Price

/-! # The cost report

`costRows` and `grandTotal` add up the stored costs of the spans of each group.  `reprice`
prices every derived or missing cost again under a table: it tells a derived cost from a
reported one, and the basis of a derived one, by the text of the attributes.

A sum of doubles depends on its order, so a sum is kept here as the list of what is added;
reports are compared by what they add, not by the order.
-/

namespace Evald.Cost

open Evald.Lib Evald.Normalize Evald.Pricing

inductive Dimension where
  | model
  | user
  | session
  | service
  | provider
  deriving DecidableEq

/-- The column a dimension groups on. -/
def Dimension.column : Dimension → NormalizedSpan → Option String
  | model => NormalizedSpan.model
  | user => NormalizedSpan.userId
  | session => NormalizedSpan.sessionId
  | service => NormalizedSpan.serviceName
  | provider => NormalizedSpan.provider

def untagged : String := "(untagged)"

/-- One row of the report.  Tokens are a 64-bit column, absent when nothing was added to it;
so is the cost. -/
structure Line where
  attribution : String
  spans : Nat
  tokens : Option (BitVec 64)
  costs : List F64
  missing : Nat

structure Total where
  spans : Nat
  tokens : Option (BitVec 64)
  costs : List F64
  missing : Nat
  groups : Nat

/-! ## The stored costs -/

/-- `SUM(total_tokens)`. -/
def sumTokens (spans : List NormalizedSpan) : Option (BitVec 64) :=
  let counts := spans.filterMap (fun s => s.tokens.total)
  if counts.isEmpty then none else some (counts.map (BitVec.ofNat 64)).sum

def missingCost (spans : List NormalizedSpan) : Nat :=
  (spans.filter (fun s => s.costUsd.isNone)).length

/-- `GROUP BY` the raw column, so that spans without a value are a group of their own; the
label is for display. -/
def costRows (dimension : Dimension) (spans : List NormalizedSpan) : List Line :=
  (spans.map dimension.column).dedup.map (fun value =>
    let group := spans.filter (fun s => dimension.column s = value)
    { attribution := value.getD untagged
      spans := group.length
      tokens := sumTokens group
      costs := group.filterMap NormalizedSpan.costUsd
      missing := missingCost group })

/-- Over every span.  The groups are the distinct values, and one more for spans without. -/
def grandTotal (dimension : Dimension) (spans : List NormalizedSpan) : Total :=
  { spans := spans.length
    tokens := sumTokens spans
    costs := spans.filterMap NormalizedSpan.costUsd
    missing := missingCost spans
    groups := (spans.filterMap dimension.column).dedup.length +
      if (spans.filter (fun s => (dimension.column s).isNone)).isEmpty then 0 else 1 }

/-! ## Pricing again -/

section Reprice

variable (float : Floats) (printFloat : ℚ → List Char)

/-- The text of the attributes, as the table has it. -/
def attributesText (s : NormalizedSpan) : List Char :=
  (Json.obj s.rawAttributes.toList).text printFloat

def isLike (pattern : String) (text : List Char) : Bool :=
  (Regex.like pattern.toList).Matches text

def costPattern (key : String) : String := "%\"" ++ key ++ "\":%"

def basisPattern (word : String) : String := "%\"evald.cost.basis\":\"%" ++ word ++ "%"

/-- What a span is grouped by to be priced. -/
structure Shape where
  attribution : Option String
  model : Option String
  tokens : Tokens
  costUsd : Option F64
  derived : Bool
  cacheExcl : Bool
  reasoningAdd : Bool
  deriving DecidableEq

def shapeOf (dimension : Dimension) (s : NormalizedSpan) : Shape :=
  { attribution := dimension.column s
    model := s.model
    tokens := s.tokens
    costUsd := s.costUsd
    derived := s.costUsd.isSome &&
      costAttributes.all (fun k => !isLike (costPattern k) (attributesText printFloat s))
    cacheExcl := isLike (basisPattern "cache_excl") (attributesText printFloat s)
    reasoningAdd := isLike (basisPattern "reasoning_add") (attributesText printFloat s) }

/-- The total the normalizer would have filled in says nothing about the counts. -/
def evidenceTotal (t : Tokens) : Option Nat :=
  let synthesized :=
    match t.prompt, t.completion with
    | some p, some c => some (wrappingAdd p c)
    | _, _ => none
  t.total.filter (fun total => some total ≠ synthesized)

/-- The cost of one span of a shape.  A number that is not finite is `null` in a row. -/
def Shape.perSpan (table : PriceTable) (x : Shape) : Option F64 :=
  match x.costUsd.filter F64.isFinite, x.derived with
  | some c, false => some c
  | _, _ =>
    match x.model with
    | none => none
    | some m =>
      if x.tokens.prompt.isNone && x.tokens.completion.isNone then none
      else
        match table.lookup m with
        | none => none
        | some (_, price) =>
          let basis :=
            if x.derived then { cacheExcl := x.cacheExcl, reasoningAdd := x.reasoningAdd }
            else detectBasis x.tokens (evidenceTotal x.tokens)
          some (priceTokens float price x.tokens basis)

structure Acc where
  spans : Nat := 0
  tokens : BitVec 64 := 0
  costs : List F64 := []
  missing : Nat := 0

/-- `n` spans of one shape; their cost is `n` times the cost of one. -/
def Acc.add (table : PriceTable) (acc : Acc) (row : Shape × Nat) : Acc :=
  let (x, n) := row
  let tokens := acc.tokens + BitVec.ofNat 64 (x.tokens.total.getD 0) * BitVec.ofNat 64 n
  match x.perSpan float table with
  | some c =>
    { acc with spans := acc.spans + n, tokens := tokens, costs := acc.costs ++ List.replicate n c }
  | none =>
    { acc with spans := acc.spans + n, tokens := tokens, missing := acc.missing + n }

def repriceMaxGroups : Nat := 1000000

/-- The distinct shapes, each with the number of its spans. -/
def usageRows (dimension : Dimension) (spans : List NormalizedSpan) : List (Shape × Nat) :=
  let shapes := spans.map (shapeOf printFloat dimension)
  shapes.dedup.map (fun x => (x, shapes.count x))

def rowKey (row : Shape × Nat) : String := row.1.attribution.getD untagged

/-- The report without a limit, `none` when there are too many shapes. -/
def reprice (dimension : Dimension) (table : PriceTable) (spans : List NormalizedSpan) :
    Option (List Line × Total) :=
  let rows := usageRows printFloat dimension spans
  if repriceMaxGroups < rows.length then none
  else
    let groups := tally rowKey {} (Acc.add float table) rows
    let all := rows.foldl (Acc.add float table) {}
    some
      (groups.toList.map (fun x =>
        { attribution := x.1
          spans := x.2.spans
          tokens := some x.2.tokens
          costs := x.2.costs
          missing := x.2.missing }),
        { spans := all.spans
          tokens := some all.tokens
          costs := all.costs
          missing := all.missing
          groups := groups.size })

end Reprice

/-! ## What a report adds up -/

/-- Spans, tokens, costs and spans without a cost. -/
abbrev Measure := ℕ × BitVec 64 × Multiset F64 × ℕ

/-- What one span adds. -/
def weigh (t : Tokens) (cost : Option F64) : Measure :=
  (1, BitVec.ofNat 64 (t.total.getD 0), cost.elim 0 (fun c => {c}), if cost.isNone then 1 else 0)

def Line.reading (l : Line) : String × Measure :=
  (l.attribution, l.spans, l.tokens.getD 0, l.costs, l.missing)

def Total.reading (t : Total) : Measure × ℕ :=
  ((t.spans, t.tokens.getD 0, t.costs, t.missing), t.groups)

def Acc.reading (acc : Acc) : Measure := (acc.spans, acc.tokens, acc.costs, acc.missing)

/-- Two reports that say the same, whatever the order of their rows and sums. -/
def SameReport (report report' : List Line × Total) : Prop :=
  (report.1.map Line.reading).Perm (report'.1.map Line.reading) ∧
    report.2.reading = report'.2.reading

theorem stored_measure (spans : List NormalizedSpan) :
    (spans.length, (sumTokens spans).getD 0,
        (spans.filterMap NormalizedSpan.costUsd : Multiset F64), missingCost spans) =
      ((spans.map (fun s => weigh s.tokens s.costUsd)).sum : Measure) := by
  have tokens (spans : List NormalizedSpan) : (sumTokens spans).getD 0 =
      ((spans.filterMap (fun s => s.tokens.total)).map (BitVec.ofNat 64)).sum := by
    unfold sumTokens
    simp only
    split
    · next empty => simp [List.isEmpty_iff.mp empty]
    · rfl
  induction spans with
  | nil => rfl
  | cons s spans inductionHypothesis =>
    rw [List.map_cons, List.sum_cons, ← inductionHypothesis, tokens, tokens]
    simp only [weigh, Prod.mk_add_mk, Prod.mk.injEq]
    refine ⟨by simp only [List.length_cons]; omega, ?_, ?_, ?_⟩
    · cases total : s.tokens.total with
      | none => simp [total]
      | some n => simp [total]
    · cases cost : s.costUsd with
      | none => simp [cost]
      | some c => simp [cost, ← Multiset.cons_coe, Multiset.singleton_add]
    · cases cost : s.costUsd with
      | none =>
        simp only [missingCost, List.filter_cons, cost, Option.isNone_none, if_true,
          List.length_cons]
        omega
      | some c => simp [missingCost, cost]

section Added

variable {float : Floats} {printFloat : ℚ → List Char} {table : PriceTable}

def Shape.weight (float : Floats) (table : PriceTable) (x : Shape) : Measure :=
  weigh x.tokens (x.perSpan float table)

theorem Acc.reading_add (acc : Acc) (row : Shape × Nat) :
    (acc.add float table row).reading = acc.reading + row.2 • row.1.weight float table := by
  obtain ⟨x, n⟩ := row
  unfold Acc.add Shape.weight weigh
  simp only
  cases x.perSpan float table with
  | some c =>
    simp [Acc.reading, Multiset.nsmul_singleton, mul_comm, ← Multiset.coe_add,
      Multiset.coe_replicate]
  | none =>
    simp [Acc.reading, mul_comm]

/-- What the rows of some keys add up to. -/
theorem sum_usageRows (dimension : Dimension) (spans : List NormalizedSpan) (p : String → Bool) :
    (((usageRows printFloat dimension spans).filter (fun row => p (rowKey row))).map
        (fun row => row.2 • row.1.weight float table)).sum =
      ((spans.filter (fun s => p ((dimension.column s).getD untagged))).map
        (fun s => (shapeOf printFloat dimension s).weight float table)).sum := by
  have shapes := sum_map_dedup_filter (fun x : Shape => p (x.attribution.getD untagged))
    (Shape.weight float table) (spans.map (shapeOf printFloat dimension))
  rw [List.filter_map, List.map_map] at shapes
  rw [usageRows, List.filter_map, List.map_map]
  exact shapes

/-- The label a span is reported under. -/
def label (dimension : Dimension) (s : NormalizedSpan) : String :=
  (dimension.column s).getD untagged

theorem mem_rowKeys {dimension : Dimension} {spans : List NormalizedSpan} {k : String} :
    k ∈ (usageRows printFloat dimension spans).map rowKey ↔ k ∈ spans.map (label dimension) := by
  simp only [usageRows, List.map_map, List.mem_map, List.mem_dedup, Function.comp_apply, rowKey]
  constructor
  · intro found
    obtain ⟨x, ⟨s, member, isShape⟩, isKey⟩ := found
    exact ⟨s, member, by rw [← isKey, ← isShape]; rfl⟩
  · intro found
    obtain ⟨s, member, isLabel⟩ := found
    exact ⟨_, ⟨s, member, rfl⟩, isLabel⟩

/-- Every label, with what its spans add when they are priced again. -/
theorem reprice_eq (dimension : Dimension) (table : PriceTable) {spans : List NormalizedSpan}
    (few : (usageRows printFloat dimension spans).length ≤ repriceMaxGroups) :
    ∃ report, reprice float printFloat dimension table spans = some report ∧
      (report.1.map Line.reading).Perm ((spans.map (label dimension)).dedup.map (fun k =>
        (k, ((spans.filter (fun s => label dimension s = k)).map
          (fun s => (shapeOf printFloat dimension s).weight float table)).sum))) ∧
      report.2.reading = ((spans.map
          (fun s => (shapeOf printFloat dimension s).weight float table)).sum,
        (spans.map (label dimension)).dedup.length) := by
  have adds := @Acc.reading_add float table
  -- the groups of the rows are the groups of the spans
  have keys : (tally rowKey {} (Acc.add float table)
      (usageRows printFloat dimension spans)).keys.Perm (spans.map (label dimension)).dedup := by
    rw [List.perm_ext_iff_of_nodup Std.ExtTreeMap.nodup_keys (List.nodup_dedup _)]
    intro k
    rw [mem_keys_tally, mem_rowKeys, List.mem_dedup]
  refine ⟨_, if_neg (by omega), ?_, ?_⟩
  · refine List.Perm.trans (List.Perm.of_eq ?_) (keys.map _)
    rw [← Std.ExtTreeMap.map_fst_toList_eq_keys, List.map_map, List.map_map]
    apply List.map_congr_left
    intro x listed
    obtain ⟨k, acc⟩ := x
    have held := Std.ExtTreeMap.mem_toList_iff_getElem?_eq_some.mp listed
    rw [getElem?_tally] at held
    split at held
    · cases held
    · cases held
      have sum := foldl_eq_sum adds
        ((usageRows printFloat dimension spans).filter (fun row => rowKey row = k)) {}
      -- the rows of a label weigh what its spans do
      have shapes := @sum_usageRows float printFloat table dimension spans (fun key => key = k)
      rw [shapes] at sum
      refine Prod.ext rfl (sum.trans ?_)
      exact zero_add _
  · have sum := foldl_eq_sum adds (usageRows printFloat dimension spans) {}
    have shapes := @sum_usageRows float printFloat table dimension spans (fun _ => true)
    simp only [List.filter_true] at shapes
    rw [shapes] at sum
    refine Prod.ext (sum.trans (zero_add _)) ?_
    show Std.ExtTreeMap.size _ = _
    rw [← Std.ExtTreeMap.length_keys]
    exact keys.length_eq

end Added

/-! ## The stored report -/

theorem costRows_reading (dimension : Dimension) (spans : List NormalizedSpan) :
    (costRows dimension spans).map Line.reading = (spans.map dimension.column).dedup.map
      (fun value => (value.getD untagged, ((spans.filter (fun s => dimension.column s = value)).map
        (fun s => weigh s.tokens s.costUsd)).sum)) := by
  rw [costRows, List.map_map]
  apply List.map_congr_left
  intro value _
  exact Prod.ext rfl (stored_measure _)

/-- The groups are counted by value. -/
theorem groups_eq (dimension : Dimension) (spans : List NormalizedSpan) :
    (grandTotal dimension spans).groups = (spans.map dimension.column).dedup.length := by
  have perm : (spans.map dimension.column).dedup.Perm
      ((spans.filterMap dimension.column).dedup.map some ++
        if (spans.filter (fun s => (dimension.column s).isNone)).isEmpty then [] else [none]) := by
    rw [List.perm_ext_iff_of_nodup (List.nodup_dedup _)]
    · intro value
      cases value with
      | none =>
        have missing : none ∈ spans.map dimension.column ↔
            spans.filter (fun s => (dimension.column s).isNone) ≠ [] := by
          simp [List.filter_eq_nil_iff]
        rw [List.mem_dedup, missing]
        by_cases empty : spans.filter (fun s => (dimension.column s).isNone) = []
        · simp [empty]
        · simp [empty]
      | some v => split <;> simp
    · rw [List.nodup_append]
      refine ⟨(List.nodup_dedup _).map (Option.some_injective _), ?_, ?_⟩
      · split <;> simp
      · intro x inValues y isNone same
        split at isNone
        · cases isNone
        · rw [List.mem_singleton] at isNone
          simp [same, isNone] at inValues
  rw [perm.length_eq, List.length_append, List.length_map, grandTotal]
  simp only
  split <;> rfl

theorem grandTotal_reading (dimension : Dimension) (spans : List NormalizedSpan) :
    (grandTotal dimension spans).reading = ((spans.map (fun s => weigh s.tokens s.costUsd)).sum,
      (spans.map dimension.column).dedup.length) :=
  Prod.ext (stored_measure spans) (groups_eq dimension spans)

/-- No span has the label of spans without a value as its value, beside one without. -/
def LabelsApart (dimension : Dimension) (spans : List NormalizedSpan) : Prop :=
  ¬ ((∃ s ∈ spans, dimension.column s = none) ∧
    ∃ s ∈ spans, dimension.column s = some untagged)

theorem LabelsApart.inj {dimension : Dimension} {spans : List NormalizedSpan}
    (apart : LabelsApart dimension spans) {s s' : NormalizedSpan} (member : s ∈ spans)
    (member' : s' ∈ spans) (same : label dimension s = label dimension s') :
    dimension.column s = dimension.column s' := by
  unfold label at same
  cases value : dimension.column s with
  | none =>
    cases value' : dimension.column s' with
    | none => rfl
    | some v =>
      rw [value, value'] at same
      have isLabel : untagged = v := same
      exact absurd ⟨⟨s, member, value⟩, s', member', by rw [value', ← isLabel]⟩ apart
  | some v =>
    cases value' : dimension.column s' with
    | none =>
      rw [value, value'] at same
      have isLabel : v = untagged := same
      exact absurd ⟨⟨s', member', value'⟩, s, member, by rw [value, isLabel]⟩ apart
    | some v' =>
      rw [value, value'] at same
      exact congrArg some same

/-- Distinct values have distinct labels exactly when the labels are apart. -/
theorem labels_perm {dimension : Dimension} {spans : List NormalizedSpan}
    (apart : LabelsApart dimension spans) : (spans.map (label dimension)).dedup.Perm
      ((spans.map dimension.column).dedup.map (fun value => value.getD untagged)) := by
  rw [List.perm_ext_iff_of_nodup (List.nodup_dedup _)]
  · intro k
    simp [label]
  · apply (List.nodup_dedup _).map_on
    intro value listed value' listed' same
    simp only [List.mem_dedup, List.mem_map] at listed listed'
    obtain ⟨s, member, rfl⟩ := listed
    obtain ⟨s', member', rfl⟩ := listed'
    exact apart.inj member member' same

theorem apart_of_length {dimension : Dimension} {spans : List NormalizedSpan}
    (same : (spans.map (label dimension)).dedup.length =
      (spans.map dimension.column).dedup.length) : LabelsApart dimension spans := by
  let labels := (spans.map dimension.column).dedup.map (fun value => value.getD untagged)
  have perm : labels.dedup.Perm (spans.map (label dimension)).dedup := by
    rw [List.perm_ext_iff_of_nodup (List.nodup_dedup _) (List.nodup_dedup _)]
    intro k
    simp [labels, label]
  have whole : labels.dedup = labels := by
    refine (List.dedup_sublist labels).eq_of_length ?_
    rw [perm.length_eq, same, List.length_map]
  have distinct : labels.Nodup := by
    rw [← whole]
    exact List.nodup_dedup labels
  intro both
  obtain ⟨⟨s, member, none⟩, s', member', isLabel⟩ := both
  have unset : Option.none ∈ (spans.map dimension.column).dedup :=
    List.mem_dedup.mpr (List.mem_map.mpr ⟨s, member, none⟩)
  have isSet : some untagged ∈ (spans.map dimension.column).dedup :=
    List.mem_dedup.mpr (List.mem_map.mpr ⟨s', member', isLabel⟩)
  have equal := List.inj_on_of_nodup_map distinct unset isSet rfl
  cases equal

section Compare

variable {float : Floats} {printFloat : ℚ → List Char} {table : PriceTable}
  {dimension : Dimension} {spans : List NormalizedSpan}

/-- Where every span keeps its cost the report stays. -/
theorem same_of_kept (few : (usageRows printFloat dimension spans).length ≤ repriceMaxGroups)
    (apart : LabelsApart dimension spans)
    (kept : ∀ s ∈ spans, (shapeOf printFloat dimension s).perSpan float table = s.costUsd) :
    ∃ report, reprice float printFloat dimension table spans = some report ∧
      SameReport report (costRows dimension spans, grandTotal dimension spans) := by
  obtain ⟨report, repriced, rows, total⟩ := reprice_eq dimension table few
  -- span by span, since no cost changes
  have weights (p : NormalizedSpan → Bool) :
      (spans.filter p).map (fun s => (shapeOf printFloat dimension s).weight float table) =
        (spans.filter p).map (fun s => weigh s.tokens s.costUsd) := by
    apply List.map_congr_left
    intro s member
    show weigh s.tokens _ = _
    rw [kept s (List.mem_of_mem_filter member)]
  refine ⟨report, repriced, ?_, ?_⟩
  · refine rows.trans ?_
    rw [costRows_reading]
    refine ((labels_perm apart).map _).trans (List.Perm.of_eq ?_)
    rw [List.map_map]
    apply List.map_congr_left
    intro value listed
    simp only [List.mem_dedup, List.mem_map] at listed
    obtain ⟨s, member, rfl⟩ := listed
    refine Prod.ext rfl ?_
    show ((spans.filter (fun s' => label dimension s' = label dimension s)).map
      (fun s' => (shapeOf printFloat dimension s').weight float table)).sum = _
    rw [weights]
    congr 2
    apply List.filter_congr
    intro s' member'
    -- a label stands for one value, and a missing one for the untagged group
    rw [decide_eq_decide]
    constructor
    · exact fun same => apart.inj member' member same
    · exact fun same => congrArg (fun value => value.getD untagged) same
  · have all := weights (fun _ => true)
    simp only [List.filter_true] at all
    rw [total, all, grandTotal_reading, (labels_perm apart).length_eq, List.length_map]

/-- Reports that say the same have the same groups. -/
theorem apart_of_same (few : (usageRows printFloat dimension spans).length ≤ repriceMaxGroups)
    {report : List Line × Total}
    (repriced : reprice float printFloat dimension table spans = some report)
    (same : SameReport report (costRows dimension spans, grandTotal dimension spans)) :
    LabelsApart dimension spans := by
  obtain ⟨report', repriced', -, total⟩ := @reprice_eq float printFloat dimension table spans few
  rw [repriced, Option.some.injEq] at repriced'
  subst repriced'
  have groups := congrArg Prod.snd (total.symm.trans same.2)
  rw [grandTotal_reading] at groups
  exact apart_of_length groups

end Compare

/-! ## What is read back of a cost -/

section Texts

variable {printFloat : ℚ → List Char}

theorem infix_membersText {members : List (String × Json)} {member : String × Json} (first : Bool)
    (listed : member ∈ members) :
    memberText printFloat member <:+: membersText printFloat first members := by
  induction members generalizing first with
  | nil => contradiction
  | cons other members inductionHypothesis =>
    rw [membersText]
    cases List.mem_cons.mp listed with
    | inl here =>
      rw [here]
      exact ⟨if first then [] else [','], membersText printFloat false members, by
        rw [List.append_assoc]⟩
    | inr later =>
      have inner := inductionHypothesis false later
      exact inner.trans ⟨(if first then [] else [',']) ++ memberText printFloat other, [], by simp⟩

/-- The text of the attributes has each of them, key and value. -/
theorem infix_attributesText {s : NormalizedSpan} {key : String} {value : Json}
    (found : s.rawAttributes[key]? = some value) :
    quoted key.toList ++ ':' :: value.text printFloat <:+: attributesText printFloat s := by
  have listed : (key, value) ∈ s.rawAttributes.toList :=
    Std.ExtTreeMap.mem_toList_iff_getElem?_eq_some.mpr found
  have inside := @infix_membersText printFloat s.rawAttributes.toList _ true listed
  rw [memberText] at inside
  unfold attributesText
  rw [Json.text]
  exact inside.trans (List.suffix_cons _ _).isInfix

theorem isLike_of_parts {before found after : List Char} {pattern : String} {middle : List Char}
    (isPattern : pattern.toList = '%' :: (middle ++ ['%']))
    (matched : (Regex.like middle).Matches found) :
    isLike pattern (before ++ (found ++ after)) = true := by
  unfold isLike
  rw [decide_eq_true_iff, isPattern]
  have ends := Regex.matches_like_append matched (Regex.matches_like_any after)
  exact Regex.matches_like_append (p := ['%']) (Regex.matches_like_any before) ends

/-- A cost attribute is found by its key. -/
theorem isLike_costPattern {s : NormalizedSpan} {key : String} (isCost : key ∈ costAttributes)
    (held : s.rawAttributes.contains key = true) :
    isLike (costPattern key) (attributesText printFloat s) = true := by
  rw [Std.ExtTreeMap.contains_eq_isSome_getElem?] at held
  obtain ⟨value, found⟩ := Option.isSome_iff_exists.mp held
  obtain ⟨before, after, split⟩ := @infix_attributesText printFloat s key value found
  have plain : escaped key.toList = key.toList := by
    simp only [costAttributes, List.mem_cons, List.not_mem_nil, or_false] at isCost
    obtain rfl | rfl := isCost <;> decide
  have text : attributesText printFloat s =
      before ++ (('"' :: (key.toList ++ ['"', ':'])) ++ (value.text printFloat ++ after)) := by
    rw [← split, quoted, plain]
    simp
  rw [text]
  refine isLike_of_parts ?_ (Regex.matches_like_self _)
  simp [costPattern, String.toList_append]

/-- The stamp of a basis is found by its words. -/
theorem isLike_basisPattern {s : NormalizedSpan} {stamp word : String}
    (found : s.rawAttributes[basisKey]? = some (.str stamp)) {front back : List Char}
    (parts : stamp.toList = front ++ (word.toList ++ back))
    (plain : escaped stamp.toList = stamp.toList) :
    isLike (basisPattern word) (attributesText printFloat s) = true := by
  obtain ⟨before, after, split⟩ := @infix_attributesText printFloat s basisKey (.str stamp) found
  have plainKey : escaped basisKey.toList = basisKey.toList := by decide
  have opening : "\"evald.cost.basis\":\"".toList =
      '"' :: (basisKey.toList ++ ['"', ':', '"']) := by
    decide
  rw [quoted, plainKey, Json.text, quoted, plain, parts] at split
  have text : attributesText printFloat s = before ++
      (("\"evald.cost.basis\":\"".toList ++ (front ++ word.toList)) ++ (back ++ '"' :: after)) := by
    rw [← split, opening]
    generalize basisKey.toList = key
    generalize word.toList = word
    simp only [List.append_assoc, List.cons_append, List.nil_append]
  have isPattern : (basisPattern word).toList =
      '%' :: (("\"evald.cost.basis\":\"".toList ++ ('%' :: word.toList)) ++ ['%']) := by
    have head : "%\"evald.cost.basis\":\"%".toList =
        '%' :: ("\"evald.cost.basis\":\"".toList ++ ['%']) := by
      decide
    have last : "%".toList = ['%'] := by decide
    unfold basisPattern
    rw [String.toList_append, String.toList_append, head, last]
    simp only [List.append_assoc, List.cons_append, List.nil_append]
  have matched := Regex.matches_like_gap "\"evald.cost.basis\":\"".toList word.toList front
  rw [text]
  exact isLike_of_parts isPattern matched

end Texts

/-! ## Stored spans -/

/-- A span as it is received. -/
structure Source where
  span : Otlp.Span
  serviceName : Option String := none
  scopeName : Option String := none
  scopeVersion : Option String := none

/-- Normalized and priced. -/
def Source.stored (deps : Deps) (table : PriceTable) (x : Source) : NormalizedSpan :=
  Pricing.apply deps.float table
    (normalizeSpan deps x.span x.serviceName x.scopeName x.scopeVersion)

/-- The table has a price for the counts of a span. -/
def priceable (table : PriceTable) (s : NormalizedSpan) : Bool :=
  match s.model with
  | none => false
  | some m => !(s.tokens.prompt.isNone && s.tokens.completion.isNone) && (table.lookup m).isSome

/-- A row that shows a key of a reported cost, at any depth. -/
def showsCost (printFloat : ℚ → List Char) (s : NormalizedSpan) : Bool :=
  costAttributes.any (fun k => isLike (costPattern k) (attributesText printFloat s))

/-- The words of a basis stand behind its key only where they are its value. -/
def SaysBasis (printFloat : ℚ → List Char) (s : NormalizedSpan) (word : String) : Prop :=
  isLike (basisPattern word) (attributesText printFloat s) = true →
    ∃ stamp, s.rawAttributes[basisKey]? = some (.str stamp) ∧ containsText stamp word = true

def basisWords : List String := ["cache_excl", "reasoning_add"]

/-- The basis that the text of a row shows. -/
def rowBasis (printFloat : ℚ → List Char) (s : NormalizedSpan) : Basis :=
  { cacheExcl := isLike (basisPattern "cache_excl") (attributesText printFloat s)
    reasoningAdd := isLike (basisPattern "reasoning_add") (attributesText printFloat s) }

/-- The basis that the stamp names. -/
def stampedBasis (s : NormalizedSpan) : Basis :=
  match s.rawAttributes[basisKey]? with
  | some (.str stamp) => Basis.fromStamp stamp
  | _ => {}

/-- The cost of a stored span is told from its row as it was reached: a cost that is taken for a
reported one is a number there, and behind one that is taken for derived stands no other basis,
unless it prices the same counts. -/
structure Repriceable (printFloat : ℚ → List Char) (s : NormalizedSpan) : Prop where
  finite : ∀ c, s.costUsd = some c → showsCost printFloat s = true → c.isFinite = true
  basis : s.costUsd.isSome → showsCost printFloat s = false →
    (∀ word ∈ basisWords, SaysBasis printFloat s word) ∨
      quantities s.tokens (rowBasis printFloat s) = quantities s.tokens (stampedBasis s)

/-- No cost was reported that could not be read, where the table has a price. -/
def Readable (table : PriceTable) (s : NormalizedSpan) : Prop :=
  s.costUsd = none → hasCostAttribute s = true → priceable table s = false

/-- A reported cost comes with its attribute. -/
theorem hasCostAttribute_of_reported {deps : Deps} {span : Otlp.Span}
    {service name version : Option String} {c : F64}
    (reported : (normalizeSpan deps span service name version).costUsd = some c) :
    hasCostAttribute (normalizeSpan deps span service name version) = true := by
  obtain ⟨raw, kept, normalized⟩ := Agent.normalize_spec (readSpan deps span service name version)
  unfold normalizeSpan at reported ⊢
  rw [normalized] at reported ⊢
  have read : (readSpan deps span service name version).costUsd = some c := by
    change (Agent.usageSetAside (readSpan deps span service name version)).costUsd = some c
      at reported
    unfold Agent.usageSetAside at reported
    split at reported
    · cases reported
    · exact reported
  obtain ⟨key, isCost, value⟩ := List.exists_of_findSome?_eq_some read
  have carried : ∃ kv ∈ span.attributes, kv.key = key := by
    by_contra absent
    push Not at absent
    have unseen : attr span.attributes key = none := by
      unfold attr
      rw [List.find?_eq_none.mpr (fun kv listed => by simpa using absent kv listed)]
      rfl
    unfold attrF64 at value
    rw [unseen] at value
    cases value
  obtain ⟨kv, listed, isKey⟩ := carried
  have held : raw.contains key = true := by
    have outside : key ∉ Agent.writtenKeys := by
      simp only [costAttributes, List.mem_cons, List.not_mem_nil, or_false] at isCost
      obtain rfl | rfl := isCost <;> decide
    rw [Std.ExtTreeMap.contains_eq_isSome_getElem?, kept key outside]
    show ((rawAttributes span.attributes)[key]?).isSome = true
    rw [getElem?_rawAttributes, Option.isSome_map, List.find?_isSome]
    exact ⟨kv, List.mem_reverse.mpr listed, by simpa using isKey⟩
  exact List.any_eq_true.mpr ⟨key, isCost, held⟩

section Derivation

variable {float : Floats} {table : PriceTable} {n : NormalizedSpan}

/-- How a derived cost was reached. -/
theorem derive_eq_some {d : Derived} (derived : derive float table n = some d) :
    n.costUsd = none ∧ hasCostAttribute n = false ∧
      ∃ m price, n.model = some m ∧
        (n.tokens.prompt.isNone && n.tokens.completion.isNone) = false ∧
        table.lookup m = some (d.model, price) ∧
        d.cost = priceTokens float price n.tokens d.basis := by
  unfold derive at derived
  cases cost : n.costUsd with
  | some c => simp [cost] at derived
  | none =>
    simp only [cost, Option.isSome_none, Bool.false_eq_true, if_false] at derived
    cases model : n.model with
    | none => simp [model] at derived
    | some m =>
      simp only [model] at derived
      split at derived
      · cases derived
      · next counted =>
        cases found : table.lookup m with
        | none => simp [found] at derived
        | some hit =>
          simp only [found] at derived
          split at derived
          · cases derived
          · next unreported =>
            cases derived
            exact ⟨rfl, by simpa using unreported, m, hit.2, rfl,
              by simpa only [Bool.not_eq_true] using counted, found, rfl⟩

/-- A cost is derived wherever the table has a price and none was reported. -/
theorem derive_eq_none (underived : derive float table n = none) (unpriced : n.costUsd = none)
    (unreported : hasCostAttribute n = false) : priceable table n = false := by
  unfold derive at underived
  unfold priceable
  simp only [unpriced, Option.isSome_none, Bool.false_eq_true, if_false] at underived
  cases model : n.model with
  | none => rfl
  | some m =>
    simp only [model] at underived ⊢
    cases counted : n.tokens.prompt.isNone && n.tokens.completion.isNone with
    | true => rfl
    | false =>
      simp only [counted, Bool.false_eq_true, if_false] at underived
      cases found : table.lookup m with
      | none => rfl
      | some hit => simp [found, unreported] at underived

/-- Behind the key of the basis stands what was read of the counts, if it was not the usual. -/
theorem rawAttributes_basis {d : Derived} (derived : derive float table n = some d) :
    (Pricing.apply float table n).rawAttributes[basisKey]? = d.basis.stamp.map Json.str := by
  unfold Pricing.apply
  simp only [derived]
  cases d.basis.stamp with
  | none => simp
  | some stamp => simp

theorem containsText_stamp (b : Basis) :
    ((∃ stamp, b.stamp = some stamp ∧ containsText stamp "cache_excl" = true) ↔
        b.cacheExcl = true) ∧
      ((∃ stamp, b.stamp = some stamp ∧ containsText stamp "reasoning_add" = true) ↔
        b.reasoningAdd = true) := by
  obtain ⟨cacheExcl, reasoningAdd⟩ := b
  cases cacheExcl <;> cases reasoningAdd <;>
    simp only [Basis.stamp, Option.some.injEq, reduceCtorEq, false_and, exists_false,
      exists_eq_left', Bool.false_eq_true] <;> decide

theorem parts_of_containsText {stamp word : String} (contained : containsText stamp word = true) :
    ∃ front back, stamp.toList = front ++ (word.toList ++ back) := by
  obtain ⟨tail, isTail, starts⟩ := List.any_eq_true.mp contained
  obtain ⟨front, split⟩ := (List.mem_tails _ _).mp isTail
  obtain ⟨back, begins⟩ := List.isPrefixOf_iff_prefix.mp starts
  exact ⟨front, back, by rw [← split, ← begins]⟩

theorem escaped_stamp {b : Basis} {stamp : String} (isStamp : b.stamp = some stamp) :
    escaped stamp.toList = stamp.toList := by
  obtain ⟨cacheExcl, reasoningAdd⟩ := b
  cases cacheExcl <;> cases reasoningAdd <;> cases isStamp <;> decide

end Derivation

section Kept

variable {deps : Deps} {printFloat : ℚ → List Char} {table : PriceTable}

/-- A word of the basis of a derived cost is read back from the text. -/
theorem basis_of_text {n : NormalizedSpan} {d : Derived}
    (derived : derive deps.float table n = some d) {word : String}
    (stands : SaysBasis printFloat (Pricing.apply deps.float table n) word) :
    isLike (basisPattern word)
        (attributesText printFloat (Pricing.apply deps.float table n)) = true ↔
      ∃ stamp, d.basis.stamp = some stamp ∧ containsText stamp word = true := by
  have read := rawAttributes_basis derived
  constructor
  · intro found
    obtain ⟨stamp, held, contained⟩ := stands found
    rw [read, Option.map_eq_some_iff] at held
    obtain ⟨stamp', isStamp, same⟩ := held
    cases same
    exact ⟨stamp, isStamp, contained⟩
  · intro stamped
    obtain ⟨stamp, isStamp, contained⟩ := stamped
    obtain ⟨front, back, parts⟩ := parts_of_containsText contained
    rw [isStamp] at read
    exact isLike_basisPattern read parts (escaped_stamp isStamp)

/-- The stamp of a derived cost names its basis. -/
theorem stampedBasis_apply {n : NormalizedSpan} {d : Derived}
    (derived : derive deps.float table n = some d) :
    stampedBasis (Pricing.apply deps.float table n) = d.basis := by
  have read := rawAttributes_basis derived
  obtain ⟨excl, adds⟩ := containsText_stamp d.basis
  unfold stampedBasis
  rw [read]
  cases isStamp : d.basis.stamp with
  | none =>
    simp only [isStamp, reduceCtorEq, false_and, exists_false, false_iff,
      Bool.not_eq_true] at excl adds
    show Basis.mk false false = Basis.mk d.basis.cacheExcl d.basis.reasoningAdd
    rw [excl, adds]
  | some stamp =>
    simp only [isStamp, Option.some.injEq, exists_eq_left'] at excl adds
    show Basis.mk _ _ = Basis.mk d.basis.cacheExcl d.basis.reasoningAdd
    rw [Bool.eq_iff_iff.mpr excl, Bool.eq_iff_iff.mpr adds]

/-- The row of a derived cost prices the counts that were priced. -/
theorem quantities_rowBasis {n : NormalizedSpan} {d : Derived}
    (derived : derive deps.float table n = some d)
    (basis : (∀ word ∈ basisWords,
        SaysBasis printFloat (Pricing.apply deps.float table n) word) ∨
      quantities n.tokens (rowBasis printFloat (Pricing.apply deps.float table n)) =
        quantities n.tokens (stampedBasis (Pricing.apply deps.float table n))) :
    quantities n.tokens (rowBasis printFloat (Pricing.apply deps.float table n)) =
      quantities n.tokens d.basis := by
  obtain stand | same := basis
  · have excl := (basis_of_text derived (stand "cache_excl" (by decide))).trans
      (containsText_stamp d.basis).1
    have adds := (basis_of_text derived (stand "reasoning_add" (by decide))).trans
      (containsText_stamp d.basis).2
    have read : rowBasis printFloat (Pricing.apply deps.float table n) = d.basis := by
      show Basis.mk _ _ = Basis.mk d.basis.cacheExcl d.basis.reasoningAdd
      rw [Bool.eq_iff_iff.mpr excl, Bool.eq_iff_iff.mpr adds]
    rw [read]
  · rw [same, stampedBasis_apply derived]

/-- A row shows the key of a reported cost, and perhaps one deeper inside. -/
theorem showsCost_of_reported {s : NormalizedSpan} (reported : hasCostAttribute s = true) :
    showsCost printFloat s = true := by
  obtain ⟨key, isCost, held⟩ := List.any_eq_true.mp reported
  exact List.any_eq_true.mpr ⟨key, isCost, isLike_costPattern isCost held⟩

theorem shapeOf_derived (dimension : Dimension) (s : NormalizedSpan) :
    (shapeOf printFloat dimension s).derived =
      (s.costUsd.isSome && !showsCost printFloat s) := by
  show (s.costUsd.isSome && _) = _
  rw [showsCost, List.not_any_eq_all_not]

/-- A cost that is kept. -/
theorem perSpan_kept {x : Shape} {c : F64} (cost : x.costUsd = some c)
    (finite : c.isFinite = true) (reported : x.derived = false) :
    x.perSpan deps.float table = some c := by
  unfold Shape.perSpan
  rw [cost, Option.filter_some_pos finite, reported]

/-- A cost that is reached again from its basis. -/
theorem perSpan_derived {x : Shape} {m key : String} {price : Price} (derived : x.derived = true)
    (model : x.model = some m)
    (counted : (x.tokens.prompt.isNone && x.tokens.completion.isNone) = false)
    (found : table.lookup m = some (key, price)) :
    x.perSpan deps.float table = some (priceTokens deps.float price x.tokens
      { cacheExcl := x.cacheExcl, reasoningAdd := x.reasoningAdd }) := by
  unfold Shape.perSpan
  rw [derived, model]
  simp only [counted, found, Bool.false_eq_true, if_false, if_true]
  cases x.costUsd.filter F64.isFinite <;> rfl

/-- A span without a cost is priced wherever the table has a price, whatever was reported. -/
theorem perSpan_eq_none_iff {s : NormalizedSpan} (dimension : Dimension)
    (cost : s.costUsd = none) :
    (shapeOf printFloat dimension s).perSpan deps.float table = none ↔
      priceable table s = false := by
  have shape : (shapeOf printFloat dimension s).costUsd = none := cost
  have sameModel : (shapeOf printFloat dimension s).model = s.model := rfl
  have sameTokens : (shapeOf printFloat dimension s).tokens = s.tokens := rfl
  unfold priceable Shape.perSpan
  rw [shape, sameModel, sameTokens]
  simp only [Option.filter_none]
  cases model : s.model with
  | none => simp
  | some m =>
    simp only [Bool.and_eq_false_iff, Bool.not_eq_false']
    split
    · next counted => simp [counted]
    · next uncounted => cases found : table.lookup m <;> simp [uncounted]

/-- A stored cost is the cost again. -/
theorem perSpan_stored {x : Source} (dimension : Dimension)
    (repriceable : Repriceable printFloat (x.stored deps table)) {c : F64}
    (cost : (x.stored deps table).costUsd = some c) :
    (shapeOf printFloat dimension (x.stored deps table)).perSpan deps.float table = some c := by
  have derived := @shapeOf_derived printFloat dimension (x.stored deps table)
  rw [cost, Option.isSome_some, Bool.true_and] at derived
  cases shown : showsCost printFloat (x.stored deps table) with
  | true =>
    rw [shown] at derived
    exact perSpan_kept cost (repriceable.finite c cost shown) derived
  | false =>
    rw [shown] at derived
    have basis := repriceable.basis (by rw [cost]; rfl) shown
    generalize made : normalizeSpan deps x.span x.serviceName x.scopeName x.scopeVersion = n
    have isStored : x.stored deps table = Pricing.apply deps.float table n := by rw [← made]; rfl
    rw [isStored] at derived cost basis shown ⊢
    obtain ⟨stored, raw, -, priced⟩ := Pricing.apply_spec deps.float table n
    have sameTokens : (Pricing.apply deps.float table n).tokens = n.tokens := by rw [priced]
    have sameModel : (Pricing.apply deps.float table n).model = n.model := by rw [priced]
    cases derivation : derive deps.float table n with
    | none =>
      -- a cost that was there before shows its key
      have unchanged : Pricing.apply deps.float table n = n := by
        unfold Pricing.apply
        rw [derivation]
      rw [unchanged] at cost shown
      have reported : hasCostAttribute n = true := by
        rw [← made] at cost ⊢
        exact hasCostAttribute_of_reported cost
      rw [showsCost_of_reported reported] at shown
      cases shown
    | some d =>
      obtain ⟨-, -, m, price, model, counted, found, isCost⟩ := derive_eq_some derivation
      have costs : (Pricing.apply deps.float table n).costUsd = some d.cost := by
        unfold Pricing.apply
        rw [derivation]
      have shapeModel :
          (shapeOf printFloat dimension (Pricing.apply deps.float table n)).model = some m := by
        rw [← model]
        exact sameModel
      have shapeTokens :
          (shapeOf printFloat dimension (Pricing.apply deps.float table n)).tokens = n.tokens :=
        sameTokens
      rw [← shapeTokens] at counted
      rw [sameTokens] at basis
      -- the row tells enough of the basis to count the same tokens
      have counts := quantities_rowBasis derivation basis
      have read : priceTokens deps.float price n.tokens
          (rowBasis printFloat (Pricing.apply deps.float table n)) = d.cost := by
        rw [isCost, priceTokens_eq, priceTokens_eq, counts]
      rw [costs] at cost
      rw [perSpan_derived derived shapeModel counted found, shapeTokens, ← cost, ← read]
      rfl

/-- What was left without a cost, and reported none, has no price. -/
theorem unpriceable_of_stored {x : Source} (unpriced : (x.stored deps table).costUsd = none)
    (unreported : hasCostAttribute (x.stored deps table) = false) :
    priceable table (x.stored deps table) = false := by
  generalize made : normalizeSpan deps x.span x.serviceName x.scopeName x.scopeVersion = n
  have isStored : x.stored deps table = Pricing.apply deps.float table n := by rw [← made]; rfl
  rw [isStored] at unpriced unreported ⊢
  cases derivation : derive deps.float table n with
  | some d =>
    unfold Pricing.apply at unpriced
    rw [derivation] at unpriced
    cases unpriced
  | none =>
    have unchanged : Pricing.apply deps.float table n = n := by
      unfold Pricing.apply
      rw [derivation]
    rw [unchanged] at unpriced unreported ⊢
    exact derive_eq_none derivation unpriced unreported

/-! ## The report again -/

theorem missing_sum (spans : List NormalizedSpan) (costOf : NormalizedSpan → Option F64) :
    ((spans.map (fun s => weigh s.tokens (costOf s))).sum : Measure).2.2.2 =
      (spans.map (fun s => if (costOf s).isNone then 1 else 0)).sum := by
  induction spans with
  | nil => rfl
  | cons s spans inductionHypothesis =>
    rw [List.map_cons, List.sum_cons, List.map_cons, List.sum_cons, ← inductionHypothesis]
    rfl

/-- Where no cost is lost, reports with as many missing costs have them on the same spans. -/
theorem unpriced_of_missing {dimension : Dimension} {spans : List NormalizedSpan}
    (kept : ∀ s ∈ spans, ∀ c, s.costUsd = some c →
      (shapeOf printFloat dimension s).perSpan deps.float table = some c)
    (same : (spans.map (fun s => (shapeOf printFloat dimension s).weight deps.float table)).sum =
      ((spans.map (fun s => weigh s.tokens s.costUsd)).sum : Measure))
    {s : NormalizedSpan} (member : s ∈ spans) (unpriced : s.costUsd = none) :
    (shapeOf printFloat dimension s).perSpan deps.float table = none := by
  have missing := congrArg (fun m : Measure => m.2.2.2) same
  have again := missing_sum spans
    (fun s => (shapeOf printFloat dimension s).perSpan deps.float table)
  have stored := missing_sum spans NormalizedSpan.costUsd
  have equal := (again.symm.trans missing).trans stored
  -- a span that gains a cost lowers the count of missing ones, and none raises it
  by_contra priced
  refine Nat.ne_of_lt (List.sum_lt_sum _ _ ?_ ⟨s, member, ?_⟩) equal
  · intro s' member'
    cases cost : s'.costUsd with
    | none => split <;> simp
    | some c => simp [kept s' member' c cost]
  · rw [← ne_eq, Option.ne_none_iff_isSome] at priced
    simp [unpriced, Option.isNone_iff_eq_none, Option.ne_none_iff_isSome.mpr priced]

/-- Priced again under the table that priced them, spans whose cost is told from the row give the
stored report exactly when their shapes fit the limit, no value is named like the group of spans
without one, and no cost was reported that could not be read and can be priced. -/
theorem reprice_same_iff (dimension : Dimension) {received : List Source}
    (repriceable : ∀ x ∈ received, Repriceable printFloat (x.stored deps table)) :
    (∃ report, reprice deps.float printFloat dimension table
          (received.map (Source.stored deps table)) = some report ∧
        SameReport report (costRows dimension (received.map (Source.stored deps table)),
          grandTotal dimension (received.map (Source.stored deps table)))) ↔
      (usageRows printFloat dimension (received.map (Source.stored deps table))).length ≤
          repriceMaxGroups ∧
        LabelsApart dimension (received.map (Source.stored deps table)) ∧
        ∀ s ∈ received.map (Source.stored deps table), Readable table s := by
  have kept : ∀ s ∈ received.map (Source.stored deps table), ∀ c, s.costUsd = some c →
      (shapeOf printFloat dimension s).perSpan deps.float table = some c := by
    intro s member c cost
    obtain ⟨x, listed, rfl⟩ := List.mem_map.mp member
    exact perSpan_stored dimension (repriceable x listed) cost
  constructor
  · rintro ⟨report, repriced, same⟩
    have few : (usageRows printFloat dimension
        (received.map (Source.stored deps table))).length ≤ repriceMaxGroups := by
      unfold reprice at repriced
      by_contra many
      rw [if_pos (by omega)] at repriced
      cases repriced
    refine ⟨few, apart_of_same few repriced same, ?_⟩
    intro s member unpriced _
    obtain ⟨report', repriced', -, total⟩ := @reprice_eq deps.float printFloat dimension table _ few
    rw [repriced, Option.some.injEq] at repriced'
    subst repriced'
    -- the totals agree, so as many costs are missing as before
    have sums := congrArg Prod.fst (total.symm.trans same.2)
    rw [grandTotal_reading] at sums
    exact (perSpan_eq_none_iff dimension unpriced).mp
      (unpriced_of_missing kept sums member unpriced)
  · rintro ⟨few, apart, readable⟩
    refine same_of_kept few apart ?_
    intro s member
    cases cost : s.costUsd with
    | some c => exact kept s member c cost
    | none =>
      rw [perSpan_eq_none_iff dimension cost]
      cases reported : hasCostAttribute s with
      | true => exact readable s member cost reported
      | false =>
        obtain ⟨x, -, rfl⟩ := List.mem_map.mp member
        exact unpriceable_of_stored cost reported

end Kept

/-- A call that reports its cost, and a step without a model. -/
def reportedCall : Source :=
  { span :=
      { traceId := [1]
        spanId := [1]
        name := "call"
        attributes :=
          [.mk "openinference.span.kind" (some (.string "LLM")),
            .mk "llm.cost.total" (some (.double (.finite 2)))] } }

def bareStep : Source := { span := { traceId := [1], spanId := [2], name := "step" } }

/-- A step that says something of a basis, and has no cost for it. -/
def notedStep : Source :=
  { span :=
      { traceId := [1]
        spanId := [4]
        name := "step"
        attributes :=
          [.mk basisKey (some (.string "x")), .mk "note" (some (.string "cache_excl"))] } }

theorem reportedCall_stored : (reportedCall.stored Deps.hashing oneModel).costUsd =
    some (.finite 2) ∧
      hasCostAttribute (reportedCall.stored Deps.hashing oneModel) = true := by
  have cost : (normalizeSpan Deps.hashing reportedCall.span none none none).costUsd =
      some (.finite 2) := by
    decide
  have reported := hasCostAttribute_of_reported cost
  have kept : reportedCall.stored Deps.hashing oneModel =
      normalizeSpan Deps.hashing reportedCall.span none none none := by
    show Pricing.apply _ _ (normalizeSpan Deps.hashing reportedCall.span none none none) = _
    unfold Pricing.apply derive
    rw [cost]
    rfl
  rw [kept]
  exact ⟨cost, reported⟩

theorem reprice_same_iff_two :
    ∃ report, reprice Deps.hashing.float (fun _ => []) .user oneModel
        ([reportedCall, notedStep].map (Source.stored Deps.hashing oneModel)) = some report ∧
      SameReport report
        (costRows .user ([reportedCall, notedStep].map (Source.stored Deps.hashing oneModel)),
          grandTotal .user
            ([reportedCall, notedStep].map (Source.stored Deps.hashing oneModel))) := by
  obtain ⟨cost, reported⟩ := reportedCall_stored
  have unpriced : (notedStep.stored Deps.hashing oneModel).costUsd = none := rfl
  have model : (notedStep.stored Deps.hashing oneModel).model = none := rfl
  refine (reprice_same_iff .user ?_).mpr ⟨?_, ?_, ?_⟩
  · intro x listed
    simp only [List.mem_cons, List.not_mem_nil, or_false] at listed
    obtain rfl | rfl := listed
    · have shown := @showsCost_of_reported (fun _ => []) _ reported
      refine ⟨?_, ?_⟩
      · intro c isCost _
        rw [cost, Option.some.injEq] at isCost
        rw [← isCost]
        rfl
      · intro _ hidden
        rw [shown] at hidden
        cases hidden
    · refine ⟨?_, ?_⟩ <;> simp [unpriced]
  · refine le_trans ?_ (show 2 ≤ repriceMaxGroups by decide)
    unfold usageRows
    rw [List.length_map]
    exact (List.dedup_sublist _).length_le
  · rintro ⟨-, s, member, isLabel⟩
    simp only [List.map_cons, List.map_nil, List.mem_cons, List.not_mem_nil, or_false] at member
    obtain rfl | rfl := member <;> exact absurd isLabel (by decide)
  · intro s member missing _
    simp only [List.map_cons, List.map_nil, List.mem_cons, List.not_mem_nil, or_false] at member
    obtain rfl | rfl := member
    · rw [cost] at missing
      cases missing
    · unfold priceable
      rw [model]

/-- A user who is called what spans without a user are called. -/
def namedUntagged : Source :=
  { span :=
      { traceId := [1]
        spanId := [3]
        name := "step"
        attributes := [.mk "user.id" (some (.string "(untagged)"))] } }

theorem untagged_user_merged :
    ¬ ∃ report, reprice Deps.hashing.float (fun _ => []) .user oneModel
        ([bareStep, namedUntagged].map (Source.stored Deps.hashing oneModel)) = some report ∧
      SameReport report
        (costRows .user ([bareStep, namedUntagged].map (Source.stored Deps.hashing oneModel)),
          grandTotal .user
            ([bareStep, namedUntagged].map (Source.stored Deps.hashing oneModel))) := by
  intro found
  obtain ⟨report, repriced, same⟩ := found
  refine apart_of_same ?_ repriced same ?_
  · refine le_trans ?_ (show 2 ≤ repriceMaxGroups by decide)
    unfold usageRows
    rw [List.length_map]
    exact (List.dedup_sublist _).length_le
  · refine ⟨⟨_, List.mem_cons_self, rfl⟩, _, List.mem_cons_of_mem _ List.mem_cons_self, rfl⟩

end Evald.Cost
